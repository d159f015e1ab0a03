import Mathlib.Data.List.Forall2
import Telemetry.Proofs.Removal

/-!
# Sessions that are due

A collection reports on the sessions that have ended, on those that are too old, and on all of them
if it is asked to end them.  It ends them, reports on each in the order of their starts, and removes
it.  So what the session stage leaves is the store without the sessions that were due.
-/

namespace Telemetry

theorem exists_of_forall₂ {α β : Type} {R : α → β → Prop} {l : List α} {l' : List β}
    (h : List.Forall₂ R l l') {a : α} (ha : a ∈ l) : ∃ b ∈ l', R a b := by
  induction h with
  | nil => cases ha
  | cons hab _ ih =>
    rcases List.mem_cons.1 ha with rfl | ha
    · exact ⟨_, List.mem_cons_self, hab⟩
    · exact (ih ha).imp fun b hb => ⟨List.mem_cons_of_mem _ hb.1, hb.2⟩

/-- Is this a session that a collection reports on? -/
def ReportRow.isDue (settings : Settings) (request : CollectRequest) (r : ReportRow) : Bool :=
  r.kind == .session && (r.endMs.isSome || request.endSessions
    || r.isOlder request.nowMs settings.retention.sessionExpiry)

/-- The report with an end: its own, or else now. -/
def ReportRow.endedBy (now : Int) (r : ReportRow) : ReportRow :=
  { r with endMs := some (r.endMs.getD now) }

theorem ReportRow.endedBy_of_some {r : ReportRow} {t : Int} (h : r.endMs = some t) (now : Int) :
    r.endedBy now = r := by
  obtain ⟨id, kind, name, startMs, endMs, version⟩ := r
  obtain rfl : endMs = some t := h
  rfl

theorem ReportRow.endedBy_of_none {r : ReportRow} (h : r.endMs = none) (now : Int) :
    r.endedBy now = { r with endMs := some now } := by
  rw [endedBy, h, Option.getD_none]

theorem ReportRow.precedes_iff {a b : ReportRow} :
    a.precedes b = true ↔ a.startMs < b.startMs ∨ a.startMs = b.startMs ∧ a.id ≤ b.id := by
  simp [precedes]

theorem ReportRow.pairwise_mergeSort (rows : List ReportRow) :
    (rows.mergeSort precedes).Pairwise fun a b =>
      a.startMs < b.startMs ∨ a.startMs = b.startMs ∧ a.id ≤ b.id := by
  have hsorted : (rows.mergeSort precedes).Pairwise fun a b => a.precedes b = true := by
    refine List.pairwise_mergeSort (fun a b c hab hbc => ?_) (fun a b => ?_) rows
    · rw [precedes_iff] at hab hbc ⊢
      omega
    · rw [Bool.or_eq_true, precedes_iff, precedes_iff]
      omega
  exact hsorted.imp fun h => precedes_iff.1 h

namespace Store

/-- The sessions that a collection reports on, by start. -/
def dueSessions (s : Store) (settings : Settings) (request : CollectRequest) : List ReportRow :=
  (s.reports.rows.filter (·.isDue settings request)).mergeSort ReportRow.precedes

/-- The store with the sessions ended that are due. -/
def endingDue (s : Store) (settings : Settings) (request : CollectRequest) : Store :=
  { s with reports :=
      s.reports.update (·.isDue settings request) (·.endedBy request.nowMs) }

variable {s s' : Store} {settings : Settings} {request : CollectRequest}

theorem of_isDue {r : ReportRow} (h : r.isDue settings request = true) : r.kind = .session := by
  simp only [ReportRow.isDue, Bool.and_eq_true, beq_iff_eq] at h
  exact h.1

theorem mem_dueSessions {r : ReportRow} :
    r ∈ s.dueSessions settings request ↔
      r ∈ s.reports.rows ∧ r.isDue settings request = true := by
  rw [dueSessions, List.mem_mergeSort, List.mem_filter]

/-- Ending the open sessions that are selected makes the due ones end. -/
theorem update_eq_endingDue {selected : ReportRow → Bool}
    (h : ∀ r ∈ s.reports.rows, selected r = (r.isDue settings request && r.endMs.isNone)) :
    { s with reports := s.reports.update selected fun r => { r with endMs := some request.nowMs } } =
      s.endingDue settings request := by
  have hrows : s.reports.update selected (fun r => { r with endMs := some request.nowMs }) =
      s.reports.update (·.isDue settings request) (·.endedBy request.nowMs) := by
    unfold Table.update
    congr 1
    refine List.map_congr_left fun r hr => ?_
    rw [h r hr]
    cases hdue : r.isDue settings request with
    | false => simp [hdue]
    | true =>
      cases hend : r.endMs with
      | none => simp [hdue, ReportRow.endedBy_of_none hend]
      | some t => simp [hdue, ReportRow.endedBy_of_some hend]
  rw [endingDue, hrows]

theorem Consistent.endingDue (hs : s.Consistent) (settings : Settings) (request : CollectRequest) :
    (s.endingDue settings request).Consistent := by
  have hselect : ∀ r ∈ s.reports.rows, (r.isDue settings request && r.endMs.isNone) =
      (r.isDue settings request && r.endMs.isNone) := fun _ _ => rfl
  rw [← update_eq_endingDue hselect]
  refine hs.finish request.nowMs fun r _ hsel => ?_
  have hkind : r.kind = .session := of_isDue (Bool.and_eq_true_iff.1 hsel).1
  simp [hkind]

/-- The ended sessions are the ones that were due. -/
theorem ended_endingDue (s : Store) (settings : Settings) (request : CollectRequest) :
    ((s.endingDue settings request).reports.rows.filter (·.isEnded .session)).mergeSort
        ReportRow.precedes =
      (s.dueSessions settings request).map (·.endedBy request.nowMs) := by
  have hended : (s.endingDue settings request).reports.rows.filter (·.isEnded .session) =
      (s.reports.rows.filter (·.isDue settings request)).map (·.endedBy request.nowMs) := by
    change (s.reports.rows.map fun r => if r.isDue settings request then r.endedBy request.nowMs
      else r).filter (·.isEnded .session) = _
    induction s.reports.rows with
    | nil => rfl
    | cons r rows ih =>
      rw [List.map_cons, List.filter_cons, List.filter_cons, ih]
      cases hdue : r.isDue settings request with
      | true =>
        have hkind : r.kind = .session := by
          simp only [ReportRow.isDue, Bool.and_eq_true, beq_iff_eq] at hdue
          exact hdue.1
        have hyes : (r.endedBy request.nowMs).isEnded .session = true := by
          simp [ReportRow.isEnded, ReportRow.endedBy, hkind]
        rw [if_pos rfl, if_pos hyes, if_pos rfl, List.map_cons]
      | false =>
        have hno : r.isEnded .session = false := by
          simp only [ReportRow.isDue, Bool.and_eq_false_iff, Bool.or_eq_false_iff] at hdue
          rw [ReportRow.isEnded, Bool.and_eq_false_iff]
          exact hdue.imp_right fun h => h.1.1
        rw [if_neg Bool.false_ne_true, if_neg (by simp [hno]), if_neg Bool.false_ne_true]
  rw [hended, dueSessions, List.map_mergeSort]
  exact fun _ _ _ _ => rfl

/-- Sessions that are removed need not have been ended before. -/
theorem endingDue_without (s : Store) (settings : Settings) (request : CollectRequest) :
    (s.endingDue settings request).without ((s.dueSessions settings request).map (·.id)) =
      s.without ((s.dueSessions settings request).map (·.id)) := by
  have hreports : (s.endingDue settings request).reports.remove
        (fun r => ((s.dueSessions settings request).map (·.id)).contains r.id) =
      s.reports.remove fun r => ((s.dueSessions settings request).map (·.id)).contains r.id := by
    unfold endingDue Table.remove
    congr 1
    refine Table.filter_update fun r hr hdue => ?_
    have hmem : ((s.dueSessions settings request).map (·.id)).contains r.id = true :=
      List.contains_iff_mem.2 (List.mem_map_of_mem (mem_dueSessions.2 ⟨hr, hdue⟩))
    exact ⟨congrArg not hmem, congrArg not hmem⟩
  unfold without
  rw [hreports]
  rfl

end Store

/-! ### Headers -/

/-- The two reports are on the same accumulator and window. -/
structure MetricReport.SameHeader (m m' : MetricReport) : Prop where
  startMs : m'.startMs = m.startMs
  endMs : m'.endMs = m.endMs
  kind : m'.kind = m.kind
  name : m'.name = m.name
  softwareVersion : m'.softwareVersion = m.softwareVersion

namespace MetricReport

variable {m m' m'' : MetricReport}

theorem SameHeader.refl (m : MetricReport) : m.SameHeader m := ⟨rfl, rfl, rfl, rfl, rfl⟩

theorem SameHeader.trans (h : m.SameHeader m') (h' : m'.SameHeader m'') : m.SameHeader m'' :=
  ⟨h'.startMs.trans h.startMs, h'.endMs.trans h.endMs, h'.kind.trans h.kind, h'.name.trans h.name,
    h'.softwareVersion.trans h.softwareVersion⟩

theorem sameHeader_insertAll (m : MetricReport) (internal : Bool) (entries : List (String × Json)) :
    m.SameHeader (m.insertAll internal entries) := by
  cases internal <;> exact ⟨rfl, rfl, rfl, rfl, rfl⟩

theorem summarize_sameHeader {paging : PagingSettings} {w : Window} (groups : List MetricGroup) :
    ∀ {m m' : MetricReport} {s s' : Store}, Yields (m.summarize paging w groups) s m' s' →
      m.SameHeader m' := by
  induction groups with
  | nil =>
    intro m m' s s' h
    obtain ⟨rfl, -⟩ := yields_pure.1 h
    exact .refl m
  | cons g groups ih =>
    intro m m' s s' h
    obtain ⟨entries, s₁, -, h⟩ := yields_bind.1 h
    exact (m.sameHeader_insertAll _ _).trans (ih h)

end MetricReport

theorem Collecting.derive_sameHeader {request : CollectRequest} {m m' : MetricReport}
    {derived : List DerivedMetric} {p p' : Progress}
    (h : Yields (derive request m) p (m', derived) p') : m.SameHeader m' := by
  unfold Yields outcome derive at h
  split at h <;> cases h
  · exact .refl m
  · exact ⟨rfl, rfl, rfl, rfl, rfl⟩

/-! ### The session stage -/

/-- The report is one on this session, up to its end or else up to now. -/
structure MetricReport.IsOn (now : Int) (r : ReportRow) (m : MetricReport) : Prop where
  kind : m.kind = .session
  name : m.name = r.name
  startMs : m.startMs = r.startMs
  endMs : m.endMs = r.endMs.getD now
  softwareVersion : m.softwareVersion = r.softwareVersion

namespace Collecting

variable {settings : Settings} {request : CollectRequest} {accumulator : Option ReportRow}
  {p p' : Progress}

theorem session_cases {r : ReportRow} {m : MetricReport} (hs : p.store.Undamaged)
    (h : Yields (session settings request accumulator r) p m p') :
    m.IsOn request.nowMs r ∧ (p.store.without [r.id]).SeenAs p'.store := by
  obtain ⟨groups, p₁, hgroups, h⟩ := yields_bind.1 h
  obtain ⟨summary, p₂, hsummary, h⟩ := yields_bind.1 h
  obtain ⟨⟨m', derived⟩, p₃, hderive, h⟩ := yields_bind.1 h
  obtain ⟨u, p₄, hrun, h⟩ := yields_bind.1 h
  obtain ⟨rfl, rfl⟩ := yields_pure.1 h
  obtain ⟨s, hdelete, rfl⟩ := yields_run.1 hrun
  have hseen := ((looksOn_sessionGroups _ _ _ _ _ _ hgroups).trans
    (looksOn_summarize _ _ _ _ _ _ _ _ _ hsummary)).trans (looksOn_derive _ _ _ _ _ hderive)
  obtain rfl := Store.deleteReport_without (hseen.undamaged hs)
    (Transaction.yields_change.1 hdelete)
  obtain ⟨s₁, hsummarize, -⟩ := yields_run.1 hsummary
  have hheader := (MetricReport.summarize_sameHeader _ hsummarize).trans (derive_sameHeader hderive)
  exact ⟨⟨hheader.kind, hheader.name, hheader.startMs, hheader.endMs, hheader.softwareVersion⟩,
    Store.without_seenAs hseen _⟩

theorem sessionReports_cases (rs : List ReportRow) :
    ∀ {p p' : Progress} {reports : List MetricReport}, p.store.Undamaged →
      Yields (sessionReports settings request accumulator rs) p reports p' →
      List.Forall₂ (MetricReport.IsOn request.nowMs) rs reports ∧
        (p.store.without (rs.map (·.id))).SeenAs p'.store := by
  induction rs with
  | nil =>
    intro p p' reports _ h
    obtain ⟨rfl, rfl⟩ := yields_pure.1 h
    exact ⟨.nil, by simpa using Store.SeenAs.refl p.store⟩
  | cons r rs ih =>
    intro p p' reports hs h
    obtain ⟨m, p₁, hsession, h⟩ := yields_bind.1 h
    obtain ⟨rest, p₂, hrest, h⟩ := yields_bind.1 h
    obtain ⟨rfl, rfl⟩ := yields_pure.1 h
    obtain ⟨hon, hseen⟩ := session_cases hs hsession
    obtain ⟨hall, hseen'⟩ := ih (hseen.undamaged hs) hrest
    refine ⟨.cons hon hall, ?_⟩
    have hboth := (Store.without_seenAs hseen (rs.map (·.id))).trans hseen'
    rwa [Store.without_append, List.singleton_append, ← List.map_cons] at hboth

/-- Ends the sessions that are due. -/
def endDue (settings : Settings) (request : CollectRequest) : Collecting Unit := do
  if request.endSessions then run (Transaction.change (·.endSessions request.nowMs))
  run (Transaction.change (·.expireSessions request.nowMs settings.retention.sessionExpiry))

/-- The accumulator whose metrics the sessions take in, if any are asked for. -/
def dailyAccumulator (request : CollectRequest) : Collecting (Option ReportRow) :=
  if request.sessionDailyMetrics.isEmpty then pure none else ask (·.openReport? .daily none)

theorem sessions_eq (settings : Settings) (request : CollectRequest) :
    sessions settings request = (do
      endDue settings request
      let accumulator ← dailyAccumulator request
      let ended ← ask (·.endedReports .session)
      sessionReports settings request accumulator ended) := by
  unfold sessions endDue dailyAccumulator
  cases request.endSessions <;> cases request.sessionDailyMetrics.isEmpty <;>
    simp [bind_assoc]

theorem endDue_store {u : Unit} (hs : p.store.Undamaged)
    (h : Yields (endDue settings request) p u p') :
    p'.store = p.store.endingDue settings request := by
  unfold endDue at h
  split at h
  · next hall =>
    obtain ⟨v, p₁, hrun, h⟩ := yields_bind.1 h
    obtain ⟨s₁, hend, rfl⟩ := yields_run.1 hrun
    obtain ⟨s₂, hexpire, rfl⟩ := yields_run.1 h
    have hselect : ∀ r ∈ p.store.reports.rows,
        r.isOpenSession = (r.isDue settings request && r.endMs.isNone) := by
      intro r _
      simp [ReportRow.isOpenSession, ReportRow.isDue, hall]
    obtain rfl : s₁ = p.store.endingDue settings request := by
      rw [← Store.update_eq_endingDue hselect]
      have hend := Store.endSelected_eq_ok hs (Transaction.yields_change.1 hend)
      rwa [Store.testReport_eq hs] at hend
    have hexpire := Store.endSelected_eq_ok (by exact hs) (Transaction.yields_change.1 hexpire)
    rw [Store.testReport_eq (by exact hs)] at hexpire
    -- once all sessions have ended, none is too old
    rw [Table.update_none] at hexpire
    · exact hexpire
    · intro r hr
      obtain ⟨a, -, rfl⟩ := List.mem_map.1 hr
      cases hkind : a.kind == .session <;>
        simp [ReportRow.isDue, ReportRow.isOpenSession, ReportRow.endedBy, hkind, hall]
  · next hsome =>
    obtain ⟨s, hexpire, rfl⟩ := yields_run.1 h
    obtain rfl := Store.endSelected_eq_ok hs (Transaction.yields_change.1 hexpire)
    rw [Store.testReport_eq hs]
    refine Store.update_eq_endingDue fun r _ => ?_
    cases hend : r.endMs <;>
      simp [ReportRow.isOpenSession, ReportRow.isDue, hend, hsome]

/-- The session stage reports on the sessions that are due and leaves the store without them. -/
theorem sessions_cases {reports : List MetricReport} (hs : p.store.Undamaged)
    (h : Yields (sessions settings request) p reports p') :
    List.Forall₂ (MetricReport.IsOn request.nowMs) (p.store.dueSessions settings request) reports ∧
      (p.store.without ((p.store.dueSessions settings request).map (·.id))).SeenAs p'.store := by
  rw [sessions_eq] at h
  obtain ⟨u, p₁, hend, h⟩ := yields_bind.1 h
  obtain ⟨accumulator, p₂, haccumulator, h⟩ := yields_bind.1 h
  obtain ⟨ended, p₃, hask, h⟩ := yields_bind.1 h
  obtain ⟨hended, rfl⟩ := yields_ask.1 hask
  have hstore := endDue_store hs hend
  obtain rfl : p₁ = p₂ := by
    unfold dailyAccumulator at haccumulator
    split at haccumulator
    · exact (yields_pure.1 haccumulator).2
    · exact (yields_ask.1 haccumulator).2
  have hs₁ : p₁.store.Undamaged := by
    rw [hstore]
    exact hs
  rw [Store.endedReports_eq hs₁, Except.ok.injEq, hstore, Store.ended_endingDue] at hended
  subst hended
  obtain ⟨hon, hseen⟩ := sessionReports_cases _ hs₁ h
  rw [List.map_map, hstore, show (ReportRow.id ∘ fun r : ReportRow => r.endedBy request.nowMs) =
    ReportRow.id from rfl, Store.endingDue_without] at hseen
  refine ⟨(List.forall₂_map_left_iff.1 hon).imp fun r m hm => ?_, hseen⟩
  exact ⟨hm.kind, hm.name, hm.startMs, hm.endMs, hm.softwareVersion⟩

end Collecting

end Telemetry
