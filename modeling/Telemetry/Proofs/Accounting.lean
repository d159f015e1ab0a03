import Mathlib.Data.List.Nodup
import Telemetry.Proofs.Sampling
import Telemetry.Proofs.Sessions

/-!
# What becomes of sessions

A session stays in the store until a collection takes it out: with a report on it where it is due,
and without one where it has no values and is older than empty reports may become.  So over a whole
run every session is accounted for once, stored or taken out; and where empty reports are kept for at
least as long as sessions stay open, none is taken out without a report.
-/

namespace Telemetry

/-- The report as it was when it began. -/
def ReportRow.begun (r : ReportRow) : ReportRow := { r with endMs := none }

namespace Store

/-- The sessions that are stored, as they were when they began. -/
def begunSessions (s : Store) : List ReportRow :=
  (s.reports.rows.filter (·.kind == .session)).map ReportRow.begun

variable {s s' s'' : Store} {t : Int}

theorem mem_begunSessions {r : ReportRow} :
    r ∈ s.begunSessions ↔ ∃ x ∈ s.reports.rows, x.kind = .session ∧ x.begun = r := by
  simp [begunSessions, and_assoc]

theorem Consistent.begunSessions_ids (hs : s.Consistent) :
    (s.begunSessions.map (·.id)).Nodup := by
  have hids : s.begunSessions.map (·.id) =
      (s.reports.rows.filter (·.kind == .session)).map (·.id) := by
    rw [begunSessions, List.map_map]
    rfl
  rw [hids]
  exact List.pairwise_map.2 ((hs.reportsNumbered.increasing.filter _).imp fun hlt => ne_of_lt hlt)

/-! ### Ids are given out once -/

theorem Step.lastId_le {scope : Scope} (h : Step scope s s') (hs : s.Consistent) :
    s.reports.lastId ≤ s'.reports.lastId := by
  cases h with
  | start t version _ _ _ =>
    change s.reports.lastId ≤ s.reports.nextId
    rw [hs.reportsNumbered.nextId_eq]
    omega
  | keep | finish | newMetric | setMetric | addValue | skipValue | removeValues | removeMetrics
    | removeReports => exact le_rfl

theorem Steps.lastId_le {scope : Scope} (h : Steps scope s s') (hs : s.Consistent) :
    s.reports.lastId ≤ s'.reports.lastId := by
  induction h with
  | refl => exact le_rfl
  | tail hsteps hstep ih => exact ih.trans (hstep.lastId_le (Steps.consistent hsteps hs))

/-! ### Calls other than collections -/

/-- At most one report is started, at a time if there is one, or a session ended, and none is taken
out. -/
inductive ReportsMoved (time : Option Int) (s s' : Store) : Prop
  | same (h : s'.reports = s.reports)
  | started {t : Int} {kind : ReportKind} {name version : Option String} (ht : t ∈ time)
      (h : s'.reports = s.reports.append fun id => ⟨id, kind, name, t, none, version⟩)
  | ended {t : Int} {selected : ReportRow → Bool}
      (hselected : ∀ r ∈ s.reports.rows, selected r = true → r.kind = .session)
      (h : s'.reports = s.reports.update selected fun r => { r with endMs := some t })

namespace ReportsMoved

variable {time : Option Int}

theorem of_reports_eq (h : s.ReportsMoved time s') (heq : s''.reports = s'.reports) :
    s.ReportsMoved time s'' := by
  cases h with
  | same h => exact .same (heq.trans h)
  | started ht h => exact .started ht (heq.trans h)
  | ended hselected h => exact .ended hselected (heq.trans h)

/-- The sessions stay, and another one has an id of its own and begins at the time. -/
theorem mem_begunSessions_or (h : s.ReportsMoved time s') (hs : s.Consistent) :
    (∀ r ∈ s.begunSessions, r ∈ s'.begunSessions) ∧
      ∀ r ∈ s'.begunSessions, r ∈ s.begunSessions ∨
        s.reports.lastId < r.id ∧ r.startMs ∈ time := by
  cases h with
  | same h =>
    have hsame : s'.begunSessions = s.begunSessions := by rw [begunSessions, h, begunSessions]
    rw [hsame]
    exact ⟨fun r hr => hr, fun r hr => .inl hr⟩
  | @started t _ _ _ ht h =>
    rw [begunSessions, begunSessions, h]
    simp only [Table.append, List.filter_append, List.map_append, List.mem_append]
    refine ⟨fun r hr => .inl hr, fun r hr => hr.imp_right fun hr => ?_⟩
    obtain ⟨x, hx, rfl⟩ := List.mem_map.1 hr
    obtain rfl := List.mem_singleton.1 (List.mem_filter.1 hx).1
    refine ⟨?_, ht⟩
    change s.reports.lastId < s.reports.nextId
    rw [hs.reportsNumbered.nextId_eq]
    omega
  | @ended t selected _ h =>
    -- an end is not part of how a session began
    have hsame : s'.begunSessions = s.begunSessions := by
      rw [begunSessions, h, begunSessions, Table.update, List.filter_map, List.map_map]
      have hkind : ((fun r : ReportRow => r.kind == .session) ∘ fun r =>
          if selected r then { r with endMs := some t } else r) =
            fun r => r.kind == .session := by
        funext r
        rw [Function.comp_apply]
        split <;> rfl
      have hbegun : (ReportRow.begun ∘ fun r =>
          if selected r then { r with endMs := some t } else r) = ReportRow.begun := by
        funext r
        rw [Function.comp_apply]
        split <;> rfl
      rw [hkind, hbegun]
    rw [hsame]
    exact ⟨fun r hr => hr, fun r hr => .inl hr⟩

end ReportsMoved

end Store

namespace Transaction

variable {s s' : Store}

theorem openOrStart_moves (hs : s.Undamaged) {kind : ReportKind} {name : Option String} {t id : Int}
    {version : Option String} (h : Yields (openOrStart kind name t version) s id s') :
    s.ReportsMoved (some t) s' := by
  rcases Store.openOrStart_eq_ok hs (yields_update.1 h) with ⟨-, -, -, rfl⟩ | ⟨-, -, rfl⟩
  · exact .same rfl
  · exact .started rfl rfl

theorem take_moves (hs : s.Consistent) {version : Option String} {sample : MetricSample}
    (hsample : sample.validate = .ok ()) {result : Option Int}
    (h : Yields (take version sample) s result s') : s.ReportsMoved (some sample.timeMs) s' := by
  obtain ⟨hname, hadmits⟩ := of_validate hsample
  obtain ⟨id, s₁, s₂, hstart, hrecord, hreports, -⟩ := take_cases hs hsample h
  obtain ⟨hsteps, r, hr, -, rfl⟩ := openOrStart_steps .everything hs hadmits trivial hstart
  obtain ⟨-, hreports'⟩ :=
    record_steps .everything (hsteps.consistent hs) ⟨r, hr, rfl⟩ trivial hname hrecord
  exact (openOrStart_moves hs.undamaged hstart).of_reports_eq (hreports.trans hreports')

theorem startSession_moves (hs : s.Undamaged) {version : Option String} {name : String} {t : Int}
    {u : Unit} (h : Yields (startSession version name t) s u s') : s.ReportsMoved (some t) s' := by
  obtain ⟨id, s₁, hstart, h⟩ := yields_bind.1 h
  obtain ⟨-, rfl⟩ := yields_pure.1 h
  exact openOrStart_moves hs hstart

theorem startSeeded_moves (hs : s.Consistent) {version : Option String} {name : String} {t : Int}
    {keys : List String} (hname : ReportKind.session.Admits (some name)) {u : Unit}
    (h : Yields (startSeeded version name t keys) s u s') : s.ReportsMoved (some t) s' := by
  rcases startSeeded_cases hs.undamaged h with rfl | ⟨-, id, s₁, hstart, hseed⟩
  · exact .same rfl
  have hmoved := openOrStart_moves hs.undamaged hstart
  rcases hseed with rfl | ⟨source, hseed⟩
  · exact hmoved
  · obtain ⟨hsteps, r, hr, -, rfl⟩ := openOrStart_steps .everything hs hname trivial hstart
    exact hmoved.of_reports_eq
      (seed_steps .everything trivial keys (hsteps.consistent hs) ⟨r, hr, rfl⟩ hseed).2

theorem endSession_moves (hs : s.Consistent) {name : String} {t : Int} {u : Unit}
    (h : Yields (endSession name t) s u s') : s.ReportsMoved (some t) s' := by
  rcases Store.endOpen_eq_ok hs.undamaged (yields_change.1 h) with ⟨-, rfl⟩ | ⟨r, hr, rfl⟩
  · exact .same rfl
  · refine .ended (fun x hx hid => ?_) rfl
    obtain ⟨hmem, hkind, -⟩ := Collecting.of_find_open hr
    rw [hs.report_eq hx hmem (beq_iff_eq.1 hid), hkind]

end Transaction

/-- The time that a call is given. -/
def Call.timeMs? : Call → Option Int
  | .add sample => some sample.timeMs
  | .startSession _ t => some t
  | .startSeeded _ t _ => some t
  | .endSession _ t => some t
  | .collect request _ _ => some request.nowMs
  | .reopen .. => none

namespace Engine

variable {e : Engine}

theorem transactIf_moves {α : Type} (hs : e.store.Consistent) {condition : Except Failure Unit}
    {t : Transaction α} {time : Option Int}
    (ht : ∀ a s, condition = .ok () → Yields t e.store a s → e.store.ReportsMoved time s) :
    e.store.ReportsMoved time (e.transactIf condition t).2.store := by
  rcases transactIf_cases hs.undamaged condition t with
    ⟨a, s, -, hcondition, hyields, heq⟩ | ⟨err, s, -, hseen, heq⟩
  · rw [heq]
    exact (ht a s hcondition hyields).of_reports_eq rfl
  · rw [heq]
    obtain ⟨kept, rfl⟩ := hseen
    exact .same rfl

theorem call_moves (hs : e.store.Consistent) {c : Call} (hc : c.isCollect = false) :
    e.store.ReportsMoved c.timeMs? (e.call c).2.store := by
  cases c with
  | add sample => exact transactIf_moves hs fun a s hsample h => Transaction.take_moves hs hsample h
  | startSession name t =>
    exact transactIf_moves hs fun a s _ h => Transaction.startSession_moves hs.undamaged h
  | startSeeded name t keys =>
    exact transactIf_moves hs fun a s hname h =>
      Transaction.startSeeded_moves hs (isSessionName_of_validate hname) h
  | endSession name t =>
    exact transactIf_moves hs fun a s _ h => Transaction.endSession_moves hs h
  | reopen settings version =>
    obtain ⟨kept, heq⟩ := reopen_seenAs hs.undamaged settings version
    have hreports : (e.reopen settings version).2.store.reports = e.store.reports := by rw [heq]
    exact .same hreports
  | collect request exportName files => cases hc

end Engine

/-! ### Departures -/

/-- A session that a collection takes out of a store. -/
structure Departure where
  session : ReportRow
  /-- The values that it held. -/
  content : List (MetricRow × List ValueRow)
  /-- The report on it, if there is one. -/
  report : Option MetricReport
  nowMs : Int
  /-- The settings under which it is taken out. -/
  settings : Settings

namespace Store

/-- The sessions that are not due and yet gone afterwards. -/
def sweptSessions (before after : Store) (settings : Settings) (request : CollectRequest) :
    List ReportRow :=
  before.reports.rows.filter fun r =>
    r.kind == .session && !r.isDue settings request && !after.reports.rows.contains r

/-- The sessions that a collection takes out, those with a report first. -/
def departures (before after : Store) (settings : Settings) (request : CollectRequest)
    (reports : List MetricReport) : List Departure :=
  List.zipWith (fun r m => ⟨r, before.contentOf r.id, some m, request.nowMs, settings⟩)
      (before.dueSessions settings request) reports ++
    (before.sweptSessions after settings request).map fun r =>
      ⟨r, before.contentOf r.id, none, request.nowMs, settings⟩

variable {before after : Store} {settings : Settings} {request : CollectRequest}
  {reports : List MetricReport}

theorem mem_sweptSessions {r : ReportRow} :
    r ∈ before.sweptSessions after settings request ↔ r ∈ before.reports.rows ∧
      r.kind = .session ∧ r ∉ before.dueSessions settings request ∧ r ∉ after.reports.rows := by
  rw [sweptSessions, List.mem_filter, mem_dueSessions]
  simp only [Bool.and_eq_true, Bool.not_eq_true', beq_iff_eq, List.contains_eq_mem,
    ← Bool.not_eq_true, decide_eq_true_eq, and_assoc]
  refine and_congr_right fun hr => and_congr_right fun _ => and_congr_left fun _ => ?_
  rw [and_iff_right hr]

/-- What is reported on is taken out with its report, in order. -/
theorem unzip_reported {now : Int} {rs : List ReportRow} {ms : List MetricReport}
    (hon : List.Forall₂ (MetricReport.IsOn now) rs ms) :
    (List.zipWith (fun r m => (⟨r, before.contentOf r.id, some m, now, settings⟩ : Departure)) rs
        ms).map (·.session) = rs ∧
      (List.zipWith (fun r m => (⟨r, before.contentOf r.id, some m, now, settings⟩ : Departure)) rs
        ms).filterMap (·.report) = ms := by
  induction hon with
  | nil => exact ⟨rfl, rfl⟩
  | cons _ _ ih =>
    rw [List.zipWith_cons_cons, List.map_cons, List.filterMap_cons]
    exact ⟨congrArg _ ih.1, congrArg _ ih.2⟩

namespace SessionsSettled

variable (h : SessionsSettled settings request before after reports)
include h

theorem departures_sessions :
    (before.departures after settings request reports).map (·.session) =
      before.dueSessions settings request ++ before.sweptSessions after settings request := by
  rw [departures, List.map_append, (unzip_reported h.reported).1, List.map_map]
  congr 1
  exact List.map_id _

theorem departures_reports :
    (before.departures after settings request reports).filterMap (·.report) = reports := by
  have hnone : (before.sweptSessions after settings request).filterMap
      ((·.report) ∘ fun r =>
        (⟨r, before.contentOf r.id, none, request.nowMs, settings⟩ : Departure)) = [] :=
    List.filterMap_eq_nil_iff.2 fun _ _ => rfl
  rw [departures, List.filterMap_append, (unzip_reported h.reported).2, List.filterMap_map, hnone,
    List.append_nil]

theorem departure_cases {d : Departure}
    (hd : d ∈ before.departures after settings request reports) :
    d.content = before.contentOf d.session.id ∧ d.nowMs = request.nowMs ∧ d.settings = settings ∧
      ((∃ m, d.report = some m ∧ m.IsOn request.nowMs d.session) ∨
        d.report = none ∧ d.session ∈ before.sweptSessions after settings request) := by
  rcases List.mem_append.1 hd with hd | hd
  · obtain ⟨i, hi, rfl⟩ := List.mem_iff_getElem.1 hd
    rw [List.length_zipWith] at hi
    rw [List.getElem_zipWith]
    exact ⟨rfl, rfl, rfl, .inl ⟨_, rfl, List.forall₂_iff_get.1 h.reported |>.2 i (by omega) (by omega)⟩⟩
  · obtain ⟨r, hr, rfl⟩ := List.mem_map.1 hd
    exact ⟨rfl, rfl, rfl, .inr ⟨rfl, hr⟩⟩

end SessionsSettled

end Store

namespace Engine

def departures (e : Engine) : Call → List Departure
  | .collect request exportName files =>
    match (e.collect request exportName files).result with
    | .ok report =>
      e.store.departures (e.collect request exportName files).engine.store e.settings request
        report.sessions
    | .error _ => []
  | _ => []

def departuresIn : Engine → List Call → List Departure := gather departures

end Engine

/-! ### The account -/

namespace Store

/-- Every session is stored or gone, and no more than once; those that are new begin at a time in
question and have ids of their own. -/
structure Accounted (starts : Int → Prop) (before after : Store) (gone : List ReportRow) : Prop where
  kept : ∀ r ∈ before.begunSessions, r ∈ after.begunSessions ++ gone
  once : ((after.begunSessions ++ gone).map (·.id)).Nodup
  known : ∀ r ∈ after.begunSessions ++ gone,
    r ∈ before.begunSessions ∨ before.reports.lastId < r.id ∧ starts r.startMs
  given : ∀ r ∈ after.begunSessions ++ gone, r.id ≤ after.reports.lastId
  lastId_le : before.reports.lastId ≤ after.reports.lastId

variable {starts : Int → Prop} {s s' s'' : Store} {gone gone' : List ReportRow}

theorem Consistent.begunSessions_given (hs : s.Consistent) :
    ∀ r ∈ s.begunSessions, r.id ≤ s.reports.lastId := by
  intro r hr
  obtain ⟨x, hx, -, rfl⟩ := mem_begunSessions.1 hr
  exact hs.reportsNumbered.given x hx

theorem Consistent.accounted_self (hs : s.Consistent) : s.Accounted starts s [] := by
  refine ⟨?_, ?_, ?_, ?_, le_rfl⟩
  · exact fun r hr => by simpa using hr
  · simpa using hs.begunSessions_ids
  · exact fun r hr => .inl (by simpa using hr)
  · exact fun r hr => hs.begunSessions_given r (by simpa using hr)

theorem Accounted.mono {starts' : Int → Prop} (h : s.Accounted starts s' gone)
    (hstarts : ∀ t, starts t → starts' t) : s.Accounted starts' s' gone :=
  { h with known := fun r hr => (h.known r hr).imp_right fun hnew => ⟨hnew.1, hstarts _ hnew.2⟩ }

/-- What was gone stays gone, as an id is not given out again. -/
theorem Accounted.trans (h : s.Accounted starts s' gone) (h' : s'.Accounted starts s'' gone') :
    s.Accounted starts s'' (gone ++ gone') := by
  have hperm : (s''.begunSessions ++ (gone ++ gone')).Perm
      (gone ++ (s''.begunSessions ++ gone')) := by
    rw [← List.append_assoc, ← List.append_assoc]
    exact List.perm_append_comm.append_right gone'
  -- what comes later was there before, and not gone, or is new
  have hids : (gone.map (·.id)).Disjoint ((s''.begunSessions ++ gone').map (·.id)) := by
    intro id hgone hlater
    obtain ⟨x, hx, rfl⟩ := List.mem_map.1 hgone
    obtain ⟨y, hy, hid⟩ := List.mem_map.1 hlater
    rcases h'.known y hy with hstored | ⟨hnew, -⟩
    · have hboth := h.once
      rw [List.map_append, List.nodup_append'] at hboth
      exact hboth.2.2 (hid ▸ List.mem_map_of_mem hstored) hgone
    · exact absurd (h.given x (List.mem_append_right _ hx)) (not_le.2 (hid ▸ hnew))
  have honce : (gone.map (·.id)).Nodup := by
    have hboth := h.once
    rw [List.map_append, List.nodup_append'] at hboth
    exact hboth.2.1
  refine ⟨?_, ?_, ?_, ?_, h.lastId_le.trans h'.lastId_le⟩
  · intro r hr
    refine hperm.mem_iff.2 (List.mem_append.2 ?_)
    exact (List.mem_append.1 (h.kept r hr)).symm.imp_right (h'.kept r)
  · rw [(hperm.map _).nodup_iff, List.map_append, List.nodup_append']
    exact ⟨honce, h'.once, hids⟩
  · intro r hr
    rcases List.mem_append.1 (hperm.mem_iff.1 hr) with hr | hr
    · exact h.known r (List.mem_append_right _ hr)
    · rcases h'.known r hr with hr | ⟨hnew, hstart⟩
      · exact h.known r (List.mem_append_left _ hr)
      · exact .inr ⟨h.lastId_le.trans_lt hnew, hstart⟩
  · intro r hr
    rcases List.mem_append.1 (hperm.mem_iff.1 hr) with hr | hr
    · exact (h.given r (List.mem_append_right _ hr)).trans h'.lastId_le
    · exact h'.given r hr

theorem ReportsMoved.accounted {time : Option Int} (h : s.ReportsMoved time s')
    (hs : s.Consistent) (hs' : s'.Consistent) (hle : s.reports.lastId ≤ s'.reports.lastId) :
    s.Accounted (· ∈ time) s' [] := by
  obtain ⟨hkept, hknown⟩ := h.mem_begunSessions_or hs
  refine ⟨?_, ?_, ?_, ?_, hle⟩
  · exact fun r hr => by simpa using hkept r hr
  · simpa using hs'.begunSessions_ids
  · exact fun r hr => hknown r (by simpa using hr)
  · exact fun r hr => hs'.begunSessions_given r (by simpa using hr)

namespace SessionsSettled

variable {settings : Settings} {request : CollectRequest} {reports : List MetricReport}
  (h : SessionsSettled settings request s s' reports)
include h

/-- The rows that go were sessions, and none that is left has the id of one. -/
theorem gone_rows (hs : s.Consistent) {r : ReportRow}
    (hr : r ∈ s.dueSessions settings request ++ s.sweptSessions s' settings request) :
    r ∈ s.reports.rows ∧ r.kind = .session ∧ ∀ x ∈ s'.begunSessions, x.id ≠ r.id := by
  rcases List.mem_append.1 hr with hr | hr
  · obtain ⟨hmem, hdue⟩ := mem_dueSessions.1 hr
    refine ⟨hmem, of_isDue hdue, fun x hx => ?_⟩
    obtain ⟨y, hy, -, rfl⟩ := mem_begunSessions.1 hx
    exact (h.gone r hr).report y hy
  · obtain ⟨hmem, hkind, -, hnot⟩ := mem_sweptSessions.1 hr
    refine ⟨hmem, hkind, fun x hx hid => ?_⟩
    obtain ⟨y, hy, hykind, rfl⟩ := mem_begunSessions.1 hx
    obtain rfl := hs.report_eq (h.known y hy hykind) hmem hid
    exact hnot hy

/-- No row goes twice. -/
theorem gone_nodup (hs : s.Consistent) :
    ((s.dueSessions settings request ++ s.sweptSessions s' settings request).map
      (·.id)).Nodup := by
  refine List.Nodup.map_on (fun x hx y hy hid => ?_) (List.nodup_append'.2 ⟨?_, ?_, ?_⟩)
  · exact hs.report_eq (h.gone_rows hs hx).1 (h.gone_rows hs hy).1 hid
  · exact h.sorted.imp fun hlt heq => by subst heq; omega
  · exact (hs.reportsNumbered.increasing.filter _).imp fun hlt heq => by
      subst heq
      exact lt_irrefl _ hlt
  · exact fun r hdue hswept => (mem_sweptSessions.1 hswept).2.2.1 hdue

/-- A collection takes out the sessions that are due and those that it sweeps away. -/
theorem accounted (hs : s.Consistent) (hs' : s'.Consistent)
    (hle : s.reports.lastId ≤ s'.reports.lastId) :
    s.Accounted (fun _ => False) s'
      ((s.departures s' settings request reports).map (·.session.begun)) := by
  have hgone : (s.departures s' settings request reports).map (·.session.begun) =
      (s.dueSessions settings request ++ s.sweptSessions s' settings request).map
        ReportRow.begun := by
    rw [← h.departures_sessions, List.map_map]
    rfl
  rw [hgone]
  refine ⟨?_, ?_, ?_, ?_, hle⟩
  · intro r hr
    obtain ⟨x, hx, hkind, rfl⟩ := mem_begunSessions.1 hr
    rw [List.mem_append]
    by_cases hdue : x ∈ s.dueSessions settings request
    · exact .inr (List.mem_map_of_mem (List.mem_append_left _ hdue))
    by_cases hstays : x ∈ s'.reports.rows
    · exact .inl (mem_begunSessions.2 ⟨x, hstays, hkind, rfl⟩)
    · exact .inr (List.mem_map_of_mem (List.mem_append_right _
        (mem_sweptSessions.2 ⟨hx, hkind, hdue, hstays⟩)))
  · rw [List.map_append, List.map_map, List.nodup_append']
    refine ⟨hs'.begunSessions_ids, h.gone_nodup hs, fun id hstored hgone => ?_⟩
    obtain ⟨x, hx, rfl⟩ := List.mem_map.1 hstored
    obtain ⟨r, hr, hid⟩ := List.mem_map.1 hgone
    exact (h.gone_rows hs hr).2.2 x hx hid.symm
  · intro r hr
    refine .inl ?_
    rcases List.mem_append.1 hr with hr | hr
    · obtain ⟨x, hx, hkind, rfl⟩ := mem_begunSessions.1 hr
      exact mem_begunSessions.2 ⟨x, h.known x hx hkind, hkind, rfl⟩
    · obtain ⟨x, hx, rfl⟩ := List.mem_map.1 hr
      exact mem_begunSessions.2 ⟨x, (h.gone_rows hs hx).1, (h.gone_rows hs hx).2.1, rfl⟩
  · intro r hr
    rcases List.mem_append.1 hr with hr | hr
    · exact hs'.begunSessions_given r hr
    · obtain ⟨x, hx, rfl⟩ := List.mem_map.1 hr
      exact (hs.reportsNumbered.given x (h.gone_rows hs hx).1).trans hle

end SessionsSettled

end Store

/-! ### Runs -/

def sessionReports : Call × Reply → List MetricReport
  | (.collect .., .collected (.ok report)) => report.sessions
  | _ => []

namespace Engine

variable {e : Engine}

/-- Sessions are taken out by collections that succeed only. -/
theorem of_mem_departures {c : Call} {d : Departure} (hd : d ∈ e.departures c) :
    ∃ request exportName files report, c = .collect request exportName files ∧
      (e.collect request exportName files).result = .ok report ∧
      d ∈ e.store.departures (e.collect request exportName files).engine.store e.settings request
        report.sessions := by
  cases c with
  | add | startSession | startSeeded | endSession | reopen => cases hd
  | collect request exportName files =>
    cases hresult : (e.collect request exportName files).result with
    | error err => simp [departures, hresult] at hd
    | ok report =>
      simp only [departures, hresult] at hd
      exact ⟨request, exportName, files, report, rfl, hresult, hd⟩

theorem departures_reports (hs : e.store.Consistent) (c : Call) :
    (e.departures c).filterMap (·.report) = sessionReports (c, (e.call c).1) := by
  cases c with
  | add | startSession | startSeeded | endSession | reopen => rfl
  | collect request exportName files =>
    change _ = sessionReports (_, .collected (e.collect request exportName files).result)
    cases hresult : (e.collect request exportName files).result with
    | error err => simp [departures, hresult, sessionReports]
    | ok report =>
      simp only [departures, hresult, sessionReports]
      exact (collect_settled hs hresult).departures_reports

theorem call_accounted (hs : e.store.Consistent) (c : Call) :
    e.store.Accounted (· ∈ c.timeMs?) (e.call c).2.store
      ((e.departures c).map (·.session.begun)) := by
  have hsteps := call_steps hs c
  have hs' := hsteps.consistent hs
  have hle := hsteps.lastId_le hs
  cases hcollect : c.isCollect with
  | false =>
    have hnone : e.departures c = [] := by
      cases c with
      | collect request exportName files => cases hcollect
      | add | startSession | startSeeded | endSession | reopen => rfl
    rw [hnone]
    exact (call_moves hs hcollect).accounted hs hs' hle
  | true =>
    cases c with
    | add | startSession | startSeeded | endSession | reopen => cases hcollect
    | collect request exportName files =>
    cases hresult : (e.collect request exportName files).result with
    | ok report =>
      simp only [departures, hresult]
      exact ((collect_settled hs hresult).accounted hs hs' hle).mono fun _ => False.elim
    | error err =>
      simp only [departures, hresult]
      obtain ⟨_, _, _, _, _, hok, -⟩ | ⟨_, s, -, ⟨kept, hs₁⟩, heq⟩ :=
        collect_cases hs.undamaged request exportName files
      · rw [hok] at hresult
        cases hresult
      · refine Store.ReportsMoved.accounted (.same ?_) hs hs' hle
        change (e.collect request exportName files).engine.store.reports = _
        rw [heq, hs₁]

theorem run_accounted (calls : List Call) :
    ∀ {e : Engine}, e.store.Consistent →
      e.store.Accounted (fun t => ∃ c ∈ calls, t ∈ c.timeMs?) (e.run calls).store
        ((e.departuresIn calls).map (·.session.begun)) := by
  induction calls with
  | nil => exact fun hs => hs.accounted_self
  | cons c calls ih =>
    intro e hs
    have hrest := ih ((call_steps hs c).consistent hs)
    rw [departuresIn, gather, List.map_append]
    refine ((call_accounted hs c).mono fun t ht => ?_).trans (hrest.mono fun t ht => ?_)
    · exact ⟨c, List.mem_cons_self, ht⟩
    · exact ht.imp fun c' hc' => ⟨List.mem_cons_of_mem c hc'.1, hc'.2⟩

theorem run_reports (calls : List Call) :
    ∀ {e : Engine}, e.store.Consistent →
      (e.departuresIn calls).filterMap (·.report) = (e.trace calls).flatMap sessionReports := by
  induction calls with
  | nil => exact fun _ => rfl
  | cons c calls ih =>
    intro e hs
    change (e.departures c ++ (e.call c).2.departuresIn calls).filterMap (·.report) = _
    rw [List.filterMap_append, departures_reports hs c, ih ((call_steps hs c).consistent hs), trace,
      List.flatMap_cons]

/-- What a run does to its sessions. -/
structure SessionsAccounted (e : Engine) (calls : List Call) : Prop where
  /-- No session is found twice among those that are stored in the end and those that were taken
  out. -/
  once : (((e.run calls).store.begunSessions ++
    (e.departuresIn calls).map (·.session.begun)).map (·.id)).Nodup
  /-- Every session that was stored at any time is found there. -/
  every : ∀ before after, calls = before ++ after → ∀ r ∈ (e.run before).store.begunSessions,
    r ∈ (e.run calls).store.begunSessions ++ (e.departuresIn calls).map (·.session.begun)
  /-- The reports that the collections gave are those on the sessions that were taken out. -/
  reports : (e.departuresIn calls).filterMap (·.report) = (e.trace calls).flatMap sessionReports
  reported : ∀ d ∈ e.departuresIn calls, ∀ m, d.report = some m → m.IsOn d.nowMs d.session
  /-- What was taken out without a report was open and old, and had no values. -/
  swept : ∀ d ∈ e.departuresIn calls, d.report = none → d.session.endMs = none ∧ d.content = [] ∧
    d.session.startMs < d.nowMs - d.settings.retention.orphanReportExpiry
  /-- The settings were those of the beginning or some that the store was opened again under. -/
  settings : ∀ d ∈ e.departuresIn calls, d.settings ∈ e.settings :: calls.filterMap Call.settings?

theorem run_sessionsAccounted (hs : e.store.Consistent) (calls : List Call) :
    e.SessionsAccounted calls := by
  refine ⟨(run_accounted calls hs).once, ?_, run_reports calls hs, ?_, ?_, ?_⟩
  · rintro before after rfl r hr
    have hbefore := run_accounted before hs
    have hafter := run_accounted after (run_consistent before hs)
    rw [run_append, departuresIn, gather_append, List.map_append]
    rcases List.mem_append.1 (hafter.kept r hr) with hr | hr
    · exact List.mem_append_left _ hr
    · exact List.mem_append_right _ (List.mem_append_right _ hr)
  · intro d hd m hm
    obtain ⟨before, c, after, -, hd⟩ := mem_gather calls hd
    obtain ⟨request, exportName, files, report, rfl, hresult, hd⟩ := of_mem_departures hd
    obtain ⟨-, hnow, -, ⟨m', hm', hon⟩ | ⟨hnone, -⟩⟩ :=
      (collect_settled (run_consistent before hs) hresult).departure_cases hd
    · obtain rfl := Option.some.inj (hm'.symm.trans hm)
      rwa [hnow]
    · rw [hnone] at hm
      cases hm
  · intro d hd hnone
    obtain ⟨before, c, after, -, hd⟩ := mem_gather calls hd
    obtain ⟨request, exportName, files, report, rfl, hresult, hd⟩ := of_mem_departures hd
    have hsettled := collect_settled (run_consistent before hs) hresult
    obtain ⟨hcontent, hnow, hsettings, ⟨m, hm, -⟩ | ⟨-, hswept⟩⟩ := hsettled.departure_cases hd
    · rw [hm] at hnone
      cases hnone
    obtain ⟨hr, hkind, hdue, hgone⟩ := Store.mem_sweptSessions.1 hswept
    obtain ⟨hopen, hsame⟩ := hsettled.others _ hr hkind hdue
    obtain ⟨hempty, hold⟩ := not_not.1 (mt (hsettled.stays _ hr hkind hdue).2 hgone)
    refine ⟨hopen, ?_, ?_⟩
    · rw [hcontent, ← hsame, Store.contentOf, hempty]
      rfl
    · rwa [hnow, hsettings]
  · intro d hd
    obtain ⟨before, c, after, hcalls, hd⟩ := mem_gather calls hd
    obtain ⟨request, exportName, files, report, -, hresult, hd⟩ := of_mem_departures hd
    obtain ⟨-, -, hsettings, -⟩ :=
      (collect_settled (run_consistent before hs) hresult).departure_cases hd
    rw [hsettings, hcalls]
    exact run_settings_mem_append before _ hs

/-- Where empty reports are kept for at least as long as sessions stay open, no session is taken out
without a report. -/
theorem departure_reported (hs : e.store.Consistent)
    (hexpiry : e.settings.retention.sessionExpiry ≤ e.settings.retention.orphanReportExpiry)
    (hfit : fitsInt64 e.settings.retention.sessionExpiry = true) {c : Call}
    (hnow : ∀ t ∈ c.timeMs?, fitsInt64 t = true)
    (hstarts : ∀ r ∈ e.store.begunSessions, fitsInt64 r.startMs = true)
    {d : Departure} (hd : d ∈ e.departures c) : d.report ≠ none := by
  obtain ⟨request, exportName, files, report, rfl, hresult, hd⟩ := of_mem_departures hd
  have hsettled := collect_settled hs hresult
  intro hnone
  obtain ⟨-, -, -, ⟨m, hm, -⟩ | ⟨-, hswept⟩⟩ := hsettled.departure_cases hd
  · rw [hm] at hnone
    cases hnone
  obtain ⟨hr, hkind, hdue, hgone⟩ := Store.mem_sweptSessions.1 hswept
  obtain ⟨-, hold⟩ := not_not.1 (mt (hsettled.stays _ hr hkind hdue).2 hgone)
  have hstart : fitsInt64 d.session.startMs = true :=
    hstarts d.session.begun (Store.mem_begunSessions.2 ⟨_, hr, hkind, rfl⟩)
  have hdue' : d.session.isDue e.settings request = true := by
    refine (ReportRow.isDue_iff (hnow _ rfl) hstart hfit).2 ⟨hkind, .inr (.inl ?_)⟩
    omega
  exact hdue (Store.mem_dueSessions.2 ⟨hr, hdue'⟩)

/-- Over every run each session is stored or taken out, and what is taken out is reported on but for
empty sessions that are old; these are reported on as well where empty reports are kept for at least
as long as sessions stay open, under all settings that the run is under. -/
theorem run_accounts {settings : Settings} {version : Option String} {e₀ : Engine}
    (hopen : openEmpty settings version = .ok e₀) (calls : List Call) :
    e₀.SessionsAccounted calls ∧
      ((∀ s ∈ settings :: calls.filterMap Call.settings?,
          s.retention.sessionExpiry ≤ s.retention.orphanReportExpiry) →
        (∀ s ∈ settings :: calls.filterMap Call.settings?,
          fitsInt64 s.retention.sessionExpiry = true) →
        (∀ c ∈ calls, ∀ t ∈ c.timeMs?, fitsInt64 t = true) →
        ∀ d ∈ e₀.departuresIn calls, d.report ≠ none) := by
  obtain rfl := of_openEmpty hopen
  have hs : (⟨settings, version, .empty⟩ : Engine).store.Consistent := Store.empty_consistent
  refine ⟨run_sessionsAccounted hs calls, fun hexpiry hfit htimes d hd => ?_⟩
  obtain ⟨before, c, after, hcalls, hd⟩ := mem_gather calls hd
  have hused := run_settings_mem_append before (c :: after) hs
  rw [← hcalls] at hused
  refine departure_reported (run_consistent before hs) (hexpiry _ hused) (hfit _ hused)
    (htimes c (by simp [hcalls])) (fun r hr => ?_) hd
  -- the sessions that are stored began at the times of calls
  rcases (run_accounted before hs).known r (List.mem_append_left _ hr) with hnone | ⟨-, c', hc', hstart⟩
  · cases hnone
  · exact htimes c' (by simp [hcalls, hc']) _ hstart

/-- Where empty reports are not kept at all, a session without values goes unreported. -/
theorem run_loses_session :
    let settings : Settings := { (default : Settings) with
      retention := { (default : RetentionSettings) with orphanReportExpiry := 0 } }
    let e₀ : Engine := ⟨settings, none, .empty⟩
    let begin := [.startSession "a" 100]
    let calls := begin ++ [.collect (CollectRequest.atTime 200) "x" default]
    openEmpty settings none = .ok e₀ ∧
      (e₀.run begin).store.begunSessions = [⟨1, .session, some "a", 100, none, none⟩] ∧
      ((e₀.run begin).collect (CollectRequest.atTime 200) "x" default).result.isOk = true ∧
      (e₀.run calls).store.reports.rows = [] ∧ (e₀.trace calls).flatMap sessionReports = [] := by
  refine ⟨rfl, ?_, ?_, ?_, ?_⟩ <;> decide +kernel

/-- A session is reported on when it is too old. -/
theorem run_accounts_old :
    let e₀ : Engine := ⟨default, none, .empty⟩
    let calls := [.startSession "a" 100, .collect (CollectRequest.atTime (101 + dayMs)) "x" default]
    e₀.SessionsAccounted calls ∧ (e₀.departuresIn calls).map (·.session.name) = [some "a"] ∧
      ∀ d ∈ e₀.departuresIn calls, d.report ≠ none := by
  intro e₀ calls
  have hopen : openEmpty default none = .ok e₀ := rfl
  have htimes : ∀ c ∈ calls, ∀ t ∈ c.timeMs?, fitsInt64 t = true := by
    simp only [calls, List.forall_mem_cons]
    decide
  obtain ⟨haccounted, hreported⟩ := run_accounts hopen calls
  exact ⟨haccounted, by decide +kernel, hreported (by decide) (by decide) htimes⟩

end Engine

end Telemetry
