import Telemetry.Proofs.Merging
import Telemetry.Proofs.SheetRuns

/-!
# The count of a day

Every hourly report that has ended was ended by a collection, which counted its numbers.  It keeps
its series until it is merged, so the count of the daily report is the sum of those counts: the
merged reports are counted once more, and no number of theirs is from after their end.
-/

namespace Telemetry

namespace Store

variable {s s' : Store} {t : Int}

/-! ### Ended reports stay as they are -/

/-- What has ended does not open again. -/
theorem Step.ended_stays {scope : Scope} (h : Step scope s s') (hs : s.Consistent) {id : Int}
    (hid : id ≤ s.reports.lastId) (hended : ∀ r ∈ s.reports.rows, r.id = id → r.endMs ≠ none) :
    ∀ r ∈ s'.reports.rows, r.id = id → r.endMs ≠ none := by
  cases h with
  | start t version _ _ _ =>
    intro r hr hrid
    rcases List.mem_append.1 hr with hr | hr
    · exact hended r hr hrid
    · obtain rfl := List.mem_singleton.1 hr
      change s.reports.nextId = id at hrid
      rw [hs.reportsNumbered.nextId_eq] at hrid
      omega
  | finish t _ =>
    intro r hr hrid
    obtain ⟨x, hx, hxr⟩ := List.mem_map.1 hr
    split at hxr
    · simp [← hxr]
    · exact hxr ▸ hended x hx (hxr ▸ hrid)
  | removeReports _ => exact fun r hr hrid => hended r (List.mem_filter.1 hr).1 hrid
  | keep | newMetric | setMetric | addValue | skipValue | removeValues | removeMetrics =>
    exact hended

theorem Steps.ended_stays {scope : Scope} (h : Steps scope s s') (hs : s.Consistent) {id : Int}
    (hid : id ≤ s.reports.lastId) (hended : ∀ r ∈ s.reports.rows, r.id = id → r.endMs ≠ none) :
    ∀ r ∈ s'.reports.rows, r.id = id → r.endMs ≠ none := by
  induction h with
  | refl => exact hended
  | tail hsteps hstep ih =>
    exact hstep.ended_stays (Steps.consistent hsteps hs) (hid.trans (Steps.lastId_le hsteps hs)) ih

/-- A call other than a collection ends no hourly report. -/
theorem ReportsMoved.endedHourlies_eq {time : Option Int} (h : s.ReportsMoved time s') :
    s'.endedHourlies = s.endedHourlies := by
  have hrows : s'.reports.rows.filter (·.isEnded .hourly) =
      s.reports.rows.filter (·.isEnded .hourly) := by
    cases h with
    | same h => rw [h]
    | started _ h =>
      rw [h]
      exact Table.filter_append (by simp [ReportRow.isEnded])
    | ended hselected h =>
      rw [h]
      refine Table.filter_update fun r hr hsel => ?_
      simp [ReportRow.isEnded, hselected r hr hsel]
  rw [endedHourlies, hrows, endedHourlies]

/-! ### Series -/

/-- A report's series of a name is what it holds under this name. -/
theorem Consistent.seriesOf_eq_contentOf (hs : s.Consistent) (id : Int) (name : String) :
    s.seriesOf id name = ((s.contentOf id).filter (·.1.spec.eventName == name)).flatMap
      fun c => c.2.map (·.timed) := by
  have hfilter : (s.contentOf id).filter (·.1.spec.eventName == name) =
      ((s.metric? id name).toList.map fun m => (m, s.valuesOf m.id)).filter
        fun c => !c.2.isEmpty := by
    rw [contentOf, List.filter_comm, List.filter_map, ← hs.filter_metricRowsOf]
    rfl
  rw [hfilter, seriesOf]
  cases s.metric? id name with
  | none => rfl
  | some m =>
    cases hvalues : s.valuesOf m.id with
    | nil => simp [timedOf, hvalues]
    | cons v rows => simp [timedOf, hvalues]

theorem mem_seriesOf {id : Int} {name : String} {v : TimedValue}
    (hv : v ∈ s.seriesOf id name) :
    ∃ m ∈ s.metricRowsOf id, m.spec.eventName = name ∧ ∃ x ∈ s.valuesOf m.id, x.timed = v := by
  rw [seriesOf] at hv
  cases hm : s.metric? id name with
  | none =>
    rw [hm] at hv
    cases hv
  | some m =>
    rw [hm] at hv
    obtain ⟨hmem, hid, hname⟩ := of_metric? hm
    exact ⟨m, mem_metricRowsOf.2 ⟨hmem, hid⟩, hname, List.mem_map.1 hv⟩

/-- The hourly reports that have ended were there before, with the same series. -/
structure KeepsEnded (s s' : Store) : Prop where
  mem : ∀ r ∈ s'.endedHourlies, r ∈ s.endedHourlies
  series : ∀ r ∈ s'.endedHourlies, ∀ name, s'.seriesOf r.id name = s.seriesOf r.id name

theorem KeepsEnded.refl (s : Store) : KeepsEnded s s := ⟨fun _ hr => hr, fun _ _ _ => rfl⟩

theorem KeepsEnded.trans {s'' : Store} (h : KeepsEnded s s') (h' : KeepsEnded s' s'') :
    KeepsEnded s s'' :=
  ⟨fun r hr => h.mem r (h'.mem r hr), fun r hr name =>
    (h'.series r hr name).trans (h.series r (h'.mem r hr) name)⟩

theorem KeepsEnded.of_same (hmem : ∀ r ∈ s'.endedHourlies, r ∈ s.endedHourlies)
    (hsame : ∀ r ∈ s'.endedHourlies, SameReport r.id s s') : KeepsEnded s s' :=
  ⟨hmem, fun r hr name => (hsame r hr).seriesOf_eq name⟩

theorem SeenAs.keepsEnded (h : s.SeenAs s') : KeepsEnded s s' := by
  obtain ⟨kept, rfl⟩ := h
  exact ⟨fun _ hr => hr, fun _ _ _ => rfl⟩

theorem of_mem_endedHourlies {r : ReportRow} (h : r ∈ s.endedHourlies) :
    r ∈ s.reports.rows ∧ r.kind = .hourly ∧ r.endMs ≠ none := by
  obtain ⟨hr, hended⟩ := mem_endedHourlies.1 h
  exact ⟨hr, ReportRow.isEnded_iff.1 hended⟩

theorem mem_endedHourlies_of_mem (h : ∀ r ∈ s'.reports.rows, r ∈ s.reports.rows) {r : ReportRow}
    (hr : r ∈ s'.endedHourlies) : r ∈ s.endedHourlies :=
  mem_endedHourlies.2 ((mem_endedHourlies.1 hr).imp_left (h r))

/-- Without the hourly reports that have ended none is left. -/
theorem endedHourlies_without (s : Store) :
    (s.without (s.endedHourlies.map (·.id))).endedHourlies = [] := by
  refine List.eq_nil_iff_forall_not_mem.2 fun r hr => ?_
  obtain ⟨hr, hended⟩ := mem_endedHourlies.1 hr
  obtain ⟨hr, hkept⟩ := mem_reports_without.1 hr
  exact hkept (List.mem_map_of_mem (mem_endedHourlies.2 ⟨hr, hended⟩))

theorem TidiedInto.keepsEnded {ages : RetentionSettings} {now : Int}
    (h : s.TidiedInto ages now s') (hs : s.Consistent) (hs' : s'.Consistent) :
    KeepsEnded s s' := by
  have hmem : ∀ r ∈ s'.reports.rows, r ∈ s.reports.rows := fun r hr => (h.mem_reports.1 hr).1
  refine ⟨fun r hr => mem_endedHourlies_of_mem hmem hr, fun r hr name => ?_⟩
  obtain ⟨hr, hkind, -⟩ := of_mem_endedHourlies hr
  rw [hs'.seriesOf_eq_contentOf, hs.seriesOf_eq_contentOf, h.contentOf_eq hs]
  intro x hx hid
  obtain ⟨hx, hdaily⟩ := of_daily? hx
  rw [hs.report_eq hx (hmem r hr) hid, hkind] at hdaily
  cases hdaily

end Store

namespace Collecting

variable {settings : Settings} {request : CollectRequest} {p p' : Progress}

/-- The hourly stage leaves what has ended, now also the accumulator. -/
theorem hourly_keepsEnded {version : Option String} {exportName : String}
    {result : MetricReport × Option Path} (hs : p.store.Consistent)
    (h : Yields (hourly settings version request exportName) p result p') :
    p'.store.endedHourlies = (p.store.closed request.nowMs).endedHourlies ∧
      Store.KeepsEnded (p.store.closed request.nowMs) p'.store := by
  have hs' := (hourly_steps hs h).consistent hs
  obtain ⟨source, hadds, -⟩ := hourly_adds hs h
  have hended : p'.store.endedHourlies = (p.store.closed request.nowMs).endedHourlies := by
    obtain ⟨rs, hrs, hopen⟩ := hadds.reports
    rw [Store.endedHourlies, hrs, filter_append_left, Store.endedHourlies]
    intro r hr
    simp [ReportRow.isEnded, (hopen r hr).2]
  refine ⟨hended, .of_same (fun r hr => hended ▸ hr) fun r hr => ?_⟩
  obtain ⟨hr, hkind, hend⟩ := Store.of_mem_endedHourlies (hended ▸ hr)
  exact hadds.sameReport hs' hr fun _ => hend

theorem daily_keepsEnded {report : Option MetricReport} (hs : p.store.Consistent)
    (h : Yields (daily settings request) p report p') : Store.KeepsEnded p.store p'.store := by
  rcases daily_cases hs.undamaged h with ⟨-, rfl, -⟩ | ⟨hseen, -, -⟩
  · exact .refl p'.store
  have hnone : p'.store.endedHourlies = [] := by
    obtain ⟨kept, hp'⟩ := hseen
    rw [hp']
    exact p.store.endedHourlies_without
  constructor <;> simp [hnone]

theorem sessions_keepsEnded {reports : List MetricReport} (hs : p.store.Consistent)
    (h : Yields (sessions settings request) p reports p') :
    Store.KeepsEnded p.store p'.store := by
  obtain ⟨-, hseen⟩ := sessions_cases hs.undamaged h
  refine Store.KeepsEnded.trans (.of_same (fun r hr => ?_) fun r hr => ?_) hseen.keepsEnded
  · exact Store.mem_endedHourlies_of_mem (fun x hx => (Store.mem_reports_without.1 hx).1) hr
  · exact hs.sameReport_without (Store.mem_reports_without.1 (Store.mem_endedHourlies.1 hr).1).2

end Collecting

/-! ### Closings -/

/-- How a collection ended an accumulator. -/
structure Closing where
  /-- The store that the collection found. -/
  found : Store
  accumulator : ReportRow
  nowMs : Int
  report : MetricReport

namespace Closing

/-- The accumulator as it is stored after its end. -/
def row (c : Closing) : ReportRow := { c.accumulator with endMs := some c.nowMs }

/-- No value of the accumulator is from after its end. -/
def InTime (c : Closing) : Prop :=
  ∀ m ∈ c.found.metricRowsOf c.accumulator.id, ∀ v ∈ c.found.valuesOf m.id, v.timeMs ≤ c.nowMs

/-- A count of the name is asked for, if there is a metric of the name. -/
def AsksCount (c : Closing) (name : String) : Prop :=
  ∀ m ∈ c.found.metricRowsOf c.accumulator.id, m.spec.eventName = name →
    .numeric .count ∈ m.spec.aggregations

end Closing

namespace Engine

/-- The accumulator that a call ends, if it does. -/
def closings (e : Engine) : Call → List Closing
  | .collect request exportName files =>
    match (e.collect request exportName files).result with
    | .ok report => e.store.hourly?.toList.map fun r => ⟨e.store, r, request.nowMs, report.hourly⟩
    | .error _ => []
  | _ => []

def closingsIn : Engine → List Call → List Closing := gather closings

theorem closingsIn_collect {e : Engine} {calls : List Call} {request : CollectRequest}
    {exportName : String} {files : Files} {report : CustomReport}
    (h : ((e.run calls).collect request exportName files).result = .ok report) :
    e.closingsIn (calls ++ [.collect request exportName files]) =
      e.closingsIn calls ++ (e.run calls).store.hourly?.toList.map fun r =>
        ⟨(e.run calls).store, r, request.nowMs, report.hourly⟩ := by
  rw [closingsIn, gather_append, gather, gather, List.append_nil, closings, h]

end Engine

namespace Store

/-- What is known of the hourly reports that have ended: each was ended once, and has the series
that it had then. -/
structure Remembers (s : Store) (closings : List Closing) : Prop where
  ended : ∀ r ∈ s.endedHourlies, ∃ c ∈ closings, c.row = r ∧
    ∀ name, s.seriesOf r.id name = c.found.seriesOf r.id name
  shut : ∀ c ∈ closings, c.row.id ≤ s.reports.lastId ∧
    ∀ r ∈ s.reports.rows, r.id = c.row.id → r.endMs ≠ none
  once : (closings.map (·.row.id)).Nodup

variable {s s' : Store} {closings : List Closing}

theorem empty_remembers : empty.Remembers [] := by
  refine ⟨fun r hr => ?_, fun c hc => ?_, List.nodup_nil⟩
  · exact absurd (mem_endedHourlies.1 hr).1 List.not_mem_nil
  · exact absurd hc List.not_mem_nil

/-- What has ended once the accumulator is closed had ended before, or is the accumulator. -/
theorem Consistent.of_mem_closed (hs : s.Consistent) {now : Int} {r : ReportRow}
    (hr : r ∈ (s.closed now).endedHourlies) :
    r ∈ s.endedHourlies ∨ ∃ x, s.hourly? = some x ∧ r = { x with endMs := some now } := by
  obtain ⟨hr, hended⟩ := mem_endedHourlies.1 hr
  obtain ⟨x, hx, hxr⟩ := mem_closed.1 hr
  unfold ReportRow.closedAt at hxr
  split at hxr
  · next hopen =>
    obtain ⟨hkind, -, hend⟩ := ReportRow.isOpenAs_iff.1 hopen
    exact .inr ⟨x, hs.hourly?_eq hx hkind hend, hxr.symm⟩
  · exact .inl (mem_endedHourlies.2 ⟨hxr ▸ hx, hended⟩)

theorem mem_closed_of_hourly? {x : ReportRow} (h : s.hourly? = some x) (now : Int) :
    { x with endMs := some now } ∈ (s.closed now).endedHourlies := by
  obtain ⟨hx, hopen⟩ := of_hourly? h
  refine mem_endedHourlies.2 ⟨mem_closed.2 ⟨x, hx, ?_⟩, by simp [ReportRow.isEnded, hopen.1]⟩
  rw [ReportRow.closedAt, if_pos (ReportRow.isOpenAs_iff.2 hopen)]

theorem closed_steps (s : Store) (now : Int) : Steps .everything s (s.closed now) := by
  refine (Step.finish now fun r _ hopen => ⟨trivial, ?_⟩).steps
  obtain ⟨hkind, -, hend⟩ := ReportRow.isOpenAs_iff.1 hopen
  exact ⟨by simp [hkind], hend⟩

theorem Remembers.keep (h : s.Remembers closings) (hs : s.Consistent)
    {scope : Scope} (hsteps : Steps scope s s') (hkeeps : KeepsEnded s s') :
    s'.Remembers closings := by
  refine ⟨fun r hr => ?_, fun c hc => ?_, h.once⟩
  · obtain ⟨c, hc, hrow, hseries⟩ := h.ended r (hkeeps.mem r hr)
    exact ⟨c, hc, hrow, fun name => (hkeeps.series r hr name).trans (hseries name)⟩
  · obtain ⟨hgiven, hended⟩ := h.shut c hc
    exact ⟨hgiven.trans (hsteps.lastId_le hs), hsteps.ended_stays hs hgiven hended⟩

theorem Remembers.close (h : s.Remembers closings) (hs : s.Consistent) {c : Closing}
    (hfound : c.found = s) (hopen : s.hourly? = some c.accumulator) {scope : Scope}
    (hsteps : Steps scope s s') (hkeeps : KeepsEnded (s.closed c.nowMs) s')
    (hshut : ∀ r ∈ s'.reports.rows, r.id = c.row.id → r.endMs ≠ none) :
    s'.Remembers (closings ++ [c]) := by
  obtain ⟨haccumulator, -, -, hend⟩ := of_hourly? hopen
  refine ⟨fun r hr => ?_, fun c' hc' => ?_, ?_⟩
  · have hseries : ∀ name, s'.seriesOf r.id name = s.seriesOf r.id name := hkeeps.series r hr
    rcases hs.of_mem_closed (hkeeps.mem r hr) with hr | ⟨x, hx, hrow⟩
    · obtain ⟨c', hc', hrow, hold⟩ := h.ended r hr
      exact ⟨c', List.mem_append_left _ hc', hrow, fun name => (hseries name).trans (hold name)⟩
    · obtain rfl : c.accumulator = x := Option.some.inj (hopen.symm.trans hx)
      exact ⟨c, by simp, hrow.symm, fun name => hfound ▸ hseries name⟩
  · rcases List.mem_append.1 hc' with hc' | hc'
    · obtain ⟨hgiven, hended⟩ := h.shut c' hc'
      exact ⟨hgiven.trans (hsteps.lastId_le hs), hsteps.ended_stays hs hgiven hended⟩
    · obtain rfl := List.mem_singleton.1 hc'
      exact ⟨(hs.reportsNumbered.given _ haccumulator).trans (hsteps.lastId_le hs), hshut⟩
  · -- what was closed before stays ended, and the accumulator was open
    rw [List.map_append, List.nodup_append']
    refine ⟨h.once, List.nodup_singleton _, fun id hid hnew => ?_⟩
    obtain ⟨c', hc', rfl⟩ := List.mem_map.1 hid
    exact (h.shut c' hc').2 c.accumulator haccumulator (List.mem_singleton.1 hnew).symm hend

/-- The closings of the reports that are still there. -/
def closingsOf (s : Store) (closings : List Closing) : List Closing :=
  closings.filter fun c => s.endedHourlies.contains c.row

theorem mem_closingsOf {c : Closing} :
    c ∈ s.closingsOf closings ↔ c ∈ closings ∧ c.row ∈ s.endedHourlies := by
  rw [closingsOf, List.mem_filter, List.contains_iff_mem]

theorem Remembers.closingsOf_perm (h : s.Remembers closings) (hs : s.Consistent) :
    ((s.closingsOf closings).map (·.row)).Perm s.endedHourlies := by
  have honce : (closings.map (·.row)).Nodup := by
    refine List.Nodup.of_map (·.id) ?_
    rw [List.map_map]
    exact h.once
  have hdistinct : s.endedHourlies.Nodup :=
    hs.endedHourlies_distinct.imp fun hne heq => hne (by rw [heq])
  refine (List.perm_ext_iff_of_nodup (honce.sublist (List.filter_sublist.map _)) hdistinct).2 ?_
  intro r
  constructor
  · intro hr
    obtain ⟨c, hc, rfl⟩ := List.mem_map.1 hr
    exact (mem_closingsOf.1 hc).2
  · intro hr
    obtain ⟨c, hc, rfl, -⟩ := h.ended r hr
    exact List.mem_map_of_mem (mem_closingsOf.2 ⟨hc, hr⟩)

theorem Remembers.seriesOf_eq (h : s.Remembers closings) {c : Closing}
    (hc : c ∈ s.closingsOf closings) (name : String) :
    s.seriesOf c.accumulator.id name = c.found.seriesOf c.accumulator.id name := by
  obtain ⟨hc, hended⟩ := mem_closingsOf.1 hc
  obtain ⟨c', hc', hrow, hseries⟩ := h.ended _ hended
  obtain rfl := List.inj_on_of_nodup_map h.once hc' hc (congrArg (·.id) hrow)
  exact hseries name

end Store

theorem Closing.InTime.countFrom_eq {c : Closing} (h : c.InTime) {endMs : Int}
    (hend : c.nowMs ≤ endMs) (name : String) :
    c.found.countFrom endMs name c.accumulator = c.found.countFrom c.nowMs name c.accumulator := by
  refine List.countP_congr fun v hv => ?_
  obtain ⟨m, hm, -, x, hx, rfl⟩ := Store.mem_seriesOf hv
  have htime : x.timed.timeMs ≤ c.nowMs := h m hm x hx
  simp only [Window.counts, Bool.and_eq_true, decide_eq_true_eq]
  exact and_congr_right fun _ => ⟨fun _ => htime, fun hle => hle.trans hend⟩

namespace Engine

variable {e : Engine} {past : List Closing} {request : CollectRequest} {exportName : String}
  {files : Files} {report : CustomReport}

/-- A collection keeps what has ended once it has closed the accumulator, which stays ended. -/
theorem collect_keepsEnded (hs : e.store.Consistent)
    (h : (e.collect request exportName files).result = .ok report) :
    Store.KeepsEnded (e.store.closed request.nowMs)
        (e.collect request exportName files).engine.store ∧
      ∀ x, e.store.hourly? = some x →
        ∀ r ∈ (e.collect request exportName files).engine.store.reports.rows, r.id = x.id →
          r.endMs ≠ none := by
  obtain ⟨path, p₁, p₂, p₃, hhourly, hs₁, hdaily, hs₂, hsessions, hs₃, htidied, hsteps, -⟩ :=
    collect_stages hs h
  have hkeeps := Collecting.hourly_keepsEnded hs hhourly
  refine ⟨hkeeps.2.trans ((Collecting.daily_keepsEnded hs₁ hdaily).trans
    ((Collecting.sessions_keepsEnded hs₂ hsessions).trans
      (htidied.keepsEnded hs₃ (hsteps.consistent hs₁)))), fun x hx => ?_⟩
  -- once the accumulator has ended, it does not open again
  obtain ⟨source, hadds, -⟩ := Collecting.hourly_adds hs hhourly
  obtain ⟨rs, hrs, -⟩ := hadds.reports
  have hended : { x with endMs := some request.nowMs } ∈ p₁.store.reports.rows :=
    hrs ▸ List.mem_append_left _
      (Store.mem_endedHourlies.1 (Store.mem_closed_of_hourly? hx request.nowMs)).1
  have hgiven := hs₁.reportsNumbered.given _ hended
  refine hsteps.ended_stays hs₁ hgiven fun r hr hid => ?_
  rw [hs₁.report_eq hr hended hid]
  simp

theorem call_keepsEnded (hs : e.store.Consistent) {c : Call} (hc : c.isCollect = false) :
    Store.KeepsEnded e.store (e.call c).2.store := by
  have hended := (call_moves hs hc).endedHourlies_eq
  refine .of_same (fun r hr => hended ▸ hr) fun r hr => ?_
  obtain ⟨hr, hkind, hend⟩ := Store.of_mem_endedHourlies (hended ▸ hr)
  refine (call_unended hs hc).sameReport hs ⟨r, hr, rfl⟩ fun htouches => ?_
  rcases htouches r hr rfl with hsession | hopen
  · rw [hkind] at hsession
    cases hsession
  · exact hend hopen

theorem call_remembers (hs : e.store.Consistent) (h : e.store.Remembers past) (c : Call) :
    (e.call c).2.store.Remembers (past ++ e.closings c) := by
  have hsteps := call_steps hs c
  cases c with
  | add | startSession | startSeeded | endSession | reopen =>
    simpa [closings] using h.keep hs hsteps (call_keepsEnded hs rfl)
  | collect request exportName files =>
    cases hresult : (e.collect request exportName files).result with
    | ok report =>
      obtain ⟨hkeeps, hshut⟩ := collect_keepsEnded hs hresult
      cases hopen : e.store.hourly? with
      | none =>
        rw [Store.closed_of_none hopen] at hkeeps
        simpa [closings, hresult, hopen] using h.keep hs hsteps hkeeps
      | some x =>
        simp only [closings, hresult, hopen, Option.toList_some, List.map_singleton]
        exact h.close hs rfl hopen hsteps hkeeps (hshut x hopen)
    | error err =>
      have hkeeps : Store.KeepsEnded e.store (e.collect request exportName files).engine.store := by
        obtain ⟨_, _, _, _, _, hok, -⟩ | ⟨_, s, -, hseen, heq⟩ :=
          collect_cases hs.undamaged request exportName files
        · rw [hok] at hresult
          cases hresult
        · rw [heq]
          exact hseen.keepsEnded
      simpa [closings, hresult] using h.keep hs hsteps hkeeps

theorem run_remembers (calls : List Call) :
    ∀ {e : Engine} {past : List Closing}, e.store.Consistent → e.store.Remembers past →
      (e.run calls).store.Remembers (past ++ e.closingsIn calls) := by
  induction calls with
  | nil =>
    intro e past _ h
    rwa [closingsIn, gather, List.append_nil]
  | cons c calls ih =>
    intro e past hs h
    rw [closingsIn, gather, ← List.append_assoc]
    exact ih ((call_steps hs c).consistent hs) (call_remembers hs h c)

theorem closed_remembers (hs : e.store.Consistent) (h : e.store.Remembers past)
    (hresult : (e.collect request exportName files).result = .ok report) :
    (e.store.closed request.nowMs).Remembers
      (past ++ e.closings (.collect request exportName files)) := by
  cases hopen : e.store.hourly? with
  | none =>
    rw [Store.closed_of_none hopen]
    simpa [closings, hresult, hopen] using h
  | some x =>
    simp only [closings, hresult, hopen, Option.toList_some, List.map_singleton]
    refine h.close hs rfl hopen (e.store.closed_steps request.nowMs) (.refl _) fun r hr hid => ?_
    obtain ⟨hx, hkind, -⟩ := Store.of_hourly? hopen
    obtain ⟨y, hy, rfl⟩ := Store.mem_closed.1 hr
    rw [ReportRow.closedAt_id] at hid
    refine hs.closed_ended hr ?_
    rw [ReportRow.closedAt_kind, hs.report_eq hy hx hid, hkind]

/-- Once a run's last collection has closed the accumulator, all closings of the run are known. -/
theorem run_closed_remembers {settings : Settings} {version : Option String} (calls : List Call)
    (h : ((run ⟨settings, version, .empty⟩ calls).collect request exportName files).result =
      .ok report) :
    ((run ⟨settings, version, .empty⟩ calls).store.closed request.nowMs).Remembers
      (closingsIn ⟨settings, version, .empty⟩ (calls ++ [.collect request exportName files])) := by
  have hpast := run_remembers calls (e := ⟨settings, version, .empty⟩) Store.empty_consistent
    Store.empty_remembers
  rw [closingsIn, gather_append, gather, gather, List.append_nil]
  exact closed_remembers (run_consistent calls Store.empty_consistent) hpast h

/-! ### Counts -/

theorem closing_countOf (hs : e.store.Consistent) {call : Call} (hderive : call.derives = false)
    {c : Closing} (hc : c ∈ e.closings call) {name : String} (hasks : c.AsksCount name) :
    c.report.countOf name = c.found.countFrom c.nowMs name c.accumulator := by
  cases call with
  | add | startSession | startSeeded | endSession | reopen => cases hc
  | collect request exportName files =>
    cases hresult : (e.collect request exportName files).result with
    | error err => simp [closings, hresult] at hc
    | ok report =>
      simp only [closings, hresult, List.mem_map, Option.mem_toList] at hc
      obtain ⟨r, hopen, rfl⟩ := hc
      have hderive : request.derivation = none := by simpa [Call.derives] using hderive
      obtain ⟨hle, heq⟩ := collect_countOf hs hderive hresult name
      have hcounted : e.store.counted request.nowMs name =
          e.store.countFrom request.nowMs name r := by
        rw [Store.counted, hopen, Option.elim_some, Store.hourlySeries, hopen]
        rfl
      rw [← hcounted]
      cases hm : e.store.metric? r.id name with
      | none =>
        have hzero : e.store.counted request.nowMs name = 0 := by
          rw [hcounted, Store.countFrom, Store.seriesOf, hm]
          rfl
        exact le_antisymm hle (hzero ▸ Nat.zero_le _)
      | some m =>
        obtain ⟨hmem, hid, hname⟩ := Store.of_metric? hm
        refine heq ⟨m, ?_, hasks m (Store.mem_metricRowsOf.2 ⟨hmem, hid⟩) hname⟩
        rw [Store.hourlyMetric?, hopen]
        exact hm

/-- A daily report is on what the hourly stage has left. -/
theorem collect_day (hs : e.store.Consistent)
    (h : (e.collect request exportName files).result = .ok report) {day : MetricReport}
    (hday : report.daily = some day) :
    ∃ path p, Yields (Collecting.hourly e.settings e.softwareVersion request exportName)
        ⟨e.store, files, []⟩ (report.hourly, path) p ∧ p.store.Consistent ∧
      ∃ summary, Collecting.SummarizesDay e.settings request.nowMs p.store summary ∧
        (request.derivation = none → day = summary) := by
  obtain ⟨path, p₁, p₂, p₃, hhourly, hs₁, hdaily, -⟩ := collect_stages hs h
  rcases Collecting.daily_cases hs₁.undamaged hdaily with
    ⟨hnone, -⟩ | ⟨-, -, ⟨hnone, -⟩ | ⟨m, summary, hsome, -, hsummarizes, hplain⟩⟩
  · rw [hnone] at hday
    cases hday
  · rw [hnone] at hday
    cases hday
  · obtain rfl : m = day := Option.some.inj (hsome.symm.trans hday)
    exact ⟨path, p₁, hhourly, hs₁, summary, hsummarizes, hplain⟩

/-- The daily report counts what has ended once the accumulator is closed. -/
theorem collect_dayCount (hs : e.store.Consistent) (hderive : request.derivation = none)
    (h : (e.collect request exportName files).result = .ok report) {day : MetricReport}
    (hday : report.daily = some day) {name : String} (hcount : ¬day.Lacks name) :
    let merged := (e.store.closed request.nowMs).endedHourlies
    ∃ s, Store.KeepsEnded (e.store.closed request.nowMs) s ∧ s.endedHourlies = merged ∧
      day.countOf name =
        (merged.map (s.countFrom (Collecting.span request.nowMs merged).endMs name)).sum := by
  intro merged
  obtain ⟨path, p₁, hhourly, hs₁, summary, hsummarizes, hplain⟩ := collect_day hs h hday
  obtain ⟨hended, hkeeps⟩ := Collecting.hourly_keepsEnded hs hhourly
  obtain rfl := hplain hderive
  refine ⟨p₁.store, hkeeps, hended, ?_⟩
  rw [hsummarizes.countOf_eq hs₁ hcount, hended]

/-- The count of a daily report is the sum of the counts of exactly the hourly reports that it
merges, where these were asked for a count. -/
theorem run_dayCount {settings : Settings} {version : Option String} {e₀ : Engine}
    (hopen : openEmpty settings version = .ok e₀) (calls : List Call) {day : MetricReport}
    (hderive : ∀ c ∈ calls ++ [.collect request exportName files], c.derives = false)
    (htimes : ∀ c ∈ e₀.closingsIn (calls ++ [.collect request exportName files]), c.InTime)
    (h : ((e₀.run calls).collect request exportName files).result = .ok report)
    (hday : report.daily = some day) :
    let found := (e₀.run calls).store.closed request.nowMs
    let closings := found.closingsOf (e₀.closingsIn (calls ++ [.collect request exportName files]))
    (closings.map (·.row)).Perm found.endedHourlies ∧
      ∀ name, ¬day.Lacks name → (∀ c ∈ closings, c.AsksCount name) →
        day.countOf name = (closings.map fun c => c.report.countOf name).sum := by
  intro found closings
  obtain rfl := of_openEmpty hopen
  have hs := run_consistent calls (e := ⟨settings, version, .empty⟩) Store.empty_consistent
  have hfound := (Store.closed_steps _ request.nowMs).consistent hs
  have hremembers : found.Remembers
      (closingsIn ⟨settings, version, .empty⟩ (calls ++ [.collect request exportName files])) := by
    have hpast := run_remembers calls (e := ⟨settings, version, .empty⟩) Store.empty_consistent
      Store.empty_remembers
    rw [closingsIn, gather_append, gather, gather, List.append_nil]
    exact closed_remembers hs hpast h
  have hperm := hremembers.closingsOf_perm hfound
  refine ⟨hperm, fun name hcount hasks => ?_⟩
  have hplain : request.derivation = none := by
    simpa [Call.derives] using hderive (.collect request exportName files) (by simp)
  obtain ⟨s, hkeeps, hended, hsum⟩ := collect_dayCount hs hplain h hday hcount
  -- report by report
  have hclosing : ∀ c ∈ closings,
      s.countFrom (Collecting.span request.nowMs found.endedHourlies).endMs name c.row =
        c.report.countOf name := by
    intro c hc
    obtain ⟨hmem, hrow⟩ := Store.mem_closingsOf.1 hc
    obtain ⟨before, call, after, hcalls, hcall⟩ := mem_gather _ hmem
    have hcounted := closing_countOf (run_consistent before Store.empty_consistent)
      (hderive call (hcalls ▸ by simp)) hcall (hasks c hc)
    have hseries : s.seriesOf c.accumulator.id name = c.found.seriesOf c.accumulator.id name :=
      (hkeeps.series c.row (hended ▸ hrow) name).trans (hremembers.seriesOf_eq hc name)
    rw [hcounted, ← (htimes c hmem).countFrom_eq (Collecting.le_span_end hrow rfl) name,
      Store.countFrom, Store.countFrom, ← hseries]
    rfl
  calc day.countOf name
      = (found.endedHourlies.map
          (s.countFrom (Collecting.span request.nowMs found.endedHourlies).endMs name)).sum := hsum
    _ = ((closings.map (·.row)).map
          (s.countFrom (Collecting.span request.nowMs found.endedHourlies).endMs name)).sum :=
        (hperm.map _).sum_nat.symm
    _ = (closings.map fun c => c.report.countOf name).sum := by
        rw [List.map_map]
        exact congrArg List.sum (List.map_congr_left hclosing)

/-- Days of ten milliseconds. -/
def shortDays : Engine :=
  ⟨{ (default : Settings) with
      retention := { (default : RetentionSettings) with dailySpan := 10 } }, none, .empty⟩

/-- A sample in a first hour, which is over, and one in a second. -/
def twoLoads : List Call :=
  [.add { loadAt 5 with carryOver := false }, .collect (.atTime 10) "x" default,
    .add { loadAt 15 with carryOver := false }]

/-- The hourly stage at the end of the second hour. -/
def secondHour : Except Failure (MetricReport × Option Path) × Progress :=
  let e := shortDays.run twoLoads
  outcome (Collecting.hourly e.settings e.softwareVersion (.atTime 20) "y") ⟨e.store, default, []⟩

theorem secondHour_daily :
    (Sheet.dailyIn (shortDays.run twoLoads).settings (.atTime 20)
      secondHour.2.store.sheets).1.map (·.countOf "load") = some 2 := by
  have hstarts : ((Sheet.endedHourlies secondHour.2.store.sheets).map
      (·.header.startMs)).Pairwise fun a b => decide (a ≤ b) = true := by
    decide +kernel
  -- the kernel does not evaluate sorting
  have hsorted : sortedBy (·.header.startMs) (Sheet.endedHourlies secondHour.2.store.sheets) =
      Sheet.endedHourlies secondHour.2.store.sheets :=
    List.mergeSort_of_pairwise (List.pairwise_map.1 hstarts)
  rw [Sheet.dailyIn, Sheet.dayReport, Sheet.daySpan, Sheet.merged, hsorted]
  decide +kernel

/-- The collection at the end of the second hour succeeds, with a report on a day. -/
theorem collect_twoLoads :
    ∃ report day, ((shortDays.run twoLoads).collect (.atTime 20) "y" default).result = .ok report ∧
      report.hourly.countOf "load" = 1 ∧ report.daily = some day ∧ day.countOf "load" = 2 := by
  have he : (shortDays.run twoLoads).Reachable :=
    ⟨shortDays.settings, none, shortDays, twoLoads, rfl, rfl⟩
  have hhour : secondHour.1.toOption.map (·.1.countOf "load") = some 1 := by decide +kernel
  obtain ⟨⟨hourly, path⟩, hok, hone⟩ := Option.map_eq_some_iff.1 hhour
  have hyields : secondHour = (.ok (hourly, path), secondHour.2) := by
    cases hresult : secondHour.1 with
    | error err =>
      rw [hresult] at hok
      cases hok
    | ok result =>
      rw [hresult] at hok
      exact Prod.ext (hresult.trans (congrArg Except.ok (Option.some.inj hok))) rfl
  obtain ⟨xs, hshows⟩ := he.shows
  have hshows := Collecting.hourly_shows (p := ⟨_, default, []⟩) hshows hyields
  obtain ⟨report, p, hothers, hreport, -⟩ :=
    Collecting.others_attains _ (.atTime 20) hourly hshows path
  rw [← hshows.sheets] at hreport
  obtain ⟨day, hday, htwo⟩ := Option.map_eq_some_iff.1 secondHour_daily
  refine ⟨report, day, congrArg CollectOutcome.result (collect_of_ok hyields hothers), ?_, ?_, htwo⟩
  · rw [hreport]
    exact hone
  · rw [hreport]
    exact hday

/-- A day of two hours, with a sample in each. -/
theorem run_dayCount_load :
    let closings := ((shortDays.run twoLoads).store.closed 20).closingsOf
      (shortDays.closingsIn (twoLoads ++ [.collect (.atTime 20) "y" default]))
    (closings.map fun c => (c.row.id, c.report.countOf "load")) = [(1, 1), (2, 1)] ∧
      ∃ report day, ((shortDays.run twoLoads).collect (.atTime 20) "y" default).result =
          .ok report ∧
        report.daily = some day ∧ day.countOf "load" = 2 ∧
        day.countOf "load" = (closings.map fun c => c.report.countOf "load").sum := by
  intro closings
  obtain ⟨report, day, hresult, hone, hday, htwo⟩ := collect_twoLoads
  have hhas : ¬day.Lacks "load" := by
    intro hlacks
    rw [hlacks.countOf_eq] at htwo
    cases htwo
  -- there are the closing of the first hour and this one
  have hall := closingsIn_collect hresult
  have hforall : ∀ P : Closing → Prop, (∀ c ∈ shortDays.closingsIn twoLoads, P c) →
      (∀ r ∈ (shortDays.run twoLoads).store.hourly?.toList,
        P ⟨(shortDays.run twoLoads).store, r, 20, report.hourly⟩) →
      ∀ c ∈ shortDays.closingsIn (twoLoads ++ [.collect (.atTime 20) "y" default]), P c := by
    intro P hfirst hsecond
    rw [hall, List.forall_mem_append, List.forall_mem_map]
    exact ⟨hfirst, hsecond⟩
  have hended := hforall (·.row ∈ ((shortDays.run twoLoads).store.closed 20).endedHourlies)
    (by simp only [Store.mem_endedHourlies, Closing.row]; decide +kernel)
    (by simp only [Store.mem_endedHourlies, Closing.row]; decide +kernel)
  have htimes := hforall Closing.InTime
    (by simp only [Closing.InTime]; decide +kernel) (by simp only [Closing.InTime]; decide +kernel)
  have hasks := hforall (·.AsksCount "load")
    (by simp only [Closing.AsksCount]; decide +kernel)
    (by simp only [Closing.AsksCount]; decide +kernel)
  have hderive : ∀ c ∈ twoLoads ++ [.collect (.atTime 20) "y" default], c.derives = false := by
    decide
  have hopen : openEmpty shortDays.settings none = .ok shortDays := rfl
  refine ⟨?_, report, day, hresult, hday, htwo,
    (run_dayCount hopen twoLoads hderive htimes hresult hday).2 "load" hhas
      fun c hc => hasks c (Store.mem_closingsOf.1 hc).1⟩
  have hfirst : (shortDays.closingsIn twoLoads).map
      (fun c => (c.row.id, c.report.countOf "load")) = [(1, 1)] := by decide +kernel
  have hsecond : (shortDays.run twoLoads).store.hourly?.toList.map (fun r => (r.id, 1)) =
      [(2, 1)] := by decide +kernel
  have hclosings : closings = _ := List.filter_eq_self.2 fun c hc =>
    List.contains_iff_mem.2 (hended c hc)
  rw [hclosings, hall, List.map_append, List.map_map, hfirst, ← List.singleton_append, ← hsecond,
    ← hone]
  rfl

end Engine

end Telemetry
