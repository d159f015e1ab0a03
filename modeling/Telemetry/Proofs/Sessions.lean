import Telemetry.Proofs.Ages
import Telemetry.Proofs.Tidying

/-!
# What a collection does to the sessions

A collection reports once on every session that has ended, that is too old, or that it is asked to
end, in the order of their starts, and removes it with all that belongs to it.  Every other session
stays open with all its values; only one that has no metric left goes with the old empty reports.
-/

namespace Telemetry

namespace Store

/-- A report is gone, with its metrics and their values. -/
structure Gone (id : Int) (before after : Store) : Prop where
  report : ∀ r ∈ after.reports.rows, r.id ≠ id
  metrics : after.metricRowsOf id = []
  values : ∀ m ∈ before.metricRowsOf id, after.valuesOf m.id = []

variable {s s' : Store} {settings : Settings} {request : CollectRequest}

theorem open_of_not_due {r : ReportRow} (hkind : r.kind = .session)
    (h : r.isDue settings request = false) : r.endMs = none := by
  simp only [ReportRow.isDue, hkind, beq_self_eq_true, Bool.true_and, Bool.or_eq_false_iff] at h
  simpa using h.1.1

theorem Consistent.dueSessions_sorted (hs : s.Consistent) :
    (s.dueSessions settings request).Pairwise fun a b =>
      a.startMs < b.startMs ∨ a.startMs = b.startMs ∧ a.id < b.id := by
  have hdistinct : (s.dueSessions settings request).Pairwise fun a b => a.id ≠ b.id := by
    refine (List.mergeSort_perm _ _).symm.pairwise
      ((hs.reportsNumbered.increasing.filter _).imp fun hlt => ne_of_lt hlt) fun h => h.symm
  refine ((ReportRow.pairwise_mergeSort _).and hdistinct).imp fun h => ?_
  obtain ⟨hle, hne⟩ := h
  omega

/-- All sessions are as they were, and no others are there. -/
structure KeepsSessions (s s' : Store) : Prop where
  rows : ∀ q : ReportRow → Bool, (∀ r, r.kind ≠ .session → q r = false) →
    s'.reports.rows.filter q = s.reports.rows.filter q
  same : ∀ r ∈ s.reports.rows, r.kind = .session → SameReport r.id s s'

theorem KeepsSessions.mem_reports (h : KeepsSessions s s') {r : ReportRow}
    (hkind : r.kind = .session) : r ∈ s'.reports.rows ↔ r ∈ s.reports.rows := by
  have hmem : r ∈ s'.reports.rows.filter (·.kind == .session) ↔
      r ∈ s.reports.rows.filter (·.kind == .session) := by
    rw [h.rows _ fun r hr => beq_false_of_ne hr]
  simpa [hkind] using hmem

theorem KeepsSessions.dueSessions_eq (h : KeepsSessions s s') :
    s'.dueSessions settings request = s.dueSessions settings request := by
  have hrows := h.rows (·.isDue settings request) fun r hr => by
    rw [← Bool.not_eq_true]
    exact fun hdue => hr (of_isDue hdue)
  rw [dueSessions, hrows, dueSessions]

/-- All reports that are no hourly ones are as they were, and no others are there but hourly ones. -/
structure KeepsUnhourly (s s' : Store) : Prop where
  rows : ∀ q : ReportRow → Bool, (∀ r, r.kind = .hourly → q r = false) →
    s'.reports.rows.filter q = s.reports.rows.filter q
  same : ∀ r ∈ s.reports.rows, r.kind ≠ .hourly → SameReport r.id s s'

namespace KeepsUnhourly

theorem of_seenAs (h : s.SeenAs s') : KeepsUnhourly s s' := by
  refine ⟨fun _ _ => ?_, fun r _ _ => h.sameReport r.id⟩
  obtain ⟨kept, rfl⟩ := h
  rfl

theorem mem_reports (h : KeepsUnhourly s s') {r : ReportRow} (hkind : r.kind ≠ .hourly) :
    r ∈ s'.reports.rows ↔ r ∈ s.reports.rows := by
  have hmem : r ∈ s'.reports.rows.filter (·.kind != .hourly) ↔
      r ∈ s.reports.rows.filter (·.kind != .hourly) := by
    rw [h.rows _ fun r hr => by simp [hr]]
  simpa [hkind] using hmem

theorem trans {s'' : Store} (h : KeepsUnhourly s s') (h' : KeepsUnhourly s' s'') :
    KeepsUnhourly s s'' :=
  ⟨fun q hq => (h'.rows q hq).trans (h.rows q hq),
    fun r hr hkind => (h.same r hr hkind).trans (h'.same r ((h.mem_reports hkind).2 hr) hkind)⟩

theorem keepsSessions (h : KeepsUnhourly s s') : KeepsSessions s s' :=
  ⟨fun q hq => h.rows q fun r hr => hq r (by simp [hr]),
    fun r hr hkind => h.same r hr (by simp [hkind])⟩

end KeepsUnhourly

end Store

/-! ### Before the session stage -/

namespace Collecting

variable {settings : Settings} {request : CollectRequest} {p p' : Progress}

theorem hourly_keepsUnhourly {version : Option String} {exportName : String}
    {result : MetricReport × Option Path} (hs : p.store.Consistent)
    (h : Yields (hourly settings version request exportName) p result p') :
    Store.KeepsUnhourly p.store p'.store := by
  have hs' := (hourly_steps hs h).consistent hs
  obtain ⟨source, hadds, -⟩ := hourly_adds hs h
  constructor
  · intro q hq
    rw [hadds.filter_reports hq, Store.filter_closed hq]
  · intro r hr hkind
    have hclosed : r ∈ (p.store.closed request.nowMs).reports.rows :=
      Store.mem_closed.2 ⟨r, hr, ReportRow.closedAt_of_kind hkind _⟩
    have hsame := hadds.sameReport hs' hclosed fun hhourly => absurd hhourly hkind
    refine ⟨hsame.rows.trans ?_, hsame.metrics, hsame.values⟩
    refine Table.filter_update fun x hx hopen => ?_
    have hne : x.id ≠ r.id := by
      intro hid
      rw [hs.report_eq hx hr hid] at hopen
      simp [ReportRow.isOpenAs, hkind] at hopen
    exact ⟨beq_false_of_ne hne, beq_false_of_ne hne⟩

theorem daily_keepsUnhourly {report : Option MetricReport} (hs : p.store.Consistent)
    (h : Yields (daily settings request) p report p') : Store.KeepsUnhourly p.store p'.store := by
  rcases daily_cases hs.undamaged h with ⟨-, rfl, -⟩ | ⟨hseen, -, -⟩
  · exact .of_seenAs (.refl p'.store)
  -- only hourly reports are removed
  have hother : ∀ r ∈ p.store.reports.rows, r.kind ≠ .hourly →
      r.id ∉ p.store.endedHourlies.map (·.id) := by
    intro r hr hkind hid
    obtain ⟨x, hx, hxr⟩ := List.mem_map.1 hid
    obtain ⟨hx, hended⟩ := Store.mem_endedHourlies.1 hx
    rw [hs.report_eq hx hr hxr] at hended
    simp [ReportRow.isEnded, hkind] at hended
  constructor
  · intro q hq
    obtain ⟨kept, hp'⟩ := hseen
    rw [hp']
    refine Table.filter_remove fun r hr hqr => ?_
    have hkind : r.kind ≠ .hourly := fun hhourly => by simp [hq r hhourly] at hqr
    rw [← Bool.not_eq_true, List.contains_iff_mem]
    exact hother r hr hkind
  · intro r hr hkind
    exact (hs.sameReport_without (hother r hr hkind)).trans (hseen.sameReport r.id)

end Collecting

/-! ### Whole collections -/

variable {e : Engine} {request : CollectRequest} {exportName : String} {files : Files}
  {report : CustomReport}

/-- A collection comes to the session stage with the sessions that it began with, removes those that
are due and tidies up. -/
theorem Engine.collect_sessions (hs : e.store.Consistent)
    (h : (e.collect request exportName files).result = .ok report) :
    ∃ s : Store, s.Consistent ∧ Store.KeepsSessions e.store s ∧
      List.Forall₂ (MetricReport.IsOn request.nowMs) (e.store.dueSessions e.settings request)
        report.sessions ∧
      (s.without ((e.store.dueSessions e.settings request).map (·.id))).Consistent ∧
      (s.without ((e.store.dueSessions e.settings request).map (·.id))).TidiedInto
        e.settings.retention request.nowMs (e.collect request exportName files).engine.store := by
  obtain ⟨path, p₁, p₂, p₃, hhourly, hs₁, hdaily, hs₂, hsessions, hs₃, htidied, -⟩ :=
    collect_stages hs h
  have hkeeps : Store.KeepsSessions e.store p₂.store :=
    ((Collecting.hourly_keepsUnhourly hs hhourly).trans
      (Collecting.daily_keepsUnhourly hs₁ hdaily)).keepsSessions
  obtain ⟨hon, hseen⟩ := Collecting.sessions_cases hs₂.undamaged hsessions
  rw [hkeeps.dueSessions_eq] at hon hseen
  have hs₃' : (p₂.store.without ((e.store.dueSessions e.settings request).map (·.id))).Consistent := by
    obtain ⟨kept, hp₃⟩ := hseen
    rw [hp₃] at hs₃
    exact hs₃.of_eq rfl rfl rfl rfl
  exact ⟨p₂.store, hs₂, hkeeps, hon, hs₃', htidied.of_seenAs hseen⟩

/-- What a collection has done to the sessions of a store, where it knows which ones are due. -/
structure Store.SessionsSettled (settings : Settings) (request : CollectRequest)
    (before after : Store) (reports : List MetricReport) : Prop where
  sorted : (before.dueSessions settings request).Pairwise fun a b =>
    a.startMs < b.startMs ∨ a.startMs = b.startMs ∧ a.id < b.id
  /-- They are reported on one by one, in this order. -/
  reported : List.Forall₂ (MetricReport.IsOn request.nowMs) (before.dueSessions settings request)
    reports
  gone : ∀ r ∈ before.dueSessions settings request, Store.Gone r.id before after
  /-- Every other session stays open with what it holds. -/
  others : ∀ r ∈ before.reports.rows, r.kind = .session →
    r ∉ before.dueSessions settings request →
      r.endMs = none ∧ after.contentOf r.id = before.contentOf r.id
  /-- It stays itself, unless it has no metric left and is old. -/
  stays : ∀ r ∈ before.reports.rows, r.kind = .session →
    r ∉ before.dueSessions settings request →
      (r ∈ after.reports.rows ↔ ¬(after.metricRowsOf r.id = [] ∧
        r.startMs < request.nowMs - settings.retention.orphanReportExpiry))
  /-- There are no new ones. -/
  known : ∀ r ∈ after.reports.rows, r.kind = .session → r ∈ before.reports.rows

/-- A collection that succeeds reports exactly on the sessions that are due, and removes them. -/
theorem Engine.collect_settled (hs : e.store.Consistent)
    (h : (e.collect request exportName files).result = .ok report) :
    Store.SessionsSettled e.settings request e.store
      (e.collect request exportName files).engine.store report.sessions := by
  obtain ⟨s, hs₂, hkeeps, hon, hs₃, htidied⟩ := collect_sessions hs h
  have hids : ∀ r ∈ e.store.reports.rows,
      r.id ∈ (e.store.dueSessions e.settings request).map (·.id) →
      r ∈ e.store.dueSessions e.settings request := by
    intro r hr hid
    obtain ⟨x, hx, hxr⟩ := List.mem_map.1 hid
    rwa [← hs.report_eq (Store.mem_dueSessions.1 hx).1 hr hxr]
  refine ⟨hs.dueSessions_sorted, hon, ?_, ?_, ?_, ?_⟩
  · intro r hr
    have hgone : r.id ∈ (e.store.dueSessions e.settings request).map (·.id) :=
      List.mem_map_of_mem hr
    obtain ⟨hrs, hdue⟩ := Store.mem_dueSessions.1 hr
    have hsame := hkeeps.same r hrs (Store.of_isDue hdue)
    constructor
    · intro x hx hid
      exact (Store.mem_reports_without.1 (htidied.mem_reports.1 hx).1).2 (hid ▸ hgone)
    · refine List.filter_eq_nil_iff.2 fun m hm hid => ?_
      exact (Store.mem_metrics_without.1 (htidied.mem_metrics.1 hm).1).2 (beq_iff_eq.1 hid ▸ hgone)
    · intro m hm
      rw [← hsame.metrics] at hm
      obtain ⟨hm, hreport⟩ := Store.mem_metricRowsOf.1 hm
      refine List.filter_eq_nil_iff.2 fun v hv hid => ?_
      have hkept := (Store.mem_values_without.1 (htidied.mem_values.1 hv).1).2
      exact hkept m hm (beq_iff_eq.1 hid).symm (hreport ▸ hgone)
  · intro r hr hkind hnot
    have hnotdue : r.isDue e.settings request = false := by
      rw [← Bool.not_eq_true]
      exact fun hdue => hnot (Store.mem_dueSessions.2 ⟨hr, hdue⟩)
    have hsame := (hkeeps.same r hr hkind).trans
      (hs₂.sameReport_without fun hid => hnot (hids r hr hid))
    refine ⟨Store.open_of_not_due hkind hnotdue, Eq.trans ?_ hsame.contentOf_eq⟩
    refine htidied.contentOf_eq hs₃ fun x hx hid => ?_
    obtain ⟨hx, hdaily⟩ := Store.of_daily? hx
    rw [hs₃.report_eq hx ((hsame.mem_reports rfl).2 hr) hid, hkind] at hdaily
    cases hdaily
  · intro r hr hkind hnot
    have hsame := (hkeeps.same r hr hkind).trans
      (hs₂.sameReport_without fun hid => hnot (hids r hr hid))
    rw [htidied.mem_reports, and_iff_right ((hsame.mem_reports rfl).2 hr)]
  · intro r hr hkind
    have hr := (Store.mem_reports_without.1 (htidied.mem_reports.1 hr).1).1
    exact (hkeeps.mem_reports hkind).1 hr

theorem ReportRow.isDue_iff {settings : Settings} {r : ReportRow}
    (hnow : fitsInt64 request.nowMs = true) (hstart : fitsInt64 r.startMs = true)
    (hexpiry : fitsInt64 settings.retention.sessionExpiry = true) :
    r.isDue settings request = true ↔ r.kind = .session ∧ (r.endMs ≠ none ∨
      settings.retention.sessionExpiry < request.nowMs - r.startMs ∨
        request.endSessions = true) := by
  rw [isDue, Bool.and_eq_true, beq_iff_eq, Bool.or_eq_true, Bool.or_eq_true,
    isOlder_iff hnow hstart hexpiry, Option.isSome_iff_ne_none, or_assoc, or_comm (b := _ < _)]

/-- Due are the sessions that have ended, are too old, or are to be ended; on these and no others a
collection reports, and it removes them. -/
theorem Engine.collect_settles (he : e.Reachable)
    (hnow : fitsInt64 request.nowMs = true)
    (hstarts : ∀ r ∈ e.store.reports.rows, fitsInt64 r.startMs = true)
    (hexpiry : fitsInt64 e.settings.retention.sessionExpiry = true)
    (h : (e.collect request exportName files).result = .ok report) :
    (∀ r, r ∈ e.store.dueSessions e.settings request ↔
      r ∈ e.store.reports.rows ∧ r.kind = .session ∧ (r.endMs ≠ none ∨
        e.settings.retention.sessionExpiry < request.nowMs - r.startMs ∨
          request.endSessions = true)) ∧
    Store.SessionsSettled e.settings request e.store
      (e.collect request exportName files).engine.store report.sessions := by
  refine ⟨fun r => ?_, collect_settled he.consistent h⟩
  rw [Store.mem_dueSessions]
  exact and_congr_right fun hr => ReportRow.isDue_iff hnow (hstarts r hr) hexpiry

/-- Of two open sessions the one that is too old is reported on, and the other one stays. -/
theorem Engine.collect_settles_old :
    let e := (⟨default, none, .empty⟩ : Engine).run [.startSession "old" 3, .startSession "young" 4]
    let request := CollectRequest.atTime (4 + dayMs)
    (e.store.dueSessions e.settings request).map (·.name) = [some "old"] ∧
      ∃ report, (e.collect request "x" default).result = .ok report ∧
        Store.SessionsSettled e.settings request e.store
          (e.collect request "x" default).engine.store report.sessions := by
  intro e request
  have he : e.Reachable := ⟨default, none, ⟨default, none, .empty⟩, _, rfl, rfl⟩
  have hok : (e.collect request "x" default).result.isOk = true := by decide +kernel
  refine ⟨by decide +kernel, ?_⟩
  cases hresult : (e.collect request "x" default).result with
  | error err =>
    rw [hresult] at hok
    cases hok
  | ok report =>
    exact ⟨report, rfl, (collect_settles he (by decide) (by decide +kernel) (by decide) hresult).2⟩

end Telemetry
