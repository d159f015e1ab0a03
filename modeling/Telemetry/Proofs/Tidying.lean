import Telemetry.Proofs.Due
import Telemetry.Proofs.Succession

/-!
# What a collection leaves

After the hourly stage rows are only removed.  The daily stage removes the hourly reports that have
ended, or none of them; the session stage removes the sessions that are due; the last stage removes
single values, and then what is empty.  Each is described here by what is left of the tables.
-/

namespace Telemetry

theorem any_eq_filter {α : Type} (l : List α) (p : α → Bool) : l.any p = !(l.filter p).isEmpty := by
  rw [Bool.eq_iff_iff, List.any_eq_true, Bool.not_eq_true', List.isEmpty_eq_false_iff, Ne,
    List.filter_eq_nil_iff]
  simp only [not_forall, not_not, exists_prop]

namespace Store

/-- The hourly reports that have ended, by start. -/
def endedHourlies (s : Store) : List ReportRow :=
  (s.reports.rows.filter (·.isEnded .hourly)).mergeSort ReportRow.precedes

def daily? (s : Store) : Option ReportRow := s.reports.rows.find? (·.isOpenAs .daily none)

/-- Is this a value of the daily accumulator from before a time? -/
def isOutdated (s : Store) (cutoff : Int) (v : ValueRow) : Bool :=
  decide (v.timeMs < cutoff) && s.daily?.any fun r => s.ownedBy [r.id] v

/-- The second store is what the last stage leaves of the first one. -/
structure TidiedInto (ages : RetentionSettings) (now : Int) (s s' : Store) : Prop where
  values : s'.values.rows =
    s.values.rows.filter fun v => !s.isOutdated (now - ages.accumulatorRetention) v
  metrics : s'.metrics.rows =
    s.metrics.rows.filter fun m => !(s'.valuesOf m.id).isEmpty
  reports : s'.reports.rows =
    s.reports.rows.filter fun r => !(s'.metricRowsOf r.id).isEmpty ||
      decide (now - ages.orphanReportExpiry ≤ r.startMs)

variable {s s' : Store} {ids : List Int}

theorem mem_endedHourlies {r : ReportRow} :
    r ∈ s.endedHourlies ↔ r ∈ s.reports.rows ∧ r.isEnded .hourly = true := by
  rw [endedHourlies, List.mem_mergeSort, List.mem_filter]

theorem of_daily? {r : ReportRow} (h : s.daily? = some r) :
    r ∈ s.reports.rows ∧ r.kind = .daily := by
  obtain ⟨hr, hkind, -⟩ := Collecting.of_find_open h
  exact ⟨hr, hkind⟩

/-- What is outdated is an old value of the daily accumulator. -/
theorem Consistent.isOutdated_iff (hs : s.Consistent) {cutoff : Int} {v : ValueRow} {m : MetricRow}
    (hm : m ∈ s.metrics.rows) (hvm : m.id = v.metricId) {r : ReportRow} (hr : r ∈ s.reports.rows)
    (hmr : m.reportId = r.id) :
    s.isOutdated cutoff v = true ↔ r.kind = .daily ∧ v.timeMs < cutoff := by
  constructor
  · intro hold
    rw [isOutdated, Bool.and_eq_true, decide_eq_true_eq, Option.any_eq_true] at hold
    obtain ⟨hold, x, hx, howned⟩ := hold
    obtain ⟨m', hm', hvm', hmx⟩ := ownedBy_iff.1 howned
    rw [hs.metric_eq hm' hm (hvm'.trans hvm.symm), List.mem_singleton, hmr] at hmx
    obtain ⟨hx, hkind⟩ := of_daily? hx
    rw [hs.report_eq hx hr hmx.symm] at hkind
    exact ⟨hkind, hold⟩
  · rintro ⟨hkind, hold⟩
    have hdaily : s.daily? = some r := hs.find_open hr
      (ReportRow.isOpenAs_iff.2 ⟨hkind, hs.unnamed hr (by simp [hkind]), hs.dailyOpen r hr hkind⟩)
    have howned : s.ownedBy [r.id] v = true := ownedBy_iff.2 ⟨m, hm, hvm, by simp [hmr]⟩
    rw [isOutdated, hdaily, Option.any_some, howned, decide_eq_true hold]
    rfl

/-- What a report holds: its metrics that have values, with these. -/
def contentOf (s : Store) (id : Int) : List (MetricRow × List ValueRow) :=
  ((s.metricRowsOf id).map fun m => (m, s.valuesOf m.id)).filter fun c => !c.2.isEmpty

theorem SameReport.contentOf_eq {id : Int} (h : SameReport id s s') :
    s'.contentOf id = s.contentOf id := by
  have hpairs : (s.metricRowsOf id).map (fun m => (m, s'.valuesOf m.id)) =
      (s.metricRowsOf id).map fun m => (m, s.valuesOf m.id) :=
    List.map_congr_left fun m hm => by rw [h.values m hm]
  rw [contentOf, h.metrics, hpairs, contentOf]

namespace TidiedInto

variable {ages : RetentionSettings} {now id : Int}

theorem of_seenAs {s₁ : Store} (h : s₁.TidiedInto ages now s') (hseen : s.SeenAs s₁) :
    s.TidiedInto ages now s' := by
  obtain ⟨kept, rfl⟩ := hseen
  exact ⟨h.values, h.metrics, h.reports⟩

theorem mem_reports (h : s.TidiedInto ages now s') {r : ReportRow} :
    r ∈ s'.reports.rows ↔ r ∈ s.reports.rows ∧
      ¬(s'.metricRowsOf r.id = [] ∧ r.startMs < now - ages.orphanReportExpiry) := by
  rw [h.reports, List.mem_filter, Bool.or_eq_true, decide_eq_true_eq, Bool.not_eq_true',
    List.isEmpty_eq_false_iff, not_and, not_lt, Ne, ← imp_iff_not_or]

theorem mem_values (h : s.TidiedInto ages now s') {v : ValueRow} :
    v ∈ s'.values.rows ↔
      v ∈ s.values.rows ∧ s.isOutdated (now - ages.accumulatorRetention) v = false := by
  rw [h.values, List.mem_filter, Bool.not_eq_true']

theorem mem_metrics (h : s.TidiedInto ages now s') {m : MetricRow} :
    m ∈ s'.metrics.rows ↔ m ∈ s.metrics.rows ∧ s'.valuesOf m.id ≠ [] := by
  rw [h.metrics, List.mem_filter, Bool.not_eq_true', List.isEmpty_eq_false_iff]

/-- A metric keeps its values, unless it is one of the daily accumulator's. -/
theorem valuesOf_eq (h : s.TidiedInto ages now s') (hs : s.Consistent) {m : MetricRow}
    (hm : m ∈ s.metrics.rows) (hnot : ∀ r, s.daily? = some r → r.id ≠ m.reportId) :
    s'.valuesOf m.id = s.valuesOf m.id := by
  rw [Store.valuesOf, h.values]
  refine filter_filter_of_imp fun v _ hid => ?_
  rw [Bool.not_eq_true', ← Bool.not_eq_true, isOutdated, Bool.and_eq_true, Option.any_eq_true]
  rintro ⟨-, r, hr, howned⟩
  obtain ⟨m', hm', hvm, hreport⟩ := ownedBy_iff.1 howned
  rw [hs.metric_eq hm' hm (hvm.trans (beq_iff_eq.1 hid)), List.mem_singleton] at hreport
  exact hnot r hr hreport.symm

theorem metricRowsOf_eq (h : s.TidiedInto ages now s') (hs : s.Consistent)
    (hnot : ∀ r, s.daily? = some r → r.id ≠ id) :
    s'.metricRowsOf id = (s.metricRowsOf id).filter fun m => !(s.valuesOf m.id).isEmpty := by
  rw [Store.metricRowsOf, h.metrics, List.filter_comm]
  refine List.filter_congr fun m hm => ?_
  obtain ⟨hm, hid⟩ := mem_metricRowsOf.1 hm
  rw [h.valuesOf_eq hs hm fun r hr => hid ▸ hnot r hr]

/-- A report keeps what it holds, unless it is the daily accumulator. -/
theorem contentOf_eq (h : s.TidiedInto ages now s') (hs : s.Consistent)
    (hnot : ∀ r, s.daily? = some r → r.id ≠ id) : s'.contentOf id = s.contentOf id := by
  have hpairs : (s'.metricRowsOf id).map (fun m => (m, s'.valuesOf m.id)) =
      (s'.metricRowsOf id).map fun m => (m, s.valuesOf m.id) := by
    refine List.map_congr_left fun m hm => ?_
    obtain ⟨hm, hreport⟩ := mem_metricRowsOf.1 hm
    rw [h.valuesOf_eq hs (h.mem_metrics.1 hm).1 fun r hr => hreport ▸ hnot r hr]
  rw [contentOf, hpairs, h.metricRowsOf_eq hs hnot, contentOf, List.filter_map, List.filter_filter,
    List.filter_map]
  congr 2
  funext m
  exact Bool.and_self _

end TidiedInto

end Store

namespace Collecting

variable {settings : Settings} {request : CollectRequest} {p p' : Progress}

/-! ### The daily stage -/

theorem of_metricsOfAll (ids : List Int) :
    ∀ {p p' : Progress} {rows : List (List MetricRow)}, p.store.Undamaged →
      Yields (metricsOfAll ids) p rows p' → rows = ids.map p.store.metricRowsOf := by
  induction ids with
  | nil =>
    intro p p' rows _ h
    obtain ⟨rfl, -⟩ := yields_pure.1 h
    rfl
  | cons id ids ih =>
    intro p p' rows hs h
    obtain ⟨own, p₁, hown, h⟩ := yields_bind.1 h
    obtain ⟨rest, p₂, hrest, h⟩ := yields_bind.1 h
    obtain ⟨rfl, -⟩ := yields_pure.1 h
    have hseen := looksOn_metricsOf _ _ _ _ hown
    rw [of_metricsOf hs hown, ih (hseen.undamaged hs) hrest, List.map_cons]
    obtain ⟨kept, hp₁⟩ := hseen
    rw [hp₁]
    rfl

/-- The summary of the hourly reports that have ended, as one daily report. -/
def SummarizesDay (settings : Settings) (now : Int) (s : Store) (m : MetricReport) : Prop :=
  ∃ s₁ s₂, s.SeenAs s₁ ∧
    Yields ((MetricReport.empty .daily none (span now s.endedHourlies)
        (s.endedHourlies.getLast?.bind (·.softwareVersion))).summarize settings.paging
        (span now s.endedHourlies)
        (mergeMetrics (s.endedHourlies.map fun r => s.metricRowsOf r.id))) s₁ m s₂

/-- The daily stage keeps all hourly reports that have ended, drops them, or reports on all of them
and removes them then. -/
theorem daily_cases {report : Option MetricReport} (hs : p.store.Undamaged)
    (h : Yields (daily settings request) p report p') :
    (report = none ∧ p' = p ∧
      (p.store.endedHourlies = [] ∨ request.dailyEnabled = true ∧
        (span request.nowMs p.store.endedHourlies).durationMs < settings.retention.dailySpan)) ∨
    (p.store.without (p.store.endedHourlies.map (·.id))).SeenAs p'.store ∧
      p.store.endedHourlies ≠ [] ∧
      (report = none ∧ request.dailyEnabled = false ∨
        ∃ m summary, report = some m ∧ (request.dailyEnabled = true ∧ settings.retention.dailySpan ≤
            (span request.nowMs p.store.endedHourlies).durationMs) ∧
          SummarizesDay settings request.nowMs p.store summary ∧
          (request.derivation = none → m = summary)) := by
  obtain ⟨ended, p₁, hask, h⟩ := yields_bind.1 h
  obtain ⟨hended, rfl⟩ := yields_ask.1 hask
  rw [Store.endedReports_eq hs, Except.ok.injEq] at hended
  obtain rfl : p.store.endedHourlies = ended := hended
  split at h
  · next hempty =>
    obtain ⟨rfl, rfl⟩ := yields_pure.1 h
    exact .inl ⟨rfl, rfl, .inl (List.isEmpty_iff.1 hempty)⟩
  next hsome =>
  have hsome : p.store.endedHourlies ≠ [] := fun hempty => hsome (List.isEmpty_iff.2 hempty)
  split at h
  · next hoff =>
    obtain ⟨u, p₂, hdelete, h⟩ := yields_bind.1 h
    obtain ⟨rfl, rfl⟩ := yields_pure.1 h
    rw [deleteAll_without _ hs hdelete]
    exact .inr ⟨.refl _, hsome, .inl ⟨rfl, by simpa using hoff⟩⟩
  next hon =>
  have hon : request.dailyEnabled = true := by simpa using hon
  simp only at h
  split at h
  · next hshort =>
    obtain ⟨rfl, rfl⟩ := yields_pure.1 h
    exact .inl ⟨rfl, rfl, .inr ⟨hon, hshort⟩⟩
  · next hlong =>
    obtain ⟨rows, p₂, hmetrics, h⟩ := yields_bind.1 h
    obtain ⟨summary, p₃, hsummary, h⟩ := yields_bind.1 h
    obtain ⟨⟨m, derived⟩, p₄, hderive, h⟩ := yields_bind.1 h
    obtain ⟨u, p₅, hdelete, h⟩ := yields_bind.1 h
    obtain ⟨rfl, rfl⟩ := yields_pure.1 h
    have hseen₂ := looksOn_metricsOfAll _ _ _ _ hmetrics
    have hseen := (hseen₂.trans (looksOn_summarize _ _ _ _ _ _ _ _ _ hsummary)).trans
      (looksOn_derive _ _ _ _ _ hderive)
    rw [deleteAll_without _ (hseen.undamaged hs) hdelete]
    refine .inr ⟨Store.without_seenAs hseen _, hsome,
      .inr ⟨m, summary, rfl, ⟨hon, not_lt.1 hlong⟩, ?_, ?_⟩⟩
    · obtain ⟨s, hsummarize, -⟩ := yields_run.1 hsummary
      have hrows := of_metricsOfAll _ hs hmetrics
      rw [List.map_map] at hrows
      subst hrows
      exact ⟨p₂.store, s, hseen₂, hsummarize⟩
    · intro hnone
      unfold Yields outcome derive at hderive
      rw [hnone] at hderive
      cases hderive
      rfl

/-! ### The last stage -/

theorem retain_tidies {now : Int} {s s' : Store} {u : Unit} (hs : s.Undamaged)
    (h : Yields (retain settings now) s u s') :
    s.TidiedInto settings.retention now s' := by
  -- once the values of the accumulator are deleted, what is empty goes
  have hrest : ∀ s₁ : Store, Yields (do
        Transaction.change (·.deleteOrphanMetrics)
        Transaction.change
          (·.deleteOrphanReports (now - settings.retention.orphanReportExpiry))) s₁ u s' →
      s₁.Undamaged → s₁.metrics = s.metrics → s₁.reports = s.reports →
      s₁.values.rows = s.values.rows.filter (fun v =>
        !s.isOutdated (now - settings.retention.accumulatorRetention) v) →
      s.TidiedInto settings.retention now s' := by
    intro s₁ h hs₁ hmetrics hreports hvalues
    obtain ⟨v, s₂, horphans, h⟩ := yields_bind.1 h
    have hs₂ := Store.deleteOrphanMetrics_eq_ok hs₁ (Transaction.yields_change.1 horphans)
    have hs' := Store.deleteOrphanReports_eq_ok (by rw [hs₂]; exact hs₁)
      (Transaction.yields_change.1 h)
    have hkept : s'.metrics = s₂.metrics ∧ s'.values = s₁.values := by
      rw [hs', hs₂]
      exact ⟨rfl, rfl⟩
    refine ⟨hkept.2 ▸ hvalues, ?_, ?_⟩
    · rw [hkept.1, hs₂, ← hmetrics]
      refine List.filter_congr fun m _ => ?_
      rw [Store.valuesOf, hkept.2, ← any_eq_filter, Bool.not_not]
    · have hrows : s'.reports.rows = s.reports.rows.filter fun r =>
          !(!s₂.metrics.rows.any (·.reportId == r.id) &&
            r.startsBefore (now - settings.retention.orphanReportExpiry)) := by
        rw [hs', hs₂, ← hreports]
        rfl
      rw [hrows]
      refine List.filter_congr fun r _ => ?_
      rw [Store.metricRowsOf, hkept.1, ← any_eq_filter]
      simp only [Bool.not_and, Bool.not_not, ReportRow.startsBefore, ← decide_not, not_lt]
  unfold retain at h
  obtain ⟨accumulator, s₁, hlook, h⟩ := yields_bind.1 h
  obtain ⟨hopen, rfl⟩ := Transaction.yields_query.1 hlook
  rw [Store.openReport?_eq hs, Except.ok.injEq] at hopen
  have hopen : s.daily? = accumulator := hopen
  cases accumulator with
  | none =>
    refine hrest s h hs rfl rfl ?_
    simp [Store.isOutdated, hopen]
  | some r =>
    obtain ⟨v, s₂, hvalues, h⟩ := yields_bind.1 h
    obtain rfl := Store.deleteValuesBefore_eq_ok hs (Transaction.yields_change.1 hvalues)
    refine hrest _ h hs rfl rfl ?_
    refine List.filter_congr fun v _ => ?_
    rw [Store.isOutdated, hopen, Option.any_some, Store.ownedBy_singleton]

end Collecting

/-! ### Stage by stage -/

/-- What a collection that succeeds goes through. -/
theorem Engine.collect_stages {e : Engine} (hs : e.store.Consistent) {request : CollectRequest}
    {exportName : String} {files : Files} {report : CustomReport}
    (h : (e.collect request exportName files).result = .ok report) :
    ∃ path p₁ p₂ p₃,
      Yields (Collecting.hourly e.settings e.softwareVersion request exportName)
        ⟨e.store, files, []⟩ (report.hourly, path) p₁ ∧ p₁.store.Consistent ∧
      Yields (Collecting.daily e.settings request) p₁ report.daily p₂ ∧ p₂.store.Consistent ∧
      Yields (Collecting.sessions e.settings request) p₂ report.sessions p₃ ∧
      p₃.store.Consistent ∧
      p₃.store.TidiedInto e.settings.retention request.nowMs
        (e.collect request exportName files).engine.store ∧
      Store.Steps .everything p₁.store (e.collect request exportName files).engine.store ∧
      ∀ id, Store.Settled id p₁.store →
        Store.SameReport id p₁.store (e.collect request exportName files).engine.store := by
  obtain ⟨_, hourly, path, p₁, p₄, hresult, hhourly, hothers, heq⟩ | ⟨err, s, herr, -⟩ :=
    collect_cases hs.undamaged request exportName files
  swap
  · rw [herr] at h
    cases h
  rw [hresult, Except.ok.injEq] at h
  have hs₁ := (Collecting.hourly_steps hs hhourly).consistent hs
  have hsteps := Collecting.others_steps .everything hs₁ (fun _ => trivial) hothers
  have hsettled : ∀ id, Store.Settled id p₁.store → Store.SameReport id p₁.store p₄.store :=
    fun id hset => Collecting.others_sameReport hs₁ hset hothers
  rw [heq, withStore_eq (hsteps.consistent hs₁).undamaged]
  obtain ⟨daily, p₂, hdaily, hothers⟩ := yields_bind.1 hothers
  obtain ⟨sessions, p₃, hsessions, hothers⟩ := yields_bind.1 hothers
  obtain ⟨u, p₅, hrun, hothers⟩ := yields_bind.1 hothers
  obtain ⟨rfl, rfl⟩ := yields_pure.1 hothers
  obtain ⟨s, hretain, rfl⟩ := Collecting.yields_run.1 hrun
  have hs₂ := (Collecting.daily_steps .everything hs₁ (fun _ _ _ => trivial) hdaily).consistent hs₁
  have hs₃ := (Collecting.sessions_steps .everything hs₂ (fun _ _ _ => trivial)
    hsessions).consistent hs₂
  subst h
  exact ⟨path, p₁, p₂, p₃, hhourly, hs₁, hdaily, hs₂, hsessions, hs₃,
    Collecting.retain_tidies hs₃.undamaged hretain, hsteps, hsettled⟩

end Telemetry
