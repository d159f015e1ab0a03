import Telemetry.Proofs.Counting
import Telemetry.Proofs.Grouping
import Telemetry.Proofs.Tidying

/-!
# Counting over merged reports

Where reports are merged, a name's metrics become one group, unless they disagree on what the metric
is.  The values are then counted metric by metric, each from the start of its own report on, so the
count of the daily report is made up of one count for every merged report.
-/

namespace Telemetry

/-! ### Groups -/

def idsNamed (name : String) (rows : List MetricRow) : List Int :=
  (rows.filter (·.spec.eventName == name)).map (·.id)

theorem of_mem_mergeMetrics {reports : List (List MetricRow)} {g : MetricGroup}
    (hg : g ∈ mergeMetrics reports) :
    g.metricIds = idsNamed g.spec.eventName reports.flatten :=
  (mergeMetrics_knows hg).of_agreed.2

theorem mergeMetrics_distinct (reports : List (List MetricRow)) :
    (mergeMetrics reports).Pairwise fun a b => a.spec.eventName ≠ b.spec.eventName :=
  (mergeMetrics_sorted reports).imp String.ne_of_lt

/-- Where all metrics of a name say the same, there is a group of this name. -/
theorem exists_mem_mergeMetrics {reports : List (List MetricRow)} {spec : MetricSpec}
    (hsame : ∀ m ∈ reports.flatten, m.spec.eventName = spec.eventName → m.spec = spec)
    {m : MetricRow} (hm : m ∈ reports.flatten) (hname : m.spec.eventName = spec.eventName) :
    ∃ g ∈ mergeMetrics reports, g.spec = spec := by
  have hagree : AgreeOn spec.eventName reports.flatten := by
    intro a ha b hb hna hnb
    rw [hsame a ha hna, hsame b hb hnb]
    exact ⟨rfl, rfl⟩
  obtain ⟨g, hg, hgname⟩ := exists_group_iff.2 ⟨⟨m, hm, hname⟩, hagree⟩
  obtain ⟨last, hlast, hspec⟩ := Option.map_eq_some_iff.1 (mergeMetrics_knows hg).of_agreed.1
  obtain ⟨hmem, hlastname⟩ := mem_rowsNamed.1 (List.mem_of_getLast? hlast)
  exact ⟨g, hg, hspec.symm.trans (hsame last hmem (hlastname.trans hgname))⟩

/-! ### Spans -/

namespace Collecting

variable {now : Int} {reports : List ReportRow} {r : ReportRow}

theorem span_start_le (hr : r ∈ reports) : (span now reports).startMs ≤ r.startMs := by
  have hmem : r.startMs ∈ reports.map (·.startMs) := List.mem_map_of_mem hr
  cases hmin : (reports.map (·.startMs)).min? with
  | none =>
    rw [List.min?_eq_none_iff.1 hmin] at hmem
    cases hmem
  | some t =>
    rw [span, hmin]
    exact (List.min?_eq_some_iff.1 hmin).2 _ hmem

theorem le_span_end (hr : r ∈ reports) {t : Int} (ht : r.endMs = some t) :
    t ≤ (span now reports).endMs := by
  have hmem : t ∈ reports.filterMap (·.endMs) := List.mem_filterMap.2 ⟨r, hr, ht⟩
  cases hmax : (reports.filterMap (·.endMs)).max? with
  | none =>
    rw [List.max?_eq_none_iff.1 hmax] at hmem
    cases hmem
  | some t' =>
    rw [span, hmax]
    exact (List.max?_eq_some_iff.1 hmax).2 _ hmem

theorem le_span_start (hr : r ∈ reports) {t : Int} (h : ∀ x ∈ reports, t ≤ x.startMs) :
    t ≤ (span now reports).startMs := by
  cases hmin : (reports.map (·.startMs)).min? with
  | none =>
    rw [List.min?_eq_none_iff, List.map_eq_nil_iff] at hmin
    rw [hmin] at hr
    cases hr
  | some t' =>
    rw [span, hmin]
    obtain ⟨x, hx, rfl⟩ := List.mem_map.1 (List.min?_eq_some_iff.1 hmin).1
    exact h x hx

theorem span_end_le (hr : r ∈ reports) {t t' : Int} (hend : r.endMs = some t')
    (h : ∀ x ∈ reports, ∀ e, x.endMs = some e → e ≤ t) : (span now reports).endMs ≤ t := by
  cases hmax : (reports.filterMap (·.endMs)).max? with
  | none =>
    have hmem : t' ∈ reports.filterMap (·.endMs) := List.mem_filterMap.2 ⟨r, hr, hend⟩
    rw [List.max?_eq_none_iff.1 hmax] at hmem
    cases hmem
  | some e =>
    rw [span, hmax]
    obtain ⟨x, hx, hxend⟩ := List.mem_filterMap.1 (List.max?_eq_some_iff.1 hmax).1
    exact h x hx e hxend

/-- What lies within a window spans no longer time. -/
theorem span_durationMs_le (hr : r ∈ reports) {t t' : Int}
    (h : ∀ x ∈ reports, t ≤ x.startMs ∧ ∃ e, x.endMs = some e ∧ e ≤ t') :
    (span now reports).durationMs ≤ t' - t := by
  obtain ⟨-, e, hend, -⟩ := h r hr
  have hstart : t ≤ (span now reports).startMs := le_span_start hr fun x hx => (h x hx).1
  have hle : (span now reports).endMs ≤ t' := by
    refine span_end_le hr hend fun x hx e' he' => ?_
    obtain ⟨-, e, he, hle⟩ := h x hx
    rw [he', Option.some.injEq] at he
    exact he.trans_le hle
  rw [Window.durationMs]
  omega

end Collecting

/-! ### The count of a day -/

namespace Store

variable {s : Store}

theorem Consistent.endedHourlies_distinct (hs : s.Consistent) :
    s.endedHourlies.Pairwise fun a b => a.id ≠ b.id :=
  (List.mergeSort_perm _ _).symm.pairwise
    ((hs.reportsNumbered.increasing.filter _).imp fun hlt => ne_of_lt hlt) fun h => h.symm

/-- A report has no more than one metric of a name. -/
theorem Consistent.filter_metricRowsOf (hs : s.Consistent) (id : Int) (name : String) :
    (s.metricRowsOf id).filter (·.spec.eventName == name) = (s.metric? id name).toList := by
  rw [← filter_metrics]
  exact filter_of_countP_le_one (hs.oneNamed id name)

theorem Consistent.idsNamed_nodup (hs : s.Consistent) {reports : List ReportRow}
    (hdistinct : reports.Pairwise fun a b => a.id ≠ b.id) (name : String) :
    (idsNamed name (reports.map fun r => s.metricRowsOf r.id).flatten).Nodup := by
  have hrows : ∀ m ∈ (reports.map fun r => s.metricRowsOf r.id).flatten, m ∈ s.metrics.rows := by
    intro m hm
    obtain ⟨rows, hrows, hm⟩ := List.mem_flatten.1 hm
    obtain ⟨r, -, rfl⟩ := List.mem_map.1 hrows
    exact (mem_metricRowsOf.1 hm).1
  refine List.Nodup.map_on (fun m hm m' hm' hid => ?_) (List.Nodup.filter _ ?_)
  · exact hs.metric_eq (hrows m (List.mem_filter.1 hm).1) (hrows m' (List.mem_filter.1 hm').1) hid
  · rw [List.nodup_flatten]
    refine ⟨fun rows hrows => ?_, List.pairwise_map.2 (hdistinct.imp fun hne m hm hm' => ?_)⟩
    · obtain ⟨r, -, rfl⟩ := List.mem_map.1 hrows
      exact (hs.metricRowsOf_distinct r.id).imp fun hne heq => hne (by rw [heq])
    · exact hne ((mem_metricRowsOf.1 hm).2.symm.trans (mem_metricRowsOf.1 hm').2)

/-- The numbers of a name, from the report's own time on. -/
def countFrom (s : Store) (endMs : Int) (name : String) (r : ReportRow) : Nat :=
  (s.seriesOf r.id name).countP (Window.counts ⟨r.startMs, endMs⟩)

/-- The count of a name in a daily report is made up of those of its reports. -/
theorem count_merged (hs : s.Consistent) {reports : List ReportRow}
    (hmem : ∀ r ∈ reports, r ∈ s.reports.rows)
    (hdistinct : reports.Pairwise fun a b => a.id ≠ b.id) {g : MetricGroup}
    (hg : g ∈ mergeMetrics (reports.map fun r => s.metricRowsOf r.id)) {now : Int}
    {summary : NumberSummary}
    (h : s.summarizeNumbers (g.numbersQuery (Collecting.span now reports)) = .ok summary) :
    summary.count = (reports.map
      (s.countFrom (Collecting.span now reports).endMs g.spec.eventName)).sum := by
  have hids := of_mem_mergeMetrics hg
  have hnodup : g.metricIds.Nodup := by
    rw [hids]
    exact hs.idsNamed_nodup hdistinct g.spec.eventName
  -- metric by metric comes to report by report
  have hflat : g.metricIds =
      reports.flatMap fun r => (s.metric? r.id g.spec.eventName).toList.map (·.id) := by
    rw [hids, idsNamed, List.filter_flatten, List.map_flatten, List.map_map, List.map_map,
      List.flatMap_def]
    congr 1
    refine List.map_congr_left fun r _ => ?_
    rw [Function.comp_apply, Function.comp_apply, hs.filter_metricRowsOf]
  have howned : ∀ r ∈ reports, ∀ m, s.metric? r.id g.spec.eventName = some m →
      m.id ∈ g.metricIds := by
    intro r hr m hm
    rw [hflat]
    exact List.mem_flatMap.2 ⟨r, hr, by simp [hm]⟩
  rw [count_summarizeNumbers hs (by exact hnodup) h]
  change (g.metricIds.map fun id => (s.valuesOf id).countP fun v => v.value.asNumber?.isSome &&
    s.admitsOwned (g.numbersQuery (Collecting.span now reports)) v).sum = _
  rw [hflat, List.map_flatMap, List.flatMap_def, List.sum_flatten, List.map_map]
  congr 1
  refine List.map_congr_left fun r hr => ?_
  rw [Function.comp_apply, List.map_map, countFrom, seriesOf]
  cases hm : s.metric? r.id g.spec.eventName with
  | none => rfl
  | some m =>
    obtain ⟨hmrow, hid, -⟩ := of_metric? hm
    rw [Option.toList_some, List.map_singleton, List.sum_singleton, Option.elim_some]
    exact countP_numbersQuery hs hmrow (hmem r hr) hid (howned r hr m hm)
      (Collecting.span_start_le hr)

end Store

/-- A count that stands in a daily report is made up of one for every hourly report. -/
theorem Collecting.SummarizesDay.countOf_eq {settings : Settings} {now : Int} {s : Store}
    {d : MetricReport} (h : SummarizesDay settings now s d) (hs : s.Consistent) {name : String}
    (hcount : ¬d.Lacks name) :
    d.countOf name =
      (s.endedHourlies.map (s.countFrom (span now s.endedHourlies).endMs name)).sum := by
  obtain ⟨s₁, s₂, hseen, hsummary⟩ := h
  have hs₁ := hseen.consistent hs
  have hlacks : (MetricReport.empty .daily none (span now s.endedHourlies)
      (s.endedHourlies.getLast?.bind (·.softwareVersion))).Lacks name := ⟨rfl, rfl⟩
  rcases MetricReport.summarize_countOf _ (mergeMetrics_distinct _) hlacks hsummary with
    ⟨hnone, -⟩ | ⟨g, hg, rfl, -, summary, hnumbers, hreported⟩
  · exact absurd hnone hcount
  · obtain ⟨kept, rfl⟩ := hseen
    rw [hreported]
    exact Store.count_merged (s := { s with kept }) hs₁
      (fun r hr => (Store.mem_endedHourlies.1 hr).1) hs.endedHourlies_distinct hg hnumbers

end Telemetry
