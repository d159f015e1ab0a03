import Telemetry.Proofs.Merging
import Telemetry.Proofs.SheetReports

/-!
# Merging on sheets

The daily report merges the metrics of the ended hourly accumulators by name.  What is known of a
name is settled in the order of the starts; its values are taken in the order in which the
accumulators followed one another.  So the merged groups are a function of the sheets as well.
-/

namespace Telemetry

/-! ### On sheets -/

namespace Sheet

/-- The metrics of a name, with their values. -/
def sourcesNamed (name : String) (xs : List Sheet) : List Source :=
  xs.flatMap fun x => (x.track? name).toList.map fun t => ⟨x.header.startMs, t.values⟩

/-- The metrics of several reports, merged by name. -/
def merged (xs : List Sheet) : List Gathered :=
  (mergeMetrics ((sortedBy (·.header.startMs) xs).map fun x =>
    x.tracks.map fun t => ⟨0, 0, t.spec⟩)).map fun g => ⟨g.spec, sourcesNamed g.spec.eventName xs⟩

def endedHourlies (xs : List Sheet) : List Sheet := xs.filter fun x => x.header.isEnded .hourly

end Sheet

/-! ### Merging by name -/

theorem sortedBy_map {α β : Type} {key : α → Int} {key' : β → Int} {f : α → β}
    (hkey : ∀ a, key' (f a) = key a) (xs : List α) :
    sortedBy key' (xs.map f) = (sortedBy key xs).map f := by
  rw [sortedBy, sortedBy, List.map_mergeSort]
  intro a _ b _
  rw [hkey, hkey]

/-- What is known of a group is what its last row says, where all rows of its name agree. -/
theorem mem_mergedSpecs {reports : List (List MetricRow)} {spec : MetricSpec} :
    spec ∈ (mergeMetrics reports).map (·.spec) ↔
      AgreeOn spec.eventName reports.flatten ∧
        (rowsNamed spec.eventName reports.flatten).getLast?.map (·.spec) = some spec := by
  rw [List.mem_map]
  constructor
  · rintro ⟨g, hg, rfl⟩
    exact ⟨(exists_group_iff.1 ⟨g, hg, rfl⟩).2, (mergeMetrics_knows hg).of_agreed.1⟩
  · rintro ⟨hagree, hlast⟩
    obtain ⟨m, hm, -⟩ := Option.map_eq_some_iff.1 hlast
    obtain ⟨g, hg, hname⟩ :=
      exists_group_iff.2 ⟨⟨m, mem_rowsNamed.1 (List.mem_of_getLast? hm)⟩, hagree⟩
    refine ⟨g, hg, Option.some.inj ?_⟩
    rw [← (mergeMetrics_knows hg).of_agreed.1, hname, hlast]

/-- What is known of the groups depends on what is known of the rows alone. -/
theorem mergeMetrics_specs {reports reports' : List (List MetricRow)}
    (h : reports.flatten.map (·.spec) = reports'.flatten.map (·.spec)) :
    (mergeMetrics reports).map (·.spec) = (mergeMetrics reports').map (·.spec) := by
  have hagree : ∀ (name : String) (rows : List MetricRow), AgreeOn name rows ↔
      ∀ a ∈ rows.map (·.spec), ∀ b ∈ rows.map (·.spec),
        a.eventName = name → b.eventName = name → a.SameType b := by
    intro name rows
    simp only [List.forall_mem_map]
    rfl
  have hnamed : ∀ (name : String) (rows : List MetricRow), (rowsNamed name rows).map (·.spec) =
      (rows.map (·.spec)).filter (·.eventName == name) := by
    intro name rows
    rw [List.filter_map]
    rfl
  have hmem : ∀ spec, spec ∈ (mergeMetrics reports).map (·.spec) ↔
      spec ∈ (mergeMetrics reports').map (·.spec) := by
    intro spec
    rw [mem_mergedSpecs, mem_mergedSpecs, hagree, hagree, ← List.getLast?_map, ← List.getLast?_map,
      hnamed, hnamed, h]
  -- lists in the order of the names with the same members are the same
  have hsorted : ∀ reports : List (List MetricRow), ((mergeMetrics reports).map (·.spec)).Pairwise
      fun a b => a.eventName < b.eventName :=
    fun reports => List.pairwise_map.2 (mergeMetrics_sorted reports)
  have hnodup : ∀ reports : List (List MetricRow), ((mergeMetrics reports).map (·.spec)).Nodup := by
    intro reports
    refine List.pairwise_map.2 ((mergeMetrics_distinct reports).imp ?_)
    exact fun hne heq => hne (congrArg (·.eventName) heq)
  refine List.Perm.eq_of_pairwise (fun a b _ _ hab hba => ?_) (hsorted reports) (hsorted reports')
    ((List.perm_ext_iff_of_nodup (hnodup reports) (hnodup reports')).2 hmem)
  exact absurd (String.lt_trans hab hba) (String.lt_irrefl _)

theorem mergeMetrics_ne_nil {reports : List (List MetricRow)} {g : MetricGroup}
    (hg : g ∈ mergeMetrics reports) : g.metricIds ≠ [] := by
  obtain ⟨hlast, hids⟩ := (mergeMetrics_knows hg).of_agreed
  obtain ⟨m, hm, -⟩ := Option.map_eq_some_iff.1 hlast
  rw [hids]
  exact List.ne_nil_of_mem (List.mem_map_of_mem (List.mem_of_getLast? hm))

/-! ### Merged groups of a store -/

namespace Store

variable {s : Store} {xs : List Sheet}

/-- Reports in the order in which they are read are sorted by their starts. -/
theorem Consistent.sorted_reports (hs : s.Consistent) (p : ReportRow → Bool) :
    (s.reports.rows.filter p).mergeSort ReportRow.precedes =
      sortedBy (·.startMs) (s.reports.rows.filter p) :=
  @mergeSort_eq_sortedBy ReportRow (·.startMs) (·.id) ReportRow.precedes
    (fun _ _ => ReportRow.precedes_iff) _ (hs.reportsNumbered.increasing.filter p)

theorem Shows.endedHourlies_eq (h : s.Shows xs) :
    Sheet.endedHourlies xs = (s.reports.rows.filter (·.isEnded .hourly)).map s.sheetOf := by
  rw [Sheet.endedHourlies, ← h.sheets]
  exact filter_sheets s fun _ => rfl

theorem Shows.sorted_eq (h : s.Shows xs) :
    sortedBy (·.header.startMs) (Sheet.endedHourlies xs) = s.endedHourlies.map s.sheetOf := by
  rw [h.endedHourlies_eq, endedHourlies, h.consistent.sorted_reports]
  exact sortedBy_map (fun _ => rfl) _

/-- The metrics of a name of the ended hourly accumulators, with their reports. -/
def ownedNamed (s : Store) (name : String) : List (MetricRow × ReportRow) :=
  (s.reports.rows.filter (·.isEnded .hourly)).flatMap fun r =>
    (s.metric? r.id name).toList.map fun m => (m, r)

theorem mem_ownedNamed {name : String} {o : MetricRow × ReportRow} :
    o ∈ s.ownedNamed name ↔ o.2 ∈ s.reports.rows ∧ o.2.isEnded .hourly = true ∧
      s.metric? o.2.id name = some o.1 := by
  obtain ⟨m, r⟩ := o
  simp only [ownedNamed, List.mem_flatMap, List.mem_map, Option.mem_toList, List.mem_filter,
    Prod.mk.injEq]
  constructor
  · rintro ⟨x, ⟨hx, hended⟩, y, hy, rfl, rfl⟩
    exact ⟨hx, hended, hy⟩
  · rintro ⟨hr, hended, hm⟩
    exact ⟨r, ⟨hr, hended⟩, m, hm, rfl, rfl⟩

/-- What one accumulator has of a name comes before what the next one has. -/
theorem Shows.ownedNamed_ordered (h : s.Shows xs) (name : String) :
    (s.ownedNamed name).Pairwise fun a b => s.Leads a.1 b.1 := by
  rw [ownedNamed, List.pairwise_flatMap]
  constructor
  · intro r _
    cases s.metric? r.id name with
    | none => exact .nil
    | some m => exact List.pairwise_singleton _ _
  · refine (h.consistent.reportsNumbered.increasing.filter _).imp_of_mem
      fun {a b} ha hb hlt o ho o' ho' => ?_
    obtain ⟨ha, haended⟩ := List.mem_filter.1 ha
    obtain ⟨hb, hbended⟩ := List.mem_filter.1 hb
    obtain ⟨m, hm, rfl⟩ := List.mem_map.1 ho
    obtain ⟨n, hn, rfl⟩ := List.mem_map.1 ho'
    obtain ⟨hm, hma, -⟩ := of_metric? (Option.mem_toList.1 hm)
    obtain ⟨hn, hnb, -⟩ := of_metric? (Option.mem_toList.1 hn)
    exact h.sequential.leads a ha b hb (ReportRow.isEnded_iff.1 haended).1
      (ReportRow.isEnded_iff.1 hbended).1 hlt m hm hma n hn hnb

/-- A merged group has the metrics of its name. -/
theorem Shows.sourced_named (h : s.Shows xs) {g : MetricGroup}
    (hg : g ∈ mergeMetrics (s.endedHourlies.map fun r => s.metricRowsOf r.id)) :
    s.Sourced g.metricIds (s.ownedNamed g.spec.eventName) := by
  have hids : ∀ id, id ∈ g.metricIds ↔ ∃ o ∈ s.ownedNamed g.spec.eventName, o.1.id = id := by
    intro id
    rw [of_mem_mergeMetrics hg]
    simp only [idsNamed, List.mem_map, List.mem_filter, List.mem_flatten, beq_iff_eq]
    constructor
    · rintro ⟨m, ⟨⟨_, ⟨r, hr, rfl⟩, hm⟩, hname⟩, rfl⟩
      obtain ⟨hr, hended⟩ := mem_endedHourlies.1 hr
      obtain ⟨hm, hreport⟩ := mem_metricRowsOf.1 hm
      refine ⟨(m, r), mem_ownedNamed.2 ⟨hr, hended, ?_⟩, rfl⟩
      rw [← hreport, ← hname]
      exact h.consistent.metric?_eq hm
    · rintro ⟨o, ho, rfl⟩
      obtain ⟨hr, hended, hm⟩ := mem_ownedNamed.1 ho
      obtain ⟨hm, hreport, hname⟩ := of_metric? hm
      exact ⟨o.1, ⟨⟨_, ⟨o.2, mem_endedHourlies.2 ⟨hr, hended⟩, rfl⟩,
        mem_metricRowsOf.2 ⟨hm, hreport⟩⟩, hname⟩, rfl⟩
  refine ⟨fun o ho => ?_, fun o ho => (mem_ownedNamed.1 ho).1, fun o ho => ?_,
    h.ownedNamed_ordered _, hids, fun hnil => ?_⟩
  · exact (of_metric? (mem_ownedNamed.1 ho).2.2).1
  · exact (of_metric? (mem_ownedNamed.1 ho).2.2).2.1
  · obtain ⟨id, hid⟩ := List.exists_mem_of_ne_nil _ (mergeMetrics_ne_nil hg)
    obtain ⟨o, ho, -⟩ := (hids id).1 hid
    rw [hnil] at ho
    cases ho

theorem Shows.sourceOf_named (h : s.Shows xs) (name : String) :
    (s.ownedNamed name).map s.sourceOf = Sheet.sourcesNamed name (Sheet.endedHourlies xs) := by
  rw [h.endedHourlies_eq, Sheet.sourcesNamed, ownedNamed, List.map_flatMap, List.flatMap_map]
  congr 1
  funext r
  rw [track?_sheetOf]
  cases s.metric? r.id name with
  | none => rfl
  | some m => rfl

/-- The groups of the daily report are those of the sheets. -/
theorem Shows.gathers_merged (h : s.Shows xs) :
    List.Forall₂ s.Gathers (mergeMetrics (s.endedHourlies.map fun r => s.metricRowsOf r.id))
      (Sheet.merged (Sheet.endedHourlies xs)) := by
  have hspecs : (mergeMetrics (s.endedHourlies.map fun r => s.metricRowsOf r.id)).map (·.spec) =
      (mergeMetrics ((sortedBy (·.header.startMs) (Sheet.endedHourlies xs)).map fun x =>
        x.tracks.map fun t => ⟨0, 0, t.spec⟩)).map (·.spec) := by
    refine mergeMetrics_specs ?_
    rw [h.sorted_eq, List.map_flatten, List.map_flatten, List.map_map, List.map_map, List.map_map]
    refine congrArg List.flatten (List.map_congr_left fun r _ => ?_)
    rw [Function.comp_apply, Function.comp_apply, Function.comp_apply, sheetOf, tracksOf,
      List.map_map, List.map_map]
    rfl
  have hmerged : Sheet.merged (Sheet.endedHourlies xs) =
      ((mergeMetrics (s.endedHourlies.map fun r => s.metricRowsOf r.id)).map (·.spec)).map
        fun spec => ⟨spec, Sheet.sourcesNamed spec.eventName (Sheet.endedHourlies xs)⟩ := by
    rw [hspecs, Sheet.merged, List.map_map]
    rfl
  rw [hmerged, List.map_map, List.forall₂_map_right_iff, List.forall₂_same]
  intro g hg
  exact ⟨rfl, s.ownedNamed g.spec.eventName, h.sourced_named hg, (h.sourceOf_named _).symm⟩

end Store

end Telemetry
