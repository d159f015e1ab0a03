import Mathlib.Data.List.Nodup
import Telemetry.Engine.Summary
import Telemetry.Proofs.Consistency
import Telemetry.Proofs.Keys

/-!
# Groups of metrics by name

The metrics of several reports become one group for each name, unless two of them disagree on what
the metric is.  A row is only compared with the last one of its name; what is known of a name is then
still all that its rows say: that there are none, that they agree, or that two of them do not.  So it
does not matter in which order the reports come, but for the attributes, which are the last ones, and
for the order of the ids.
-/

namespace Telemetry

/-- Two metrics are the same, whatever else is said of them. -/
def MetricSpec.SameType (a b : MetricSpec) : Prop :=
  a.metricKind = b.metricKind ∧ a.dataKind = b.dataKind

theorem MetricSpec.SameType.symm {a b : MetricSpec} (h : a.SameType b) : b.SameType a :=
  ⟨h.1.symm, h.2.symm⟩

theorem MetricSpec.SameType.trans {a b c : MetricSpec} (h : a.SameType b) (h' : b.SameType c) :
    a.SameType c :=
  ⟨h.1.trans h'.1, h.2.trans h'.2⟩

def rowsNamed (name : String) (rows : List MetricRow) : List MetricRow :=
  rows.filter (·.spec.eventName == name)

theorem mem_rowsNamed {name : String} {rows : List MetricRow} {m : MetricRow} :
    m ∈ rowsNamed name rows ↔ m ∈ rows ∧ m.spec.eventName = name := by
  rw [rowsNamed, List.mem_filter, beq_iff_eq]

/-- All rows of a name say the same on what the metric is. -/
def AgreeOn (name : String) (rows : List MetricRow) : Prop :=
  ∀ a ∈ rows, ∀ b ∈ rows, a.spec.eventName = name → b.spec.eventName = name →
    a.spec.SameType b.spec

namespace Merged

/-! ### What is known of a name -/

/-- What is known of a name, where these are its rows. -/
inductive Knows : List MetricRow → Option Merged → Prop
  | nothing : Knows [] none
  | agreed {rows : List MetricRow} {m : MetricRow} (h : ∀ a ∈ rows, a.spec.SameType m.spec) :
    Knows (rows ++ [m]) (some (.agreed ⟨m.spec, (rows ++ [m]).map (·.id)⟩))
  | conflicting {rows : List MetricRow} {a b : MetricRow} (ha : a ∈ rows) (hb : b ∈ rows)
    (h : ¬a.spec.SameType b.spec) : Knows rows (some .conflicting)

theorem absorb_knows {rows : List MetricRow} {merged? : Option Merged} (h : Knows rows merged?)
    (m : MetricRow) : Knows (rows ++ [m]) (some (absorb m merged?)) := by
  cases h with
  | nothing => exact @Knows.agreed [] m (by simp)
  | conflicting ha hb hconflict =>
    exact .conflicting (List.mem_append_left _ ha) (List.mem_append_left _ hb) hconflict
  | @agreed rows last hagree =>
    simp only [absorb, Bool.and_eq_true, decide_eq_true_eq]
    by_cases hsame : last.spec.SameType m.spec
    · -- what agrees with the last row agrees with this one
      rw [if_pos ⟨hsame.1, hsame.2⟩, ← List.map_singleton, ← List.map_append]
      apply Knows.agreed
      intro a ha
      rcases List.mem_append.1 ha with ha | ha
      · exact (hagree a ha).trans hsame
      · rw [List.mem_singleton.1 ha]
        exact hsame
    · rw [if_neg fun h => hsame ⟨h.1, h.2⟩]
      exact .conflicting (by simp) (by simp) hsame

theorem add_knows {merged : KeyMap Merged} {rows : List MetricRow}
    (h : ∀ name, Knows (rowsNamed name rows) (merged.get? name)) (m : MetricRow) (name : String) :
    Knows (rowsNamed name (rows ++ [m])) ((add merged m).get? name) := by
  rw [add, KeyMap.get?_insert, rowsNamed, List.filter_append]
  by_cases hname : m.spec.eventName = name
  · subst hname
    rw [if_pos rfl, List.filter_cons_of_pos (by simp)]
    exact absorb_knows (h m.spec.eventName) m
  · rw [if_neg hname, List.filter_cons_of_neg (by simpa using hname), List.filter_nil,
      List.append_nil]
    exact h name

theorem foldl_add_knows (rows : List MetricRow) :
    ∀ {merged : KeyMap Merged} {before : List MetricRow},
      (∀ name, Knows (rowsNamed name before) (merged.get? name)) →
      ∀ name, Knows (rowsNamed name (before ++ rows)) ((rows.foldl add merged).get? name) := by
  induction rows with
  | nil =>
    intro merged before h name
    rw [List.append_nil]
    exact h name
  | cons m rows ih =>
    intro merged before h name
    rw [List.append_cons, List.foldl_cons]
    exact ih (add_knows h m) name

namespace Knows

variable {rows : List MetricRow} {merged? : Option Merged} {g : MetricGroup}

/-- A group has the attributes of the last row, and the ids of all rows. -/
theorem of_agreed (h : Knows rows (some (.agreed g))) :
    rows.getLast?.map (·.spec) = some g.spec ∧ g.metricIds = rows.map (·.id) := by
  cases h with
  | agreed h => simp

/-- Something is known where there are rows, and a group where they agree. -/
theorem exists_agreed_iff (h : Knows rows merged?) :
    (∃ g, merged? = some (.agreed g)) ↔
      rows ≠ [] ∧ ∀ a ∈ rows, ∀ b ∈ rows, a.spec.SameType b.spec := by
  cases h with
  | nothing => simp
  | conflicting ha hb hconflict =>
    constructor
    · rintro ⟨g, hg⟩
      cases hg
    · intro h
      exact absurd (h.2 _ ha _ hb) hconflict
  | @agreed rows last hagree =>
    refine ⟨fun _ => ⟨by simp, ?_⟩, fun _ => ⟨_, rfl⟩⟩
    have hlast : ∀ a ∈ rows ++ [last], a.spec.SameType last.spec := by
      intro a ha
      rcases List.mem_append.1 ha with ha | ha
      · exact hagree a ha
      · rw [List.mem_singleton.1 ha]
        exact ⟨rfl, rfl⟩
    intro a ha b hb
    exact (hlast a ha).trans (hlast b hb).symm

end Knows

end Merged

/-! ### The groups -/

section Groups

variable {reports reports' : List (List MetricRow)} {g : MetricGroup} {name : String}

theorem knows_merged (reports : List (List MetricRow)) (name : String) :
    Merged.Knows (rowsNamed name reports.flatten)
      ((reports.flatten.foldl Merged.add .empty).get? name) := by
  have hnothing : ∀ name, Merged.Knows (rowsNamed name []) (KeyMap.empty.get? name) :=
    fun _ => .nothing
  exact Merged.foldl_add_knows reports.flatten hnothing name

theorem eventName_of_knows {rows : List MetricRow}
    (h : Merged.Knows (rowsNamed name rows) (some (.agreed g))) : g.spec.eventName = name := by
  obtain ⟨m, hm, hspec⟩ := Option.map_eq_some_iff.1 h.of_agreed.1
  rw [← hspec]
  exact (mem_rowsNamed.1 (List.mem_of_getLast? hm)).2

/-- A group stands under its name. -/
theorem of_mem_entries {e : String × Merged}
    (he : e ∈ (reports.flatten.foldl Merged.add .empty).entries) (hgroup : e.2.group? = some g) :
    e.2 = .agreed g ∧ g.spec.eventName = e.1 := by
  have hagreed : e.2 = .agreed g := by
    cases hmerged : e.2 with
    | agreed g' =>
      rw [hmerged] at hgroup
      exact congrArg Merged.agreed (Option.some.inj hgroup)
    | conflicting =>
      rw [hmerged] at hgroup
      cases hgroup
  have hknows := knows_merged reports e.1
  rw [KeyMap.get?_of_mem he, hagreed] at hknows
  exact ⟨hagreed, eventName_of_knows hknows⟩

/-- A group is what is known of its name in the end. -/
theorem mem_mergeMetrics : g ∈ mergeMetrics reports ↔
    (reports.flatten.foldl Merged.add .empty).get? g.spec.eventName = some (.agreed g) := by
  rw [mergeMetrics, List.mem_filterMap]
  constructor
  · rintro ⟨e, he, hgroup⟩
    obtain ⟨hagreed, hname⟩ := of_mem_entries he hgroup
    rw [hname, KeyMap.get?_of_mem he, hagreed]
  · intro hget
    obtain ⟨e, he, heq⟩ := Option.map_eq_some_iff.1 hget
    exact ⟨e, List.mem_of_find?_eq_some he, by rw [heq]; rfl⟩

theorem mergeMetrics_knows (hg : g ∈ mergeMetrics reports) :
    Merged.Knows (rowsNamed g.spec.eventName reports.flatten) (some (.agreed g)) := by
  rw [← mem_mergeMetrics.1 hg]
  exact knows_merged reports g.spec.eventName

/-- The groups come in the order of their names. -/
theorem mergeMetrics_sorted (reports : List (List MetricRow)) :
    (mergeMetrics reports).Pairwise fun a b => a.spec.eventName < b.spec.eventName := by
  rw [mergeMetrics, List.pairwise_filterMap]
  refine (reports.flatten.foldl Merged.add .empty).increasing.imp_of_mem ?_
  intro e e' he he' hlt g hg g' hg'
  rw [(of_mem_entries he hg).2, (of_mem_entries he' hg').2]
  exact hlt

/-- A name has a group where it occurs and all its rows agree. -/
theorem exists_group_iff : (∃ g ∈ mergeMetrics reports, g.spec.eventName = name) ↔
    (∃ m ∈ reports.flatten, m.spec.eventName = name) ∧ AgreeOn name reports.flatten := by
  have hknows := knows_merged reports name
  have hgroup : (∃ g ∈ mergeMetrics reports, g.spec.eventName = name) ↔
      ∃ g, (reports.flatten.foldl Merged.add .empty).get? name = some (.agreed g) := by
    constructor
    · rintro ⟨g, hg, rfl⟩
      exact ⟨g, mem_mergeMetrics.1 hg⟩
    · rintro ⟨g, hget⟩
      rw [hget] at hknows
      have hname := eventName_of_knows hknows
      exact ⟨g, mem_mergeMetrics.2 (hname.symm ▸ hget), hname⟩
  have hoccurs : rowsNamed name reports.flatten ≠ [] ↔
      ∃ m ∈ reports.flatten, m.spec.eventName = name := by
    constructor
    · intro hrows
      obtain ⟨m, hm⟩ := List.exists_mem_of_ne_nil _ hrows
      exact ⟨m, mem_rowsNamed.1 hm⟩
    · rintro ⟨m, hm⟩
      exact List.ne_nil_of_mem (mem_rowsNamed.2 hm)
  have hagree : (∀ a ∈ rowsNamed name reports.flatten, ∀ b ∈ rowsNamed name reports.flatten,
      a.spec.SameType b.spec) ↔ AgreeOn name reports.flatten := by
    simp only [mem_rowsNamed]
    exact ⟨fun h a ha b hb hna hnb => h a ⟨ha, hna⟩ b ⟨hb, hnb⟩,
      fun h a ha b hb => h a ha.1 b hb.1 ha.2 hb.2⟩
  rw [hgroup, hknows.exists_agreed_iff, hoccurs, hagree]

/-! ### Report by report -/

/-- The row of a name from each report that has one, in the order of the reports. -/
def rowsByReport (name : String) (reports : List (List MetricRow)) : List MetricRow :=
  reports.filterMap fun rows => rows.find? (·.spec.eventName == name)

/-- A name is left out although a report has it. -/
def Excludes (reports : List (List MetricRow)) (name : String) : Prop :=
  (∃ m ∈ reports.flatten, m.spec.eventName = name) ∧
    ∀ g ∈ mergeMetrics reports, g.spec.eventName ≠ name

/-- Where no report has two rows of a name, the rows of the name are one from each report. -/
theorem rowsNamed_flatten (hunique : ∀ rows ∈ reports, (rows.map (·.spec.eventName)).Nodup)
    (name : String) : rowsNamed name reports.flatten = rowsByReport name reports := by
  have hone : ∀ rows ∈ reports, rows.filter (·.spec.eventName == name) =
      (rows.find? (·.spec.eventName == name)).toList := by
    intro rows hrows
    apply filter_of_countP_le_one
    have hcount := List.nodup_iff_count_le_one.1 (hunique rows hrows) name
    rwa [List.count, List.countP_map] at hcount
  rw [rowsNamed, List.filter_flatten, rowsByReport, List.filterMap_eq_flatMap_toList,
    List.flatMap_def, List.map_congr_left hone]

theorem excludes_iff : Excludes reports name ↔
    (∃ m ∈ reports.flatten, m.spec.eventName = name) ∧ ¬AgreeOn name reports.flatten := by
  have hnone : (∀ g ∈ mergeMetrics reports, g.spec.eventName ≠ name) ↔
      ¬∃ g ∈ mergeMetrics reports, g.spec.eventName = name := by
    simp only [not_exists, not_and]
  rw [Excludes, hnone, exists_group_iff]
  exact and_congr_right fun hoccurs => not_congr (and_iff_right hoccurs)

/-- What disagrees disagrees among more rows as well. -/
theorem AgreeOn.mono {rows rows' : List MetricRow} (h : AgreeOn name rows')
    (hsub : ∀ m ∈ rows, m ∈ rows') : AgreeOn name rows :=
  fun a ha b hb => h a (hsub a ha) b (hsub b hb)

theorem excludes_perm (hperm : reports.Perm reports') :
    Excludes reports' name ↔ Excludes reports name := by
  have hmem : ∀ m, m ∈ reports'.flatten ↔ m ∈ reports.flatten :=
    fun m => hperm.symm.flatten.mem_iff
  have hagree : AgreeOn name reports'.flatten ↔ AgreeOn name reports.flatten :=
    ⟨fun h => h.mono fun m hm => (hmem m).2 hm, fun h => h.mono fun m hm => (hmem m).1 hm⟩
  rw [excludes_iff, excludes_iff, hagree]
  simp only [hmem]

/-- Reports are merged into one group for each name all of whose rows agree, in the order of the
names.  A group has the attributes of the last report with its name, and the ids of the name in the
order of the reports, each once.  A name that is left out stays so whatever reports come before and
after, and in whichever order the reports come. -/
theorem mergeMetrics_groups (hunique : ∀ rows ∈ reports, (rows.map (·.spec.eventName)).Nodup) :
    (mergeMetrics reports).Pairwise (fun a b => a.spec.eventName < b.spec.eventName) ∧
      (∀ name, (∃ g ∈ mergeMetrics reports, g.spec.eventName = name) ↔
        (∃ m ∈ reports.flatten, m.spec.eventName = name) ∧ AgreeOn name reports.flatten) ∧
      (∀ g ∈ mergeMetrics reports,
        (rowsByReport g.spec.eventName reports).getLast?.map (·.spec) = some g.spec ∧
        g.metricIds = (rowsByReport g.spec.eventName reports).map (·.id) ∧
        ((reports.flatten.map (·.id)).Nodup → g.metricIds.Nodup)) ∧
      (∀ name, Excludes reports name → ∀ before after,
        Excludes (before ++ reports ++ after) name) ∧
      ∀ reports', reports.Perm reports' → ∀ name,
        Excludes reports' name ↔ Excludes reports name := by
  refine ⟨mergeMetrics_sorted reports, fun name => exists_group_iff, ?_, ?_,
    fun reports' hperm name => excludes_perm hperm⟩
  · intro g hg
    obtain ⟨hlast, hids⟩ := (mergeMetrics_knows hg).of_agreed
    have hnodup : (reports.flatten.map (·.id)).Nodup → g.metricIds.Nodup := by
      intro hdistinct
      rw [hids]
      exact hdistinct.sublist (List.filter_sublist.map _)
    rw [rowsNamed_flatten hunique] at hlast hids
    exact ⟨hlast, hids, hnodup⟩
  · intro name hexcluded before after
    have hsub : ∀ m ∈ reports.flatten, m ∈ (before ++ reports ++ after).flatten := by
      intro m hm
      rw [List.flatten_append, List.flatten_append]
      exact List.mem_append_left _ (List.mem_append_right _ hm)
    obtain ⟨⟨m, hm, hname⟩, hconflict⟩ := excludes_iff.1 hexcluded
    exact excludes_iff.2 ⟨⟨m, hsub m hm, hname⟩, fun hagree => hconflict (hagree.mono hsub)⟩

/-- The power is left out for its one text, though a number comes after it; the light has the
attributes of the last report. -/
theorem mergeMetrics_groups_power :
    let power : MetricSpec := ⟨"power", .gauge, .double, false, [], false⟩
    let light : MetricSpec := ⟨"light", .gauge, .double, false, [], false⟩
    let reports : List (List MetricRow) :=
      [[⟨1, 1, power⟩, ⟨2, 1, light⟩], [⟨3, 2, { power with dataKind := .string }⟩],
        [⟨4, 3, { light with internal := true }⟩, ⟨5, 3, power⟩]]
    mergeMetrics reports = [⟨{ light with internal := true }, [2, 4]⟩] ∧
      ∀ reports', reports.Perm reports' → Excludes reports' "power" := by
  intro power light reports
  have hunique : ∀ rows ∈ reports, (rows.map (·.spec.eventName)).Nodup := by decide
  have hmerged : mergeMetrics reports = [⟨{ light with internal := true }, [2, 4]⟩] := by
    decide +kernel
  refine ⟨hmerged, fun reports' hperm => ?_⟩
  obtain ⟨-, -, -, -, horder⟩ := mergeMetrics_groups hunique
  rw [horder reports' hperm "power", Excludes, hmerged]
  exact ⟨⟨⟨1, 1, power⟩, by simp [reports], rfl⟩, by decide⟩

end Groups

end Telemetry
