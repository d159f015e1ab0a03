import Mathlib.Data.List.Perm.Basic
import Telemetry.Proofs.Entries
import Telemetry.Proofs.Moments

/-!
# Entries from several metrics

A group takes its values from one metric, or from several where reports are merged, each with a
report of its own.  Where the ids of the values follow the metrics, first those of one and then those
of the next, the entries of the group are a function of the lists of values and of the starts of the
reports.  No id occurs in it, and neither does the order in which values of different times came.
-/

namespace Telemetry

/-- Where ids increase, sorting by a number and then by id keeps the order within each number. -/
theorem mergeSort_eq_sortedBy {α : Type} {key id : α → Int} {le : α → α → Bool}
    (hle : ∀ a b, le a b = true ↔ key a < key b ∨ key a = key b ∧ id a ≤ id b) {xs : List α}
    (hids : xs.Pairwise fun a b => id a < id b) : xs.mergeSort le = sortedBy key xs := by
  have htrans : ∀ a b c, le a b = true → le b c = true → le a c = true := by
    intro a b c hab hbc
    rw [hle] at hab hbc ⊢
    omega
  have htotal : ∀ a b, (le a b || le b a) = true := by
    intro a b
    rw [Bool.or_eq_true, hle, hle]
    omega
  have hanti : ∀ a ∈ xs, ∀ b ∈ xs, le a b = true → le b a = true → a = b := by
    intro a ha b hb hab hba
    rw [hle] at hab hba
    have hunique : xs.Pairwise fun a b => id a = id b → a = b :=
      hids.imp fun hlt heq => absurd heq (ne_of_lt hlt)
    refine hunique.forall_of_forall_of_flip (fun _ _ _ => rfl) ?_ ha hb (by omega)
    exact hids.imp fun hlt heq => absurd heq.symm (ne_of_lt hlt)
  have hsorted : (xs.mergeSort le).Pairwise fun a b => key a ≤ key b := by
    refine (List.pairwise_mergeSort htrans htotal xs).imp fun {a b} hab => ?_
    rw [hle] at hab
    omega
  refine eq_of_alike hsorted (sortedBy_sorted xs) fun n => ?_
  rw [alike_sortedBy, alike, filter_mergeSort _ htrans htotal hanti]
  -- those of one number stand in the order of their ids already
  refine List.mergeSort_of_pairwise ((hids.filter _).imp_of_mem fun {a b} ha hb hlt => ?_)
  have hkeys : key a = key b := (mem_alike.1 ha).2.trans (mem_alike.1 hb).2.symm
  exact (hle a b).2 (.inr ⟨hkeys, hlt.le⟩)

/-! ### On lists -/

/-- Values of one metric, by time, and the start of its report. -/
structure Source where
  startMs : Int
  values : List TimedValue

namespace Window

/-- The numbers of a window, those aside that are from before their report. -/
def numbersOf (w : Window) (sources : List Source) : List Float :=
  sources.flatMap fun source => (source.values.filter fun v =>
    decide (w.startMs ≤ v.timeMs) && decide (v.timeMs ≤ w.endMs) &&
      decide (source.startMs ≤ v.timeMs)).filterMap (·.value.asNumber?)

/-- What a scan reads of several metrics: the latest value up to the start of the window, then those
after it that are not from before their report. -/
def readOf (w : Window) (sources : List Source) : List TimedValue :=
  (TimedValue.newest? ((sources.flatMap (·.values)).filter fun v =>
      decide (v.timeMs ≤ w.startMs))).toList ++
    TimedValue.byTime (sources.flatMap fun source => source.values.filter fun v =>
      decide (w.startMs < v.timeMs) && decide (v.timeMs ≤ w.endMs) &&
        decide (source.startMs ≤ v.timeMs))

end Window

namespace MetricSpec

def numbersOf (spec : MetricSpec) (w : Window) (sources : List Source) : List (String × Json) :=
  if spec.aggregations.any Aggregation.isScalar then
    spec.aggregations.filterMap
      (MetricGroup.numberFor? spec.eventName (NumberSummary.ofList (w.numbersOf sources)))
  else []

/-- The entries of the scans of what is read. -/
def feedOf (spec : MetricSpec) (w : Window) (values : List TimedValue) : List (String × Json) :=
  if spec.aggregations.any Aggregation.isStreaming then
    (Scanner.feed w (Scanner.forMetric spec.aggregations) values).flatMap (·.entries spec.eventName w)
  else []

/-- All entries of a metric. -/
def entriesOf (spec : MetricSpec) (w : Window) (sources : List Source) : List (String × Json) :=
  spec.numbersOf w sources ++ spec.latestOf w (sources.flatMap (·.values)) ++
    spec.feedOf w (w.readOf sources)

end MetricSpec

/-! ### From the store -/

namespace Store

/-- The one metric and its values come before the other one and its values. -/
structure Leads (s : Store) (m n : MetricRow) : Prop where
  metric : m.id < n.id
  values : ∀ v ∈ s.valuesOf m.id, ∀ w ∈ s.valuesOf n.id, v.id < w.id

/-- These are the metrics with some ids, one after the other, and their reports. -/
structure Sourced (s : Store) (ids : List Int) (owned : List (MetricRow × ReportRow)) : Prop where
  metric : ∀ o ∈ owned, o.1 ∈ s.metrics.rows
  report : ∀ o ∈ owned, o.2 ∈ s.reports.rows
  owner : ∀ o ∈ owned, o.1.reportId = o.2.id
  ordered : owned.Pairwise fun a b => s.Leads a.1 b.1
  ids : ∀ id, id ∈ ids ↔ ∃ o ∈ owned, o.1.id = id
  nonempty : owned ≠ []

/-- The values of a metric, by time, with the start of a report. -/
def sourceOf (s : Store) (o : MetricRow × ReportRow) : Source :=
  ⟨o.2.startMs, TimedValue.byTime (s.timedOf o.1.id)⟩

variable {s s' : Store} {ids : List Int} {owned : List (MetricRow × ReportRow)}

/-- A metric of a report by itself. -/
theorem sourced_single {m : MetricRow} {r : ReportRow} (hm : m ∈ s.metrics.rows)
    (hr : r ∈ s.reports.rows) (hmr : m.reportId = r.id) : s.Sourced [m.id] [(m, r)] where
  metric := by simpa using hm
  report := by simpa using hr
  owner := by simpa using hmr
  ordered := List.pairwise_singleton _ _
  ids := by simp [eq_comm]
  nonempty := by simp

namespace Sourced

theorem seenAs (h : s.Sourced ids owned) (hseen : s.SeenAs s') :
    s'.Sourced ids owned ∧ s'.sourceOf = s.sourceOf := by
  obtain ⟨kept, rfl⟩ := hseen
  exact ⟨⟨h.metric, h.report, h.owner, h.ordered.imp fun hleads => ⟨hleads.1, hleads.2⟩, h.ids,
    h.nonempty⟩, rfl⟩

theorem ids_ne_nil (h : s.Sourced ids owned) : ids ≠ [] := by
  obtain ⟨o, ho⟩ := List.exists_mem_of_ne_nil owned h.nonempty
  exact List.ne_nil_of_mem ((h.ids o.1.id).2 ⟨o, ho, rfl⟩)

/-- The values of these metrics stand metric by metric. -/
theorem filter_rows (h : s.Sourced ids owned) (hs : s.Consistent) {p : ValueRow → Bool}
    (hp : ∀ v, p v = true → v.metricId ∈ ids) :
    s.values.rows.filter p = owned.flatMap fun o => (s.valuesOf o.1.id).filter p := by
  have hrows : (s.values.rows.filter p).Pairwise fun a b => a.id < b.id :=
    hs.valuesNumbered.increasing.filter _
  have hblocks : (owned.flatMap fun o => (s.valuesOf o.1.id).filter p).Pairwise
      fun a b => a.id < b.id := by
    rw [List.pairwise_flatMap]
    constructor
    · intro o _
      exact (valuesOf_increasing hs o.1.id).filter _
    · refine h.ordered.imp fun hleads v hv w hw => ?_
      exact hleads.values v (List.mem_filter.1 hv).1 w (List.mem_filter.1 hw).1
  have hperm : (s.values.rows.filter p).Perm
      (owned.flatMap fun o => (s.valuesOf o.1.id).filter p) := by
    have hne : ∀ {a b : ValueRow}, a.id < b.id → a ≠ b := by
      rintro a b hlt rfl
      exact lt_irrefl _ hlt
    refine (List.perm_ext_iff_of_nodup (hrows.imp hne) (hblocks.imp hne)).2 fun v => ?_
    simp only [List.mem_flatMap, List.mem_filter, mem_valuesOf]
    constructor
    · rintro ⟨hv, hpv⟩
      obtain ⟨o, ho, hid⟩ := (h.ids v.metricId).1 (hp v hpv)
      exact ⟨o, ho, ⟨hv, hid.symm⟩, hpv⟩
    · rintro ⟨o, -, ⟨hv, -⟩, hpv⟩
      exact ⟨hv, hpv⟩
  exact hperm.eq_of_pairwise (fun a b _ _ hab hba => absurd hab (not_lt_of_gt hba)) hrows hblocks

/-- Sorting the values of each metric first changes nothing of one moment. -/
theorem alike_flatMap (s : Store) (owned : List (MetricRow × ReportRow))
    (p : ReportRow → TimedValue → Bool) (t : Int) :
    alike (·.timeMs) t (owned.flatMap fun o =>
        (TimedValue.byTime (s.timedOf o.1.id)).filter (p o.2)) =
      alike (·.timeMs) t (owned.flatMap fun o => (s.timedOf o.1.id).filter (p o.2)) := by
  rw [alike, alike, List.filter_flatMap, List.filter_flatMap]
  congr 1
  funext o
  change alike _ t _ = alike _ t _
  rw [alike_filter, TimedValue.byTime_eq, alike_sortedBy, alike_filter]

/-- The latest value is the newest one of all metrics. -/
theorem latestValue?_eq (h : s.Sourced ids owned) (hs : s.Consistent) {q : ValueQuery}
    (hq : q.metricIds = ids) :
    ∃ v?, s.latestValue? q = .ok v? ∧ v?.map (·.timed) =
      TimedValue.newest? (((owned.map s.sourceOf).flatMap (·.values)).filter
        fun v => q.admitsTime v.timeMs) := by
  have hids : q.metricIds.isEmpty = false := by
    rw [hq, List.isEmpty_eq_false_iff]
    exact h.ids_ne_nil
  have hadmits : s.admits q = q.admits := testValue_eq hs.undamaged _ _
  have hrows : s.values.rows.filter q.admits =
      owned.flatMap fun o => (s.valuesOf o.1.id).filter fun v => q.admitsTime v.timeMs := by
    rw [h.filter_rows hs fun v hv => ?_]
    · refine congrArg List.flatten (List.map_congr_left fun o ho => List.filter_congr fun v hv => ?_)
      have hid : v.metricId ∈ q.metricIds := by
        rw [hq, h.ids]
        exact ⟨o, ho, (mem_valuesOf.1 hv).2.symm⟩
      simp [ValueQuery.admits, ValueQuery.admitsTime, hid]
    · simp only [ValueQuery.admits, Bool.and_eq_true, List.contains_iff_mem] at hv
      exact hq ▸ hv.1.1.1
  have htimed : (s.values.rows.filter q.admits).map (·.timed) =
      owned.flatMap fun o => (s.timedOf o.1.id).filter fun v => q.admitsTime v.timeMs := by
    rw [hrows, List.map_flatMap]
    congr 1
    funext o
    rw [timedOf, List.filter_map]
    rfl
  have hnewest : TimedValue.newest? (((owned.map s.sourceOf).flatMap (·.values)).filter
        fun v => q.admitsTime v.timeMs) =
      TimedValue.newest? ((s.values.rows.filter q.admits).map (·.timed)) := by
    rw [htimed, List.filter_flatMap, List.flatMap_map]
    exact TimedValue.newest?_congr fun t => congrArg List.getLast? <|
      alike_flatMap s owned (fun _ v => q.admitsTime v.timeMs) t
  have hincreasing : (s.values.rows.filter q.admits).Pairwise fun a b => a.id < b.id :=
    hs.valuesNumbered.increasing.filter _
  unfold latestValue?
  rw [hids, need_eq_ok hs.undamaged, hadmits, hnewest]
  cases hrows : s.values.rows.filter q.admits with
  | nil => exact ⟨none, rfl, rfl⟩
  | cons v rows =>
    rw [hrows] at hincreasing
    refine ⟨some (rows.foldl s.later v), readValue_eq hs.undamaged _ _, ?_⟩
    rw [Option.map_some, foldl_later hs.undamaged rows v hincreasing]
    rfl

/-- The values that match a query, of their report's own time if this is asked for, stand metric by
metric as well. -/
theorem filter_admitsOwned (h : s.Sourced ids owned) (hs : s.Consistent) {q : ValueQuery}
    (hq : q.metricIds = ids) :
    s.values.rows.filter (s.admitsOwned q) =
      owned.flatMap fun o => (s.valuesOf o.1.id).filter fun v =>
        admitsFrom q o.2.startMs v.timeMs := by
  have hadmits : s.admits q = q.admits := testValue_eq hs.undamaged _ _
  rw [h.filter_rows hs fun v hv => ?_]
  · refine congrArg List.flatten (List.map_congr_left fun o ho => List.filter_congr fun v hv => ?_)
    have hid : o.1.id ∈ q.metricIds := by
      rw [hq, h.ids]
      exact ⟨o, ho, rfl⟩
    exact admitsOwned_eq hs (h.metric o ho) (h.report o ho) (h.owner o ho) hid (mem_valuesOf.1 hv).2
  · simp only [admitsOwned, hadmits, ValueQuery.admits, Bool.and_eq_true,
      List.contains_iff_mem] at hv
    exact hq ▸ hv.1.1.1.1

theorem timed_ordered (h : s.Sourced ids owned) (hs : s.Consistent) {q : ValueQuery}
    (hq : q.metricIds = ids) :
    (s.ordered q).map (·.timed) =
      TimedValue.byTime ((owned.map s.sourceOf).flatMap fun source =>
        source.values.filter fun v => admitsFrom q source.startMs v.timeMs) := by
  rw [Store.ordered, timed_mergeSort (hs.valuesNumbered.increasing.filter _), h.filter_admitsOwned hs hq,
    List.map_flatMap, List.flatMap_map, TimedValue.byTime_eq, TimedValue.byTime_eq]
  refine sortedBy_congr fun t => Eq.trans ?_
    (alike_flatMap s owned (fun r v => admitsFrom q r.startMs v.timeMs) t).symm
  congr 1
  congr 1
  funext o
  rw [timedOf, List.filter_map]
  rfl

/-- The order of summing: metric by metric, each by time. -/
theorem mergeSort_precedesInSum (h : s.Sourced ids owned) (hs : s.Consistent)
    (p : ReportRow → ValueRow → Bool) :
    (owned.flatMap fun o => (s.valuesOf o.1.id).filter (p o.2)).mergeSort
        s.precedesInSum =
      owned.flatMap fun o =>
        ((s.valuesOf o.1.id).filter (p o.2)).mergeSort ValueRow.precedes := by
  have hle : ∀ a b : ValueRow, s.precedesInSum a b = true ↔
      a.metricId < b.metricId ∨ a.metricId = b.metricId ∧
        (a.timeMs < b.timeMs ∨ a.timeMs = b.timeMs ∧ a.id ≤ b.id) := by
    intro a b
    rw [precedesInSum, precedes_eq hs.undamaged, Bool.or_eq_true, Bool.and_eq_true,
      decide_eq_true_eq, decide_eq_true_eq, ValueRow.precedes_iff]
  have htrans : ∀ a b c, s.precedesInSum a b = true → s.precedesInSum b c = true →
      s.precedesInSum a c = true := by
    intro a b c hab hbc
    rw [hle] at hab hbc ⊢
    omega
  have htotal : ∀ a b, (s.precedesInSum a b || s.precedesInSum b a) = true := by
    intro a b
    rw [Bool.or_eq_true, hle, hle]
    omega
  have hvalue : ∀ {v : ValueRow}, v ∈ (owned.flatMap fun o =>
      (s.valuesOf o.1.id).filter (p o.2)) → v ∈ s.values.rows := by
    intro v hv
    obtain ⟨o, -, hv⟩ := List.mem_flatMap.1 hv
    exact (mem_valuesOf.1 (List.mem_filter.1 hv).1).1
  have hperm : (owned.flatMap fun o =>
        ((s.valuesOf o.1.id).filter (p o.2)).mergeSort ValueRow.precedes).Perm
      (owned.flatMap fun o => (s.valuesOf o.1.id).filter (p o.2)) :=
    List.Perm.flatMap_left _ fun o _ => List.mergeSort_perm _ _
  refine List.Perm.eq_of_pairwise ?_ (List.pairwise_mergeSort htrans htotal _) ?_
    ((List.mergeSort_perm _ _).trans hperm.symm)
  · intro a b ha hb hab hba
    rw [hle] at hab hba
    have hid : a.id = b.id := by omega
    exact hs.valuesNumbered.eq_of_id_eq (hvalue (List.mem_mergeSort.1 ha))
      (hvalue (hperm.mem_iff.1 hb)) hid
  · rw [List.pairwise_flatMap]
    constructor
    · intro o _
      refine (List.pairwise_mergeSort ValueRow.precedes_trans ValueRow.precedes_total
        _).imp_of_mem fun {a b} ha hb hab => (hle a b).2 (.inr ⟨?_, ValueRow.precedes_iff.1 hab⟩)
      rw [(mem_valuesOf.1 (List.mem_filter.1 (List.mem_mergeSort.1 ha)).1).2,
        (mem_valuesOf.1 (List.mem_filter.1 (List.mem_mergeSort.1 hb)).1).2]
    · refine h.ordered.imp fun {o o'} hleads a ha b hb => (hle a b).2 (.inl ?_)
      rw [(mem_valuesOf.1 (List.mem_filter.1 (List.mem_mergeSort.1 ha)).1).2,
        (mem_valuesOf.1 (List.mem_filter.1 (List.mem_mergeSort.1 hb)).1).2]
      exact hleads.metric

/-- Numbers are summed metric by metric, each by time. -/
theorem summarizeNumbers_eq (h : s.Sourced ids owned) (hs : s.Consistent) {q : ValueQuery}
    (hq : q.metricIds = ids) :
    s.summarizeNumbers q = .ok (NumberSummary.ofList ((owned.map s.sourceOf).flatMap fun source =>
      (source.values.filter fun v => admitsFrom q source.startMs v.timeMs).filterMap
        (·.value.asNumber?))) := by
  have hids : q.metricIds.isEmpty = false := by
    rw [hq, List.isEmpty_eq_false_iff]
    exact h.ids_ne_nil
  have hblock : ∀ o : MetricRow × ReportRow,
      (((s.valuesOf o.1.id).filter fun v => admitsFrom q o.2.startMs v.timeMs).mergeSort
          ValueRow.precedes).filterMap (fun v => v.value.asNumber?) =
        ((s.sourceOf o).values.filter fun v => admitsFrom q o.2.startMs v.timeMs).filterMap
          (·.value.asNumber?) := by
    intro o
    have htimed := timed_mergeSort ((valuesOf_increasing hs o.1.id).filter
      fun v => admitsFrom q o.2.startMs v.timeMs)
    rw [sourceOf, TimedValue.byTime_eq, ← sortedBy_filter, ← TimedValue.byTime_eq, timedOf,
      List.filter_map]
    refine Eq.trans ?_ (congrArg (List.filterMap _) htimed)
    rw [List.filterMap_map]
    rfl
  unfold summarizeNumbers
  rw [hids, need_eq_ok hs.undamaged, h.filter_admitsOwned hs hq,
    h.mergeSort_precedesInSum hs fun r v => admitsFrom q r.startMs v.timeMs]
  refine bind_eq_ok.2 ⟨(), rfl, ?_⟩
  dsimp only
  rw [mapM_numberCell hs.undamaged, List.filterMap_flatMap, List.flatMap_map]
  simp only [hblock]
  rfl

end Sourced

end Store

/-! ### Entries -/

namespace MetricGroup

variable {s : Store} {g : MetricGroup} {owned : List (MetricRow × ReportRow)}

theorem numberEntries_yields (h : s.Sourced g.metricIds owned) (hs : s.Consistent) (w : Window) :
    Yields (g.numberEntries w) s (g.spec.numbersOf w (owned.map s.sourceOf)) s := by
  unfold numberEntries MetricSpec.numbersOf
  split
  · have hsummary := h.summarizeNumbers_eq hs (q := g.numbersQuery w) rfl
    have hadmits : ∀ start t, Store.admitsFrom (g.numbersQuery w) start t =
        (decide (w.startMs ≤ t) && true && decide (t ≤ w.endMs) && decide (start ≤ t)) :=
      fun _ _ => rfl
    simp only [hadmits, Bool.and_true] at hsummary
    exact yields_bind.2 ⟨_, s, Transaction.yields_query.2 ⟨hsummary, rfl⟩, yields_pure.2 ⟨rfl, rfl⟩⟩
  · exact yields_pure.2 ⟨rfl, rfl⟩

theorem latestEntries_sourced (h : s.Sourced g.metricIds owned) (hs : s.Consistent) (w : Window) :
    Yields (g.latestEntries w) s
      (g.spec.latestOf w ((owned.map s.sourceOf).flatMap (·.values))) s := by
  unfold latestEntries MetricSpec.latestOf
  split
  · obtain ⟨v?, hlatest, hnewest⟩ := h.latestValue?_eq hs (q := g.latestQuery w) rfl
    have hadmits : ∀ t, (g.latestQuery w).admitsTime t = g.spec.latestAdmits w t := by
      intro t
      rw [Bool.eq_iff_iff]
      cases hcarry : g.spec.carryOver <;>
        simp [latestQuery, ValueQuery.admitsTime, MetricSpec.latestAdmits, hcarry]
    simp only [hadmits] at hnewest
    refine yields_bind.2 ⟨v?, s, Transaction.yields_query.2 ⟨hlatest, rfl⟩, yields_pure.2 ⟨?_, rfl⟩⟩
    rw [← hnewest]
    cases v? <;> rfl
  · exact yields_pure.2 ⟨rfl, rfl⟩

/-- What a scan of the group reads. -/
theorem scanned_sourced (h : s.Sourced g.metricIds owned) (hs : s.Consistent)
    (paging : PagingSettings) (w : Window) :
    ∃ s', Yields (g.scanned paging w) s (w.readOf (owned.map s.sourceOf)) s' := by
  obtain ⟨v?, hlatest, hnewest⟩ := h.latestValue?_eq hs (q := g.seedQuery w) rfl
  obtain ⟨s', hseries⟩ := Transaction.series_yields hs (q := g.scanQuery w) h.ids_ne_nil paging
  have hordered := h.timed_ordered hs (q := g.scanQuery w) rfl
  refine ⟨s', yields_bind.2 ⟨v?, s,
    Transaction.yields_query.2 ⟨hlatest, rfl⟩, yields_bind.2 ⟨_, s', hseries,
      yields_bind.2 ⟨_, s', Transaction.yields_query.2 ⟨mapM_id_ok _, rfl⟩,
        yields_pure.2 ⟨?_, rfl⟩⟩⟩⟩⟩
  have hseed : ∀ t, (g.seedQuery w).admitsTime t = decide (t ≤ w.startMs) := fun _ => rfl
  have hscan : ∀ start t, Store.admitsFrom (g.scanQuery w) start t =
      (decide (w.startMs < t) && decide (t ≤ w.endMs) && decide (start ≤ t)) := fun _ _ => rfl
  simp only [hseed] at hnewest
  simp only [hscan] at hordered
  rw [List.map_append, hordered, Window.readOf, ← hnewest]
  cases v? <;> rfl

theorem scanEntries_sourced (h : s.Sourced g.metricIds owned) (hs : s.Consistent)
    (paging : PagingSettings) (w : Window) :
    ∃ s', Yields (g.scanEntries paging w) s
      (g.spec.feedOf w (w.readOf (owned.map s.sourceOf))) s' := by
  unfold scanEntries MetricSpec.feedOf
  split
  · obtain ⟨s', hscanned⟩ := scanned_sourced h hs paging w
    exact ⟨s', yields_bind.2 ⟨_, s', hscanned, yields_pure.2 ⟨rfl, rfl⟩⟩⟩
  · exact ⟨s, yields_pure.2 ⟨rfl, rfl⟩⟩

/-- The entries of a group are those of its sources. -/
theorem entries_yields (h : s.Sourced g.metricIds owned) (hs : s.Consistent)
    (paging : PagingSettings) (w : Window) :
    ∃ s', Yields (g.entries paging w) s (g.spec.entriesOf w (owned.map s.sourceOf)) s' := by
  obtain ⟨s', hscans⟩ := scanEntries_sourced h hs paging w
  exact ⟨s', yields_bind.2 ⟨_, s, numberEntries_yields h hs w, yields_bind.2 ⟨_, s,
    latestEntries_sourced h hs w, yields_bind.2 ⟨_, s', hscans, yields_pure.2 ⟨rfl, rfl⟩⟩⟩⟩⟩

end MetricGroup

/-! ### Entries from one metric -/

theorem Window.readOf_single (w : Window) (reportStart : Int) (values : List TimedValue) :
    w.readOf [⟨reportStart, TimedValue.byTime values⟩] = w.scannedOf reportStart values := by
  rw [readOf, scannedOf, List.flatMap_singleton, List.flatMap_singleton,
    TimedValue.newest?_filter_byTime, TimedValue.byTime_eq values, ← sortedBy_filter]
  congr 1
  exact sortedBy_congr fun t => alike_sortedBy t _

namespace MetricGroup

section OneMetric

variable {s : Store} {m : MetricRow} {r : ReportRow}

theorem latestEntries_yields (hs : s.Consistent) (hm : m ∈ s.metrics.rows)
    (hr : r ∈ s.reports.rows) (hmr : m.reportId = r.id) (spec : MetricSpec) (w : Window) :
    Yields (latestEntries ⟨spec, [m.id]⟩ w) s (spec.latestOf w (s.timedOf m.id)) s := by
  have hlatest : spec.latestOf w (TimedValue.byTime (s.timedOf m.id)) =
      spec.latestOf w (s.timedOf m.id) := by
    rw [MetricSpec.latestOf, TimedValue.newest?_filter_byTime, MetricSpec.latestOf]
  have hyields :=
    latestEntries_sourced (g := ⟨spec, [m.id]⟩) (Store.sourced_single hm hr hmr) hs w
  rw [List.map_singleton, List.flatMap_singleton] at hyields
  rw [← hlatest]
  exact hyields

theorem scanned_yields (hs : s.Consistent) (hm : m ∈ s.metrics.rows) (hr : r ∈ s.reports.rows)
    (hmr : m.reportId = r.id) (spec : MetricSpec) (paging : PagingSettings) (w : Window) :
    ∃ s', Yields (scanned ⟨spec, [m.id]⟩ paging w) s
      (w.scannedOf r.startMs (s.timedOf m.id)) s' := by
  rw [← Window.readOf_single]
  exact scanned_sourced (g := ⟨spec, [m.id]⟩) (Store.sourced_single hm hr hmr) hs paging w

theorem scanEntries_yields (hs : s.Consistent) (hm : m ∈ s.metrics.rows)
    (hr : r ∈ s.reports.rows) (hmr : m.reportId = r.id) (spec : MetricSpec)
    (paging : PagingSettings) (w : Window) :
    ∃ s', Yields (scanEntries ⟨spec, [m.id]⟩ paging w) s
      (spec.scansOf w r.startMs (s.timedOf m.id)) s' := by
  rw [MetricSpec.scansOf, ← Window.readOf_single]
  exact scanEntries_sourced (g := ⟨spec, [m.id]⟩) (Store.sourced_single hm hr hmr) hs paging w

end OneMetric

end MetricGroup

end Telemetry
