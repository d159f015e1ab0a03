import Mathlib.Algebra.GroupWithZero.Nat
import Telemetry.Proofs.Frames
import Telemetry.Proofs.Paging

/-!
# What queries find

The values of one metric form a list in the order of their ids.  What a query finds depends on the
times and values of that list alone: the latest value is the last one of the greatest time, a series
is the list sorted by time, and numbers are counted one by one.
-/

namespace Telemetry

/-! ### Lists of timed values -/

namespace TimedValue

/-- The later of two values; of two of one time the second. -/
def later (a b : TimedValue) : TimedValue := if a.timeMs ≤ b.timeMs then b else a

/-- The latest value of a list; of several of one time the last. -/
def newest? : List TimedValue → Option TimedValue
  | [] => none
  | v :: vs => some (vs.foldl later v)

/-- The values in the order of time; those of one time stay in their order. -/
def byTime (vs : List TimedValue) : List TimedValue :=
  vs.mergeSort fun a b => decide (a.timeMs ≤ b.timeMs)

/-- Of the values before a point in a list only the newest counts. -/
theorem newest?_append (xs ys : List TimedValue) :
    newest? (xs ++ ys) = newest? ((newest? xs).toList ++ ys) := by
  cases xs with
  | nil => rfl
  | cons x xs => simp [newest?, List.foldl_append]

/-- The newest value is in the list, and none is later. -/
theorem foldl_later (vs : List TimedValue) :
    ∀ v, vs.foldl later v ∈ v :: vs ∧ ∀ x ∈ v :: vs, x.timeMs ≤ (vs.foldl later v).timeMs := by
  induction vs with
  | nil => simp
  | cons x vs ih =>
    intro v
    obtain ⟨hmem, hle⟩ := ih (later v x)
    have hlater : later v x = v ∨ later v x = x := by
      unfold later
      split
      · exact .inr rfl
      · exact .inl rfl
    have hv : v.timeMs ≤ (later v x).timeMs ∧ x.timeMs ≤ (later v x).timeMs := by
      unfold later
      split <;> omega
    have hfirst := hle (later v x) (by simp)
    rw [List.foldl_cons]
    constructor
    · rcases List.mem_cons.1 hmem with hmem | hmem
      · rw [hmem]
        rcases hlater with h | h <;> simp [h]
      · simp [hmem]
    · intro y hy
      rcases List.mem_cons.1 hy with rfl | hy
      · omega
      · rcases List.mem_cons.1 hy with rfl | hy
        · omega
        · exact hle y (by simp [hy])

theorem newest?_mem {vs : List TimedValue} {v : TimedValue} (h : newest? vs = some v) : v ∈ vs := by
  cases vs with
  | nil => cases h
  | cons x vs =>
    cases h
    exact (foldl_later vs x).1

theorem le_newest? {vs : List TimedValue} {v : TimedValue} (h : newest? vs = some v) :
    ∀ x ∈ vs, x.timeMs ≤ v.timeMs := by
  cases vs with
  | nil => cases h
  | cons x vs =>
    cases h
    exact (foldl_later vs x).2

/-- Nothing after the newest value is as late as it is. -/
theorem foldl_later_split (vs : List TimedValue) :
    ∀ v, ∃ before after, v :: vs = before ++ vs.foldl later v :: after ∧
      ∀ x ∈ after, x.timeMs < (vs.foldl later v).timeMs := by
  induction vs with
  | nil => exact fun v => ⟨[], [], rfl, by simp⟩
  | cons x vs ih =>
    intro v
    by_cases hle : v.timeMs ≤ x.timeMs
    · have hlater : later v x = x := if_pos hle
      obtain ⟨before, after, hsplit, hafter⟩ := ih x
      rw [List.foldl_cons, hlater]
      exact ⟨v :: before, after, by rw [hsplit, List.cons_append], hafter⟩
    · have hlater : later v x = v := if_neg hle
      obtain ⟨before, after, hsplit, hafter⟩ := ih v
      rw [List.foldl_cons, hlater]
      cases before with
      | nil =>
        obtain ⟨hv, hvs⟩ := List.cons.inj hsplit
        refine ⟨[], x :: after, by rw [List.nil_append, ← hv, hvs], ?_⟩
        intro y hy
        rcases List.mem_cons.1 hy with rfl | hy
        · rw [← hv]
          exact lt_of_not_ge hle
        · exact hafter y hy
      | cons b before =>
        obtain ⟨rfl, hvs⟩ := List.cons.inj hsplit
        exact ⟨v :: x :: before, after, congrArg (fun rest => v :: x :: rest) hvs, hafter⟩

theorem foldl_later_of_lt {v : TimedValue} {vs : List TimedValue}
    (h : ∀ x ∈ vs, x.timeMs < v.timeMs) : vs.foldl later v = v := by
  induction vs with
  | nil => rfl
  | cons x vs ih =>
    have hlater : later v x = v := if_neg (not_le_of_gt (h x (by simp)))
    rw [List.foldl_cons, hlater]
    exact ih fun y hy => h y (by simp [hy])

/-- The newest value stays the newest of those that are selected with it. -/
theorem newest?_filter {vs : List TimedValue} {v : TimedValue} (h : newest? vs = some v)
    {p : TimedValue → Bool} (hp : p v = true) : newest? (vs.filter p) = some v := by
  cases vs with
  | nil => cases h
  | cons x vs =>
    obtain ⟨before, after, hsplit, hafter⟩ := foldl_later_split vs x
    rw [newest?, Option.some.injEq] at h
    rw [h] at hsplit hafter
    have hlater : newest? (v :: after.filter p) = some v := by
      rw [newest?, foldl_later_of_lt fun y hy => hafter y (List.mem_filter.1 hy).1]
    rw [hsplit, List.filter_append, List.filter_cons_of_pos hp, newest?_append]
    cases hbefore : newest? (before.filter p) with
    | none => exact hlater
    | some b =>
      -- whatever is the newest before it is not later than it is
      have hb : b ∈ x :: vs := by
        rw [hsplit]
        exact List.mem_append_left _ (List.mem_filter.1 (newest?_mem hbefore)).1
      have hle : b.timeMs ≤ v.timeMs := h ▸ (foldl_later vs x).2 b hb
      have hfirst : later b v = v := if_pos hle
      rw [newest?, Option.some.injEq] at hlater
      simp only [Option.toList_some, List.singleton_append, newest?, List.foldl_cons, hfirst, hlater]

end TimedValue

/-- Does a query ask for values of a time? -/
def ValueQuery.admitsTime (q : ValueQuery) (t : Int) : Bool :=
  q.since.all (fun since => decide (since ≤ t)) && q.after.all (fun after => decide (after < t))
    && decide (t ≤ q.upTo)

/-! ### One metric -/

namespace Store

variable {s : Store}

theorem filter_admits (s : Store) {q : ValueQuery} {id : Int} (hq : q.metricIds = [id]) :
    s.values.rows.filter q.admits = (s.valuesOf id).filter fun v => q.admitsTime v.timeMs := by
  rw [valuesOf, List.filter_filter]
  refine List.filter_congr fun v _ => ?_
  simp only [ValueQuery.admits, ValueQuery.admitsTime, hq, List.contains_cons, List.contains_nil,
    Bool.or_false]
  cases v.metricId == id <;> simp

theorem valuesOf_increasing (hs : s.Consistent) (id : Int) :
    (s.valuesOf id).Pairwise fun a b => a.id < b.id :=
  hs.valuesNumbered.increasing.filter _

/-- Where ids increase, the later row is the one with the later timed value. -/
theorem foldl_later (hs : s.Undamaged) (rows : List ValueRow) :
    ∀ v, (v :: rows).Pairwise (fun a b => a.id < b.id) →
      (rows.foldl s.later v).timed = (rows.map (·.timed)).foldl TimedValue.later v.timed := by
  induction rows with
  | nil => exact fun _ _ => rfl
  | cons x rows ih =>
    intro v hids
    rw [List.pairwise_cons, List.pairwise_cons] at hids
    obtain ⟨hv, hx, hrows⟩ := hids
    have hvx := hv x (by simp)
    have hlater : (s.later v x).timed = TimedValue.later v.timed x.timed := by
      rw [later, precedes_eq hs, TimedValue.later]
      have hiff : v.precedes x = true ↔ v.timeMs ≤ x.timeMs := by
        rw [ValueRow.precedes_iff]
        omega
      by_cases hle : v.timeMs ≤ x.timeMs
      · rw [if_pos (hiff.2 hle), if_pos (by exact hle)]
      · rw [if_neg (fun h => hle (hiff.1 h)), if_neg (by exact hle)]
    rw [List.foldl_cons, List.map_cons, List.foldl_cons, ← hlater]
    refine ih _ (List.pairwise_cons.2 ⟨fun y hy => ?_, hrows⟩)
    unfold later
    split
    · exact hx y hy
    · exact hv y (by simp [hy])

theorem latestValue?_eq (hs : s.Consistent) {q : ValueQuery} {id : Int} (hq : q.metricIds = [id]) :
    ∃ v?, s.latestValue? q = .ok v? ∧
      v?.map (·.timed) =
        TimedValue.newest? ((s.timedOf id).filter fun v => q.admitsTime v.timeMs) := by
  have hids : q.metricIds.isEmpty = false := by simp [hq]
  have hadmits : s.admits q = q.admits := testValue_eq hs.undamaged _ _
  have htimed : (s.timedOf id).filter (fun v => q.admitsTime v.timeMs) =
      ((s.values.rows.filter q.admits).map (·.timed)) := by
    rw [filter_admits s hq, timedOf, List.filter_map]
    rfl
  have hincreasing : (s.values.rows.filter q.admits).Pairwise fun a b => a.id < b.id :=
    hs.valuesNumbered.increasing.filter _
  unfold latestValue?
  rw [hids, need_eq_ok hs.undamaged, hadmits, htimed]
  cases hrows : s.values.rows.filter q.admits with
  | nil => exact ⟨none, rfl, rfl⟩
  | cons v rows =>
    rw [hrows] at hincreasing
    refine ⟨some (rows.foldl s.later v), ?_, ?_⟩
    · exact readValue_eq hs.undamaged _ _
    · rw [Option.map_some, foldl_later hs.undamaged rows v hincreasing]
      rfl

/-- The report of a metric's values is that of the metric. -/
theorem ownerOf?_eq (hs : s.Consistent) {m : MetricRow} {r : ReportRow} (hm : m ∈ s.metrics.rows)
    (hr : r ∈ s.reports.rows) (hmr : m.reportId = r.id) {v : ValueRow} (hv : v.metricId = m.id) :
    s.ownerOf? v = some r := by
  have hmetric : s.metrics.rows.find? (fun m => s.isValueOf [m.id] v) = some m := by
    have hsome : (s.metrics.rows.find? fun m => s.isValueOf [m.id] v).isSome = true := by
      refine List.find?_isSome.2 ⟨m, hm, ?_⟩
      rw [isValueOf_eq hs.undamaged]
      simp [hv]
    obtain ⟨x, hx⟩ := Option.isSome_iff_exists.1 hsome
    have hfound : v.metricId = x.id := by
      simpa [isValueOf_eq hs.undamaged] using List.find?_some hx
    rw [hx, hs.metric_eq (List.mem_of_find?_eq_some hx) hm (hfound.symm.trans hv)]
  have hreport : s.reports.rows.find? (fun r => s.belongsTo r.id m) = some r := by
    have hsome : (s.reports.rows.find? fun r => s.belongsTo r.id m).isSome = true := by
      refine List.find?_isSome.2 ⟨r, hr, ?_⟩
      rw [belongsTo_eq hs.undamaged]
      simp [hmr]
    obtain ⟨x, hx⟩ := Option.isSome_iff_exists.1 hsome
    have hfound : m.reportId = x.id := by
      simpa [belongsTo_eq hs.undamaged] using List.find?_some hx
    rw [hx, hs.report_eq (List.mem_of_find?_eq_some hx) hr (hfound.symm.trans hmr)]
  rw [ownerOf?, hmetric, Option.bind_some, hreport]

/-- Does a query ask for values of a time, of a report that started then? -/
def admitsFrom (q : ValueQuery) (startMs t : Int) : Bool :=
  q.admitsTime t && (!q.ownTime || decide (startMs ≤ t))

theorem admitsOwned_eq (hs : s.Consistent) {m : MetricRow} {r : ReportRow}
    (hm : m ∈ s.metrics.rows) (hr : r ∈ s.reports.rows) (hmr : m.reportId = r.id) {q : ValueQuery}
    (hq : m.id ∈ q.metricIds) {v : ValueRow} (hv : v.metricId = m.id) :
    s.admitsOwned q v = admitsFrom q r.startMs v.timeMs := by
  have hadmits : s.admits q = q.admits := testValue_eq hs.undamaged _ _
  have hown : s.isFromOwnTime v r = decide (r.startMs ≤ v.timeMs) := by
    have hnone : oddCells? s.damage.reportCells r.id = none := by
      rw [hs.undamaged]
      rfl
    rw [isFromOwnTime, hnone, timeOf_eq hs.undamaged]
    exact Cell.atMost_int _ _
  rw [admitsOwned, hadmits, admitsFrom, ownerOf?_eq hs hm hr hmr hv, Option.any_some, hown]
  simp [ValueQuery.admits, ValueQuery.admitsTime, hq, hv]

/-! ### Series -/

/-- Where ids increase, the order of the list and that of the ids are one. -/
theorem index_le_iff {rows : List ValueRow} (h : rows.Pairwise fun a b => a.id < b.id) {i j : Nat}
    {a b : ValueRow} (ha : rows[i]? = some a) (hb : rows[j]? = some b) : i ≤ j ↔ a.id ≤ b.id := by
  obtain ⟨hi, rfl⟩ := List.getElem?_eq_some_iff.1 ha
  obtain ⟨hj, rfl⟩ := List.getElem?_eq_some_iff.1 hb
  rw [List.pairwise_iff_getElem] at h
  rcases lt_trichotomy i j with hlt | rfl | hgt
  · exact ⟨fun _ => (h i j hi hj hlt).le, fun _ => hlt.le⟩
  · exact ⟨fun _ => le_rfl, fun _ => le_rfl⟩
  · have hids := h j i hj hi hgt
    exact ⟨fun hle => absurd hle (not_le_of_gt hgt), fun hle => absurd hle (not_le_of_gt hids)⟩

/-- Where ids increase, sorting by time and id keeps values of one time in their order. -/
theorem timed_mergeSort {rows : List ValueRow} (h : rows.Pairwise fun a b => a.id < b.id) :
    (rows.mergeSort ValueRow.precedes).map (·.timed) = TimedValue.byTime (rows.map (·.timed)) := by
  have hindexed : ∀ x ∈ rows.zipIdx, ∀ y ∈ rows.zipIdx,
      List.zipIdxLE (fun a b : ValueRow => decide (a.timeMs ≤ b.timeMs)) x y =
        x.1.precedes y.1 := by
    rintro ⟨a, i⟩ ha ⟨b, j⟩ hb
    have hiff := index_le_iff h (List.mem_zipIdx_iff_getElem?.1 ha)
      (List.mem_zipIdx_iff_getElem?.1 hb)
    rw [Bool.eq_iff_iff, ValueRow.precedes_iff, ← hiff]
    simp only [List.zipIdxLE, decide_eq_true_eq]
    split
    · split
      · rw [decide_eq_true_eq]
        omega
      · simp only [true_iff]
        omega
    · simp only [Bool.false_eq_true, false_iff]
      omega
  have hstable : rows.mergeSort ValueRow.precedes =
      rows.mergeSort fun a b => decide (a.timeMs ≤ b.timeMs) := by
    have hsorted := List.map_mergeSort hindexed
    rw [List.mergeSort_zipIdx] at hsorted
    rw [hsorted]
    exact congrArg (List.mergeSort · _) (List.zipIdx_map_fst 0 rows).symm
  rw [hstable, TimedValue.byTime, List.map_mergeSort]
  exact fun _ _ _ _ => rfl

/-! ### Numbers -/

theorem mapM_numberCell (hs : s.Undamaged) (rows : List ValueRow) :
    ((rows.map s.numberCell).filter fun c => !c.isNull).mapM Cell.asNumber? =
      some (rows.filterMap fun v => v.value.asNumber?) := by
  have hcell : ∀ v, s.numberCell v = v.value.asNumber?.elim .null .real := by
    rw [Undamaged] at hs
    intro v
    simp [numberCell, oddCells?, hs, Damage.none]
  induction rows with
  | nil => rfl
  | cons v rows ih =>
    rw [List.map_cons, List.filterMap_cons, hcell]
    cases v.value.asNumber? with
    | none => simpa [Cell.isNull] using ih
    | some x =>
      rw [Option.elim_some, List.filter_cons_of_pos (by rfl), List.mapM_cons, ih]
      rfl

theorem count_ofList (xs : List Float) : (NumberSummary.ofList xs).count = xs.length := by
  cases xs <;> rfl

/-- What belongs to one of several owners is counted owner by owner. -/
theorem countP_contains {α : Type} {owner : α → Int} {p : α → Bool} (l : List α) {ids : List Int}
    (hids : ids.Nodup) :
    l.countP (fun v => ids.contains (owner v) && p v) =
      (ids.map fun id => (l.filter fun v => owner v == id).countP p).sum := by
  induction ids with
  | nil => simp
  | cons id ids ih =>
    rw [List.nodup_cons] at hids
    rw [List.map_cons, List.sum_cons, ← ih hids.2,
      List.countP_eq_countP_filter_add l _ fun v => owner v == id]
    congr 1
    · refine List.countP_congr fun v hv => ?_
      obtain ⟨-, howner⟩ := List.mem_filter.1 hv
      rw [List.contains_cons, howner, Bool.true_or, Bool.true_and]
    · rw [List.countP_filter]
      refine List.countP_congr fun v _ => ?_
      by_cases howner : owner v = id
      · simp [howner, hids.1]
      · simp [howner]

/-- A metric's numbers that match a query. -/
theorem countP_admitsOwned (hs : s.Consistent) {m : MetricRow} {r : ReportRow}
    (hm : m ∈ s.metrics.rows) (hr : r ∈ s.reports.rows) (hmr : m.reportId = r.id) {q : ValueQuery}
    (hq : m.id ∈ q.metricIds) :
    (s.valuesOf m.id).countP (fun v => v.value.asNumber?.isSome && s.admitsOwned q v) =
      (s.timedOf m.id).countP fun v =>
        v.value.asNumber?.isSome && admitsFrom q r.startMs v.timeMs := by
  rw [timedOf, List.countP_map]
  refine List.countP_congr fun v hv => ?_
  rw [admitsOwned_eq hs hm hr hmr hq (mem_valuesOf.1 hv).2]
  rfl

theorem count_summarizeNumbers (hs : s.Consistent) {q : ValueQuery} (hids : q.metricIds.Nodup)
    {summary : NumberSummary} (h : s.summarizeNumbers q = .ok summary) :
    summary.count = (q.metricIds.map fun id => (s.valuesOf id).countP fun v =>
      v.value.asNumber?.isSome && s.admitsOwned q v).sum := by
  unfold summarizeNumbers at h
  rw [need_eq_ok hs.undamaged] at h
  split at h
  · next hempty =>
    cases h
    rw [List.isEmpty_iff.1 hempty]
    rfl
  obtain ⟨-, -, h⟩ := bind_eq_ok.1 h
  dsimp only at h
  rw [mapM_numberCell hs.undamaged] at h
  cases h
  rw [count_ofList, List.length_filterMap_eq_countP, (List.mergeSort_perm _ _).countP_eq,
    List.countP_filter]
  refine Eq.trans (List.countP_congr fun v _ => ?_) (countP_contains s.values.rows hids)
  -- what matches the query is of one of its metrics
  have hadmits : s.admits q = q.admits := testValue_eq hs.undamaged _ _
  by_cases hmem : v.metricId ∈ q.metricIds
  · simp [hmem]
  · simp [admitsOwned, hadmits, ValueQuery.admits, hmem]

end Store

end Telemetry
