import Telemetry.Proofs.Queries

/-!
# Lists, moment by moment

A stable sort by a number keeps the elements of each number in their order, and nothing else but
this and the order of the numbers determines what it gives.  So a list of timed values is looked at
moment by moment: which values it has at a time, in their order.  The newest value depends on the
last one of each moment alone.
-/

namespace Telemetry

/-! ### Sorting by a number -/

section Sorting

variable {α : Type} {key : α → Int}

/-- The elements of one number, in their order. -/
def alike (key : α → Int) (n : Int) (xs : List α) : List α := xs.filter fun x => key x == n

theorem mem_alike {n : Int} {xs : List α} {x : α} : x ∈ alike key n xs ↔ x ∈ xs ∧ key x = n := by
  simp [alike]

theorem alike_append (n : Int) (xs ys : List α) :
    alike key n (xs ++ ys) = alike key n xs ++ alike key n ys := List.filter_append xs ys

theorem alike_filter (n : Int) (p : α → Bool) (xs : List α) :
    alike key n (xs.filter p) = (alike key n xs).filter p := by
  rw [alike, alike, List.filter_filter, List.filter_filter]
  exact List.filter_congr fun x _ => Bool.and_comm _ _

/-- Sorted by a number; elements of one number stay in their order. -/
def sortedBy (key : α → Int) (xs : List α) : List α :=
  xs.mergeSort fun a b => decide (key a ≤ key b)

theorem key_trans (a b c : α) (hab : decide (key a ≤ key b) = true)
    (hbc : decide (key b ≤ key c) = true) : decide (key a ≤ key c) = true :=
  decide_eq_true ((of_decide_eq_true hab).trans (of_decide_eq_true hbc))

theorem key_total (a b : α) : (decide (key a ≤ key b) || decide (key b ≤ key a)) = true := by
  rw [Bool.or_eq_true, decide_eq_true_eq, decide_eq_true_eq]
  exact le_total _ _

theorem sortedBy_sorted (xs : List α) : (sortedBy key xs).Pairwise fun a b => key a ≤ key b :=
  (List.pairwise_mergeSort key_trans key_total xs).imp of_decide_eq_true

theorem sortedBy_perm (xs : List α) : (sortedBy key xs).Perm xs := List.mergeSort_perm _ _

theorem alike_sortedBy (n : Int) (xs : List α) : alike key n (sortedBy key xs) = alike key n xs := by
  -- what is alike is sorted as it stands, so it is found in this order
  have hsorted : (alike key n xs).Pairwise fun a b => decide (key a ≤ key b) = true := by
    refine List.pairwise_of_forall_mem_list fun a ha b hb => ?_
    rw [(mem_alike.1 ha).2, (mem_alike.1 hb).2]
    exact decide_eq_true le_rfl
  have hsub : (alike key n xs).Sublist (sortedBy key xs) :=
    List.sublist_mergeSort key_trans key_total hsorted List.filter_sublist
  have hall : (alike key n xs).filter (fun x => key x == n) = alike key n xs :=
    List.filter_eq_self.2 fun x hx => beq_iff_eq.2 (mem_alike.1 hx).2
  have hfilter : (alike key n xs).Sublist (alike key n (sortedBy key xs)) :=
    hall ▸ hsub.filter fun x => key x == n
  exact (hfilter.eq_of_length ((sortedBy_perm xs).filter _).length_eq.symm).symm

/-- Sorted lists with the same elements of each number are equal. -/
theorem eq_of_alike {xs ys : List α} (hxs : xs.Pairwise fun a b => key a ≤ key b)
    (hys : ys.Pairwise fun a b => key a ≤ key b) (h : ∀ n, alike key n xs = alike key n ys) :
    xs = ys := by
  induction xs generalizing ys with
  | nil =>
    cases ys with
    | nil => rfl
    | cons y ys => simpa [alike] using h (key y)
  | cons x xs ih =>
    cases ys with
    | nil => simpa [alike] using h (key x)
    | cons y ys =>
      rw [List.pairwise_cons] at hxs hys
      -- each list has the first number of the other one
      have hmem : ∀ {a b : α} {as bs : List α}, alike key (key a) (a :: as) = alike key (key a) (b :: bs) →
          (∀ c ∈ bs, key b ≤ key c) → key b ≤ key a := by
        intro a b as bs heq hle
        have ha : a ∈ alike key (key a) (b :: bs) := heq ▸ mem_alike.2 ⟨by simp, rfl⟩
        rcases List.mem_cons.1 (mem_alike.1 ha).1 with rfl | ha
        · exact le_rfl
        · exact hle a ha
      have hkey : key x = key y :=
        le_antisymm (hmem (h (key y)).symm hxs.1) (hmem (h (key x)) hys.1)
      have hhead := h (key x)
      rw [alike, alike, List.filter_cons_of_pos (by simp), List.filter_cons_of_pos (by simp [hkey]),
        List.cons.injEq] at hhead
      obtain ⟨rfl, -⟩ := hhead
      refine congrArg (x :: ·) (ih hxs.2 hys.2 fun n => ?_)
      have hn := h n
      simp only [alike, List.filter_cons] at hn
      split at hn
      · exact (List.cons.inj hn).2
      · exact hn

theorem sortedBy_congr {xs ys : List α} (h : ∀ n, alike key n xs = alike key n ys) :
    sortedBy key xs = sortedBy key ys :=
  eq_of_alike (sortedBy_sorted xs) (sortedBy_sorted ys) fun n => by
    rw [alike_sortedBy, alike_sortedBy, h n]

/-- Selecting and sorting commute. -/
theorem sortedBy_filter (p : α → Bool) (xs : List α) :
    sortedBy key (xs.filter p) = (sortedBy key xs).filter p :=
  eq_of_alike (sortedBy_sorted _) ((sortedBy_sorted xs).filter p) fun n => by
    rw [alike_sortedBy, alike_filter, alike_filter, alike_sortedBy]

end Sorting

namespace TimedValue

theorem byTime_eq (xs : List TimedValue) : byTime xs = sortedBy (·.timeMs) xs := rfl

theorem byTime_append (xs ys : List TimedValue) :
    byTime (byTime xs ++ ys) = byTime (xs ++ ys) := by
  rw [byTime_eq, byTime_eq, byTime_eq]
  refine sortedBy_congr fun t => ?_
  rw [alike_append, alike_append, alike_sortedBy]

/-! ### The newest value -/

theorem newest?_last {xs : List TimedValue} {v : TimedValue} (h : newest? xs = some v) :
    (alike (·.timeMs) v.timeMs xs).getLast? = some v := by
  cases xs with
  | nil => cases h
  | cons x xs =>
    obtain ⟨before, after, hsplit, hafter⟩ := foldl_later_split xs x
    rw [newest?, Option.some.injEq] at h
    rw [h] at hsplit hafter
    have hnone : alike (·.timeMs) v.timeMs after = [] :=
      List.filter_eq_nil_iff.2 fun y hy => by simpa using ne_of_lt (hafter y hy)
    have hself : alike (·.timeMs) v.timeMs (v :: after) = [v] := by
      rw [alike, List.filter_cons_of_pos (by simp)]
      exact congrArg (v :: ·) hnone
    rw [hsplit, alike_append, hself, List.getLast?_append]
    rfl

theorem newest?_eq_none {xs : List TimedValue} : newest? xs = none ↔ xs = [] := by
  cases xs <;> simp [newest?]

/-- The newest value is the last one of the latest time. -/
theorem newest?_iff {xs : List TimedValue} {v : TimedValue} :
    newest? xs = some v ↔
      (∀ x ∈ xs, x.timeMs ≤ v.timeMs) ∧ (alike (·.timeMs) v.timeMs xs).getLast? = some v := by
  refine ⟨fun h => ⟨le_newest? h, newest?_last h⟩, fun ⟨hle, hlast⟩ => ?_⟩
  have hmem := (mem_alike.1 (List.mem_of_getLast? hlast)).1
  cases hnewest : newest? xs with
  | none =>
    rw [newest?_eq_none.1 hnewest] at hmem
    cases hmem
  | some w =>
    -- the newest value is of the same time, and there is one last value of it
    have htime : w.timeMs = v.timeMs :=
      le_antisymm (hle w (newest?_mem hnewest)) (le_newest? hnewest v hmem)
    rw [← htime, newest?_last hnewest] at hlast
    exact hlast

/-- Lists with the same last value at each moment have the same newest value. -/
theorem newest?_congr {xs ys : List TimedValue}
    (h : ∀ t, (alike (·.timeMs) t xs).getLast? = (alike (·.timeMs) t ys).getLast?) :
    newest? xs = newest? ys := by
  -- a moment of the one list is a moment of the other
  have hmoment : ∀ {as bs : List TimedValue}, (∀ t, (alike (·.timeMs) t as).getLast? =
      (alike (·.timeMs) t bs).getLast?) → ∀ a ∈ as, ∃ b ∈ bs, b.timeMs = a.timeMs := by
    intro as bs heq a ha
    have hne : alike (·.timeMs) a.timeMs as ≠ [] := List.ne_nil_of_mem (mem_alike.2 ⟨ha, rfl⟩)
    have hsome := heq a.timeMs
    rw [List.getLast?_eq_some_getLast hne] at hsome
    obtain ⟨hb, htime⟩ := mem_alike.1 (List.mem_of_getLast? hsome.symm)
    exact ⟨_, hb, htime⟩
  cases hys : newest? ys with
  | none =>
    rw [newest?_eq_none] at hys ⊢
    refine List.eq_nil_iff_forall_not_mem.2 fun x hx => ?_
    obtain ⟨y, hy, -⟩ := hmoment h x hx
    rw [hys] at hy
    cases hy
  | some v =>
    obtain ⟨hle, hlast⟩ := newest?_iff.1 hys
    refine newest?_iff.2 ⟨fun x hx => ?_, (h v.timeMs).trans hlast⟩
    obtain ⟨y, hy, htime⟩ := hmoment h x hx
    exact htime ▸ hle y hy

theorem newest?_append_byTime (xs ys : List TimedValue) :
    newest? (xs ++ byTime ys) = newest? (xs ++ ys) :=
  newest?_congr fun t => by rw [byTime_eq, alike_append, alike_append, alike_sortedBy]

theorem newest?_byTime (vs : List TimedValue) : newest? (byTime vs) = newest? vs :=
  newest?_append_byTime [] vs

theorem newest?_filter_byTime (p : TimedValue → Bool) (vs : List TimedValue) :
    newest? ((byTime vs).filter p) = newest? (vs.filter p) := by
  rw [byTime_eq, ← sortedBy_filter, ← byTime_eq, newest?_byTime]

/-- The values up to a time may stand before the others. -/
theorem newest?_split (t : Int) (xs : List TimedValue) :
    newest? (xs.filter (fun v => decide (v.timeMs ≤ t)) ++
      xs.filter fun v => decide (t < v.timeMs)) = newest? xs := by
  refine newest?_congr fun n => ?_
  rw [alike_append, alike_filter, alike_filter]
  congr 1
  by_cases hn : n ≤ t
  · rw [List.filter_eq_self.2, List.filter_eq_nil_iff.2, List.append_nil]
    · intro x hx
      simpa [(mem_alike.1 hx).2] using hn
    · intro x hx
      simpa [(mem_alike.1 hx).2] using hn
  · rw [List.filter_eq_nil_iff.2, List.filter_eq_self.2, List.nil_append]
    · intro x hx
      simpa [(mem_alike.1 hx).2] using hn
    · intro x hx
      simpa [(mem_alike.1 hx).2] using hn

/-! ### At a moment -/

/-- The newest value up to a moment. -/
def newestAt (vs : List TimedValue) (t : Int) : Option TimedValue :=
  newest? (vs.filter fun v => decide (v.timeMs ≤ t))

/-- The state at a moment. -/
def stateAt (vs : List TimedValue) (t : Int) : Option String :=
  (newestAt vs t).bind (·.value.stateLabel?)

theorem newestAt_of_lt {vs : List TimedValue} {t : Int} (h : ∀ v ∈ vs, t < v.timeMs) :
    newestAt vs t = none := by
  have hnone : vs.filter (fun v => decide (v.timeMs ≤ t)) = [] :=
    List.filter_eq_nil_iff.2 fun v hv => by simpa using h v hv
  rw [newestAt, hnone]
  rfl

theorem newestAt_singleton {v : TimedValue} {t : Int} (h : v.timeMs ≤ t) :
    newestAt [v] t = some v := by
  rw [newestAt, List.filter_cons_of_pos (by simpa using h)]
  rfl

/-- Old values may be read as their newest one, and later ones in the order of time. -/
theorem newestAt_read {old : List TimedValue} (new : List TimedValue) {t : Int}
    (hold : ∀ v ∈ old, v.timeMs ≤ t) :
    newestAt ((newest? old).toList ++ byTime new) t = newestAt (old ++ new) t := by
  have hnewest : (newest? old).toList.filter (fun v => decide (v.timeMs ≤ t)) =
      (newest? old).toList := by
    refine List.filter_eq_self.2 fun v hv => decide_eq_true (hold v ?_)
    exact newest?_mem (Option.mem_toList.1 hv)
  have hall : old.filter (fun v => decide (v.timeMs ≤ t)) = old :=
    List.filter_eq_self.2 fun v hv => decide_eq_true (hold v hv)
  rw [newestAt, newestAt, List.filter_append, List.filter_append, hnewest, hall, byTime_eq,
    ← sortedBy_filter, ← byTime_eq, newest?_append_byTime, ← newest?_append]

/-- A value does not count once a later one has come. -/
theorem newestAt_cons_cons {v x : TimedValue} {t : Int} (hvx : v.timeMs ≤ x.timeMs)
    (hx : x.timeMs ≤ t) (vs : List TimedValue) :
    newestAt (v :: x :: vs) t = newestAt (x :: vs) t := by
  have hlater : later v x = x := if_pos hvx
  rw [newestAt, newestAt, List.filter_cons_of_pos (by simpa using hvx.trans hx),
    List.filter_cons_of_pos (by simpa using hx), newest?, newest?, List.foldl_cons, hlater]

end TimedValue

theorem exists_newest? {vs : List TimedValue} (h : vs ≠ []) :
    ∃ v, TimedValue.newest? vs = some v := by
  cases hnone : TimedValue.newest? vs with
  | none => exact absurd (TimedValue.newest?_eq_none.1 hnone) h
  | some v => exact ⟨v, rfl⟩

end Telemetry
