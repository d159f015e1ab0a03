import Mathlib.Algebra.Order.Ring.Int
import Telemetry.Proofs.Entries
import Telemetry.Proofs.Keys
import Telemetry.Proofs.Moments

/-!
# Time in state as a count of moments

A list of values makes a step function: at each moment the state is that of the newest value up to
then.  `TimeInState` reads the values of a window in the order of time and adds up differences.  What
it comes to is a number of moments: for each label, those milliseconds of the window at which the
step function has this label.  So values can be compared by the step functions that they make,
whatever the lists are.
-/

namespace Telemetry

/-! ### Totals of a map -/

namespace KeyMap

/-- The sum of the entries whose key is selected. -/
def total (p : String → Bool) (m : KeyMap Int) : Int :=
  ((m.entries.filter fun e => p e.1).map (·.2)).sum

theorem total_putEntry (p : String → Bool) (key : String) (ms : Int)
    (entries : List (String × Int)) (h : KeysIncreasing entries) :
    (((putEntry key (((entries.find? (·.1 == key)).map (·.2)).getD 0 + ms) entries).filter
        fun e => p e.1).map (·.2)).sum =
      ((entries.filter fun e => p e.1).map (·.2)).sum + if p key then ms else 0 := by
  induction entries with
  | nil => cases hp : p key <;> simp [putEntry, hp]
  | cons head rest ih =>
    obtain ⟨k, v⟩ := head
    obtain ⟨hhead, hrest⟩ := List.pairwise_cons.1 h
    unfold putEntry
    split
    · next hlt =>
      -- keys increase, so the new one is not further on
      have hne : ∀ e ∈ (k, v) :: rest, (e.1 == key) = false := by
        intro e he
        rw [beq_eq_false_iff_ne]
        rintro rfl
        rcases List.mem_cons.1 he with rfl | he
        · exact String.lt_irrefl _ hlt
        · exact String.lt_irrefl _ (String.lt_trans hlt (hhead e he))
      have hnone : ((k, v) :: rest).find? (·.1 == key) = none :=
        List.find?_eq_none.2 fun e he => by simp [hne e he]
      rw [hnone, List.filter_cons]
      cases p key <;> simp [Int.add_comm]
    · next hge =>
      split
      · next hlt =>
        have hne : (k == key) = false := by
          rw [beq_eq_false_iff_ne]
          rintro rfl
          exact String.lt_irrefl _ hlt
        rw [List.find?_cons, hne, List.filter_cons, List.filter_cons]
        have hrest := ih hrest
        split <;> simp only [List.map_cons, List.sum_cons, hrest, Int.add_assoc]
      · next hle =>
        obtain rfl : key = k := String.le_antisymm (String.not_lt.1 hle) (String.not_lt.1 hge)
        rw [List.find?_cons, List.filter_cons, List.filter_cons]
        cases p key <;> simp [Int.add_comm, Int.add_assoc]

theorem total_addTime (p : String → Bool) (m : KeyMap Int) (label : String) (ms : Int) :
    total p (TimeInState.addTime m label ms) = total p m + if p label then ms else 0 :=
  total_putEntry p label ms m.entries m.increasing

/-- A key has one entry. -/
theorem total_key (m : KeyMap Int) (key : String) : total (· == key) m = (m.get? key).getD 0 := by
  obtain ⟨entries, h⟩ := m
  change ((entries.filter fun e => e.1 == key).map (·.2)).sum =
    ((entries.find? (·.1 == key)).map (·.2)).getD 0
  induction entries with
  | nil => rfl
  | cons e entries ih =>
    obtain ⟨hhead, hrest⟩ := List.pairwise_cons.1 h
    by_cases hkey : e.1 = key
    · have hnone : entries.filter (fun e => e.1 == key) = [] := by
        refine List.filter_eq_nil_iff.2 fun x hx hxkey => ?_
        have hlt := hhead x hx
        rw [hkey, beq_iff_eq.1 hxkey] at hlt
        exact String.lt_irrefl _ hlt
      simp [hkey, hnone]
    · simpa [hkey] using ih hrest

end KeyMap

/-! ### Moments of a window -/

/-- The moments from one time up to another, the end not included, at which a state is selected. -/
def momentsIn (startMs endMs : Int) (p : String → Bool) (state : Int → Option String) : Int :=
  (List.range (endMs - startMs).toNat).countP fun (i : Nat) => (state (startMs + i)).any p

section Moments

variable {a b c : Int} {p : String → Bool} {state state' : Int → Option String}

theorem momentsIn_congr (h : ∀ t, a ≤ t → t < b → state t = state' t) :
    momentsIn a b p state = momentsIn a b p state' := by
  refine congrArg Nat.cast (List.countP_congr fun i hi => ?_)
  rw [List.mem_range] at hi
  rw [h (a + i) (by omega) (by omega)]

theorem momentsIn_split (hab : a ≤ b) (hbc : b ≤ c) :
    momentsIn a c p state = momentsIn a b p state + momentsIn b c p state := by
  have hlength : (c - a).toNat = (b - a).toNat + (c - b).toNat := by omega
  have hshift : ∀ i : Nat, a + ((b - a).toNat + i : Nat) = b + i := by omega
  rw [momentsIn, hlength, List.range_add, List.countP_append, List.countP_map, momentsIn, momentsIn,
    Int.natCast_add]
  congr 2
  exact List.countP_congr fun i _ => by rw [Function.comp_apply, hshift]

/-- Where one state holds all the time, it is the time or nothing. -/
theorem momentsIn_const (hab : a ≤ b) (label? : Option String)
    (h : ∀ t, a ≤ t → t < b → state t = label?) :
    momentsIn a b p state = if label?.any p then b - a else 0 := by
  have hconst : momentsIn a b p state = momentsIn a b p fun _ => label? := momentsIn_congr h
  rw [hconst, momentsIn]
  split
  · next hp =>
    rw [List.countP_eq_length.2 fun _ _ => hp, List.length_range, Int.toNat_of_nonneg (by omega)]
  · next hp => rw [List.countP_eq_zero.2 fun _ _ => hp, Int.natCast_zero]

theorem momentsIn_empty (hba : b ≤ a) : momentsIn a b p state = 0 := by
  have hlength : (b - a).toNat = 0 := by omega
  rw [momentsIn, hlength]
  rfl

theorem momentsIn_none (h : ∀ t, a ≤ t → t < b → state t = none) : momentsIn a b p state = 0 := by
  rcases le_total a b with hab | hba
  · exact (momentsIn_const hab none h).trans (if_neg (by simp))
  · exact momentsIn_empty hba

/-- Where there is a state all the time, all moments together are the time. -/
theorem momentsIn_all (hab : a ≤ b) (h : ∀ t, a ≤ t → t < b → (state t).isSome) :
    momentsIn a b (fun _ => true) state = b - a := by
  have hall : ∀ i ∈ List.range (b - a).toNat, (state (a + i)).any (fun _ => true) = true := by
    intro i hi
    rw [List.mem_range] at hi
    obtain ⟨label, hlabel⟩ := Option.isSome_iff_exists.1 (h (a + i) (by omega) (by omega))
    rw [hlabel]
    rfl
  rw [momentsIn, List.countP_eq_length.2 hall, List.length_range, Int.toNat_of_nonneg (by omega)]

end Moments

/-! ### The scan -/

namespace TimeInState

/-- The times of a scan over a list of values. -/
def timesOf (w : Window) (vs : List TimedValue) : KeyMap Int :=
  (vs.foldl (accept w) initial).closedTimes w

variable {w : Window}

theorem accept_of_lt {s : TimeInState} {v : TimedValue} (h : w.endMs < v.timeMs) :
    s.accept w v = s := if_pos h

theorem foldl_accept_of_lt {s : TimeInState} {vs : List TimedValue}
    (h : ∀ v ∈ vs, w.endMs < v.timeMs) : vs.foldl (accept w) s = s := by
  induction vs with
  | nil => rfl
  | cons v vs ih =>
    rw [List.foldl_cons, accept_of_lt (h v (by simp))]
    exact ih fun x hx => h x (by simp [hx])

theorem accept_first {s : TimeInState} {v : TimedValue} (h : v.timeMs ≤ w.endMs)
    (hlast : s.last = none) : s.accept w v = { s with last := some v } := by
  rw [accept, if_neg (not_lt_of_ge h)]
  simp only [hlast]

/-- The times with what a value's state adds up to a time. -/
def heldUpTo (w : Window) (times : KeyMap Int) (v : TimedValue) (t : Int) : KeyMap Int :=
  match v.value.stateLabel? with
  | none => times
  | some label => addTime times label (t - w.clamp v.timeMs)

theorem total_heldUpTo (p : String → Bool) (times : KeyMap Int) (v : TimedValue) (t : Int) :
    (heldUpTo w times v t).total p =
      times.total p + if v.value.stateLabel?.any p then t - w.clamp v.timeMs else 0 := by
  unfold heldUpTo
  cases v.value.stateLabel? with
  | none => simp
  | some label => exact KeyMap.total_addTime p times label _

theorem advance_times (s : TimeInState) (label next : String) (elapsed : Int) :
    (s.advance label next elapsed).times = s.times := by
  simp only [advance]
  split <;> rfl

/-- One value more: the state of the one before held up to it. -/
theorem accept_next {s : TimeInState} {v x : TimedValue} (h : x.timeMs ≤ w.endMs)
    (hlast : s.last = some v) :
    (s.accept w x).last = some x ∧
      (s.accept w x).times = heldUpTo w s.times v (w.clamp x.timeMs) := by
  rw [accept, if_neg (not_lt_of_ge h), heldUpTo]
  refine ⟨rfl, ?_⟩
  simp only [hlast]
  cases v.value.stateLabel? with
  | none => rfl
  | some label =>
    cases x.value.stateLabel? with
    | none => rfl
    | some next =>
      change (advance _ label next _).times = _
      rw [advance_times]

theorem closedTimes_eq {s : TimeInState} {v : TimedValue} (hlast : s.last = some v) :
    s.closedTimes w = heldUpTo w s.times v (w.clamp w.endMs) := by
  cases hlabel : v.value.stateLabel? with
  | none => simp only [closedTimes, heldUpTo, hlast, hlabel]
  | some label => simp only [closedTimes, heldUpTo, hlast, hlabel]

/-- The times do not depend on how long before the window a value is from. -/
theorem foldl_accept_congr (vs : List TimedValue) :
    ∀ {s s' : TimeInState} {v v' : TimedValue}, s.last = some v → s'.last = some v' →
      s.times = s'.times → v.value = v'.value → w.clamp v.timeMs = w.clamp v'.timeMs →
      (vs.foldl (accept w) s).closedTimes w = (vs.foldl (accept w) s').closedTimes w := by
  induction vs with
  | nil =>
    intro s s' v v' hlast hlast' htimes hvalue hclamp
    rw [List.foldl_nil, List.foldl_nil, closedTimes_eq hlast, closedTimes_eq hlast', heldUpTo,
      heldUpTo, htimes, hvalue, hclamp]
  | cons x vs ih =>
    intro s s' v v' hlast hlast' htimes hvalue hclamp
    rw [List.foldl_cons, List.foldl_cons]
    by_cases hx : w.endMs < x.timeMs
    · rw [accept_of_lt hx, accept_of_lt hx]
      exact ih hlast hlast' htimes hvalue hclamp
    · rw [not_lt] at hx
      obtain ⟨hnext, htimes₁⟩ := accept_next hx hlast
      obtain ⟨hnext', htimes₁'⟩ := accept_next hx hlast'
      refine ih hnext hnext' ?_ rfl rfl
      rw [htimes₁, htimes₁', heldUpTo, heldUpTo, htimes, hvalue, hclamp]

theorem timesOf_congr_head {v v' : TimedValue} (hvalue : v.value = v'.value)
    (hv : v.timeMs ≤ w.startMs) (hv' : v'.timeMs ≤ w.startMs) (hw : w.startMs ≤ w.endMs)
    (vs : List TimedValue) : timesOf w (v :: vs) = timesOf w (v' :: vs) := by
  rw [timesOf, timesOf, List.foldl_cons, List.foldl_cons, accept_first (hv.trans hw) rfl,
    accept_first (hv'.trans hw) rfl]
  refine foldl_accept_congr vs rfl rfl rfl hvalue ?_
  simp only [Window.clamp]
  omega

/-- What the rest of a scan adds: the moments from the latest value on. -/
theorem foldl_accept_total (p : String → Bool) (vs : List TimedValue) :
    ∀ {s : TimeInState} {v : TimedValue}, s.last = some v → v.timeMs ≤ w.endMs →
      (v :: vs).Pairwise (fun a b => a.timeMs ≤ b.timeMs) →
      ((vs.foldl (accept w) s).closedTimes w).total p = s.times.total p +
        momentsIn (w.clamp v.timeMs) (w.clamp w.endMs) p (TimedValue.stateAt (v :: vs)) := by
  induction vs with
  | nil =>
    intro s v hlast hv _
    have hmono : w.clamp v.timeMs ≤ w.clamp w.endMs := by
      simp only [Window.clamp]
      omega
    rw [List.foldl_nil, closedTimes_eq hlast, total_heldUpTo,
      momentsIn_const hmono v.value.stateLabel?]
    · intro t hvt _
      have hle : v.timeMs ≤ t := by
        simp only [Window.clamp] at hvt
        omega
      rw [TimedValue.stateAt, TimedValue.newestAt_singleton hle]
      rfl
  | cons x vs ih =>
    intro s v hlast hv hsorted
    obtain ⟨hvx, hsorted'⟩ := List.pairwise_cons.1 hsorted
    have hle := hvx x (by simp)
    rw [List.foldl_cons]
    by_cases hx : w.endMs < x.timeMs
    · -- it comes after the end of the window
      have hskipped : (v :: vs).Pairwise fun a b => a.timeMs ≤ b.timeMs :=
        hsorted.sublist (by simp)
      rw [accept_of_lt hx, ih hlast hv hskipped]
      congr 1
      refine momentsIn_congr fun t hvt ht => ?_
      have htx : t < x.timeMs := by
        simp only [Window.clamp] at hvt ht
        omega
      simp only [TimedValue.stateAt, TimedValue.newestAt, List.filter_cons,
        decide_eq_false (not_le_of_gt htx), Bool.false_eq_true, if_false]
    · rw [not_lt] at hx
      obtain ⟨hlast', htimes⟩ := accept_next hx hlast
      rw [ih hlast' hx hsorted', htimes, total_heldUpTo, Int.add_assoc]
      congr 1
      have hmono : w.clamp v.timeMs ≤ w.clamp x.timeMs ∧ w.clamp x.timeMs ≤ w.clamp w.endMs := by
        simp only [Window.clamp]
        omega
      rw [momentsIn_split hmono.1 hmono.2, momentsIn_const hmono.1 v.value.stateLabel?]
      · -- from the next value on the one before does not count
        congr 1
        refine momentsIn_congr fun t hxt hend => ?_
        have hxt : x.timeMs ≤ t := by
          simp only [Window.clamp] at hxt hend
          omega
        rw [TimedValue.stateAt, TimedValue.stateAt, TimedValue.newestAt_cons_cons hle hxt]
      · intro t hvt htx
        have htimes : v.timeMs ≤ t ∧ t < x.timeMs := by
          simp only [Window.clamp] at hvt htx
          omega
        have hrest : (x :: vs).filter (fun y => decide (y.timeMs ≤ t)) = [] := by
          refine List.filter_eq_nil_iff.2 fun y hy => ?_
          have hxy : x.timeMs ≤ y.timeMs := by
            rcases List.mem_cons.1 hy with rfl | hy
            · exact le_rfl
            · exact (List.pairwise_cons.1 hsorted').1 y hy
          simpa using htimes.2.trans_le hxy
        rw [TimedValue.stateAt, TimedValue.newestAt,
          List.filter_cons_of_pos (by simpa using htimes.1), hrest]
        rfl

/-- The selected times of a scan are the moments at which the step function is so. -/
theorem timesOf_total (p : String → Bool) (vs : List TimedValue)
    (hsorted : vs.Pairwise fun a b => a.timeMs ≤ b.timeMs) :
    (timesOf w vs).total p = momentsIn w.startMs w.endMs p (TimedValue.stateAt vs) := by
  cases vs with
  | nil => exact (momentsIn_none fun _ _ _ => rfl).symm
  | cons v vs =>
    obtain ⟨hv, -⟩ := List.pairwise_cons.1 hsorted
    have hbefore : ∀ t, t < v.timeMs → TimedValue.stateAt (v :: vs) t = none := by
      intro t ht
      rw [TimedValue.stateAt, TimedValue.newestAt_of_lt]
      · rfl
      · intro x hx
        rcases List.mem_cons.1 hx with rfl | hx
        · exact ht
        · exact ht.trans_le (hv x hx)
    rw [timesOf, List.foldl_cons]
    by_cases hend : w.endMs < v.timeMs
    · -- all of them come after the end of the window
      rw [accept_of_lt hend, foldl_accept_of_lt fun x hx => hend.trans_le (hv x hx)]
      refine Eq.trans ?_ (momentsIn_none fun t _ ht => hbefore t (ht.trans hend)).symm
      rfl
    · rw [not_lt] at hend
      rw [accept_first hend rfl, foldl_accept_total p vs rfl hend hsorted]
      rcases le_total w.startMs w.endMs with hw | hw
      · have hclamp : w.startMs ≤ w.clamp v.timeMs ∧ w.clamp v.timeMs ≤ w.endMs ∧
            w.clamp w.endMs = w.endMs := by
          simp only [Window.clamp]
          omega
        have hnone : momentsIn w.startMs (w.clamp v.timeMs) p (TimedValue.stateAt (v :: vs)) = 0 := by
          refine momentsIn_none fun t hwt ht => hbefore t ?_
          simp only [Window.clamp] at ht
          omega
        rw [hclamp.2.2, momentsIn_split hclamp.1 hclamp.2.1, hnone]
        rfl
      · have hclamp : w.clamp w.endMs ≤ w.clamp v.timeMs := by
          simp only [Window.clamp]
          omega
        rw [momentsIn_empty hw, momentsIn_empty hclamp]
        rfl

end TimeInState

/-! ### What a scan reads -/

namespace Window

variable {w : Window}

theorem scannedOf_sorted (w : Window) (reportStart : Int) (values : List TimedValue) :
    (w.scannedOf reportStart values).Pairwise fun a b => a.timeMs ≤ b.timeMs := by
  rw [scannedOf, List.pairwise_append]
  refine ⟨?_, sortedBy_sorted _, fun a ha b hb => ?_⟩
  · cases TimedValue.newest? (values.filter fun v => decide (v.timeMs ≤ w.startMs)) <;> simp
  · have ha := (List.mem_filter.1 (TimedValue.newest?_mem (Option.mem_toList.1 ha))).2
    have hb := (List.mem_filter.1 ((sortedBy_perm _).mem_iff.1 hb)).2
    simp only [Bool.and_eq_true, decide_eq_true_eq] at ha hb
    exact ha.trans hb.1.1.le

/-- At every moment of the window a scan has read what the values say. -/
theorem newestAt_scannedOf {reportStart : Int} {values : List TimedValue}
    (hown : ∀ v ∈ values, w.startMs < v.timeMs → reportStart ≤ v.timeMs) {t : Int}
    (hstart : w.startMs ≤ t) (hend : t ≤ w.endMs) :
    TimedValue.newestAt (w.scannedOf reportStart values) t = TimedValue.newestAt values t := by
  rw [scannedOf, TimedValue.newestAt_read, TimedValue.newestAt, TimedValue.newestAt,
    ← TimedValue.newest?_split w.startMs (values.filter _), List.filter_append, List.filter_filter,
    List.filter_filter, List.filter_filter, List.filter_filter]
  · congr 2
    · exact List.filter_congr fun v _ => Bool.and_comm _ _
    · refine List.filter_congr fun v hv => ?_
      rw [Bool.eq_iff_iff]
      simp only [Bool.and_eq_true, decide_eq_true_eq]
      constructor
      · exact fun h => ⟨h.2.1.1, h.1⟩
      · exact fun h => ⟨h.2, ⟨h.1, h.2.trans hend⟩, hown v hv h.1⟩
  · intro v hv
    exact (of_decide_eq_true (List.mem_filter.1 hv).2).trans hstart

end Window

end Telemetry
