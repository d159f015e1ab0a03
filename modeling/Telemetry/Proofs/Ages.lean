import Telemetry.Proofs.Floats
import Telemetry.Store.Reports

/-!
# Ages

The age of a report is the difference of two times.  Where 64 bits do not hold it, it becomes the
difference of two floats.  This is rounded three times, but stays on its side of what 64 bits hold;
so an age is compared as if it was exact.
-/

namespace Telemetry

open Float.Model Float.Model.UnpackedFloat

namespace Rounding

variable {x : Float} {s : Sign} {n : Nat}

/-! ### Comparing -/

theorem HasMagnitude.lt_zero (h : HasMagnitude x s n) : x < 0.0 ↔ s = .negative := by
  obtain ⟨m, e, hm, hunpack, -⟩ := h
  have hzero : (0.0 : Float).toModel.unpack = .zero .positive := rfl
  change decide (x.toModel.unpack.lt (0.0 : Float).toModel.unpack = true) = true ↔ _
  rw [hunpack, hzero]
  cases s with
  | positive =>
    have hlt : (UnpackedFloat.finite .positive m e hm).lt (.zero .positive) = false := rfl
    simp [hlt]
  | negative =>
    have hlt : (UnpackedFloat.finite .negative m e hm).lt (.zero .positive) = true := rfl
    simp [hlt]

theorem HasMagnitude.isInf (h : HasMagnitude x s n) : x.isInf = false := by
  obtain ⟨m, e, hm, hunpack, -⟩ := h
  change x.toModel.unpack.isInf = false
  rw [hunpack]
  rfl

theorem HasMagnitude.isNaN (h : HasMagnitude x s n) : x.isNaN = false := by
  obtain ⟨m, e, hm, hunpack, -⟩ := h
  change x.toModel.unpack.isNaN = false
  rw [hunpack]
  rfl

/-- A float beyond 64 bits has no fraction. -/
theorem HasMagnitude.integral (h : HasMagnitude x s n) (hn : 2 ^ 167 ≤ n) :
    (Decimal.Dyadic.ofBits x.toBits).isIntegral = true ∧
      (Decimal.Dyadic.ofBits x.toBits).floor * 2 ^ 104 = n := by
  obtain ⟨m, e, hm, hunpack, hlog, hlow, -, rfl⟩ := h
  obtain ⟨hmantissa, hexponent⟩ := ofBits_eq hlog hunpack
  have hlog' := log2_units hm.ne' (e := e) (by omega)
  have hle : 167 ≤ (units m e).log2 := (Nat.le_log2 (by omega)).2 hn
  have he : 0 ≤ e := by omega
  constructor
  · simp [Decimal.Dyadic.isIntegral, hexponent, he]
  · rw [Decimal.Dyadic.floor, hexponent, hmantissa, if_pos he, Nat.shiftLeft_eq, units, mul_assoc,
      ← pow_add]
    congr 2
    omega

theorem fitsInt64_iff {i : Int} : fitsInt64 i = true ↔ -2 ^ 63 ≤ i ∧ i < 2 ^ 63 := by
  rw [fitsInt64, Bool.and_eq_true, decide_eq_true_eq, decide_eq_true_eq]
  exact and_congr_right fun _ => Int.le_iff_lt_add_one

/-- Integers of 64 bits are below the floats that are beyond and positive, and no others. -/
theorem HasMagnitude.compareIntReal_iff (h : HasMagnitude x s n) (hn : 2 ^ 167 ≤ n) {i : Int}
    (hi : fitsInt64 i = true) : Cell.compareIntReal i x = .lt ↔ s = .positive := by
  obtain ⟨hlow, hhigh⟩ := fitsInt64_iff.1 hi
  obtain ⟨hintegral, hfloor⟩ := h.integral hn
  have hcompare : Cell.compareIntReal i x = compare i (Cell.floorOf x) := by
    simp [Cell.compareIntReal, h.isInf, hintegral]
  rw [hcompare, Int.compare_eq_lt, Cell.floorOf]
  cases s with
  | positive =>
    rw [if_neg (by simp [h.lt_zero])]
    simp only [iff_true]
    omega
  | negative =>
    rw [if_pos (h.lt_zero.2 rfl), hintegral, if_pos rfl]
    simp only [reduceCtorEq, iff_false]
    omega

/-! ### Differences beyond 64 bits -/

/-- A difference that 64 bits do not hold is as large as a float. -/
theorem exists_hasMagnitude_sub (s : Sign) {a b : Nat} (ha : a ≤ 2 ^ 63) (hb : b ≤ 2 ^ 63)
    (hb' : b ≠ 0) (hsum : 2 ^ 63 ≤ a + b) :
    ∃ n, 2 ^ 167 ≤ n ∧ HasMagnitude (Float.ofInt (s.apply a) - Float.ofInt ((-s).apply b)) s n := by
  by_cases hzero : a = 0
  · obtain rfl := hzero
    obtain rfl : b = 2 ^ 63 := by omega
    refine ⟨2 ^ 167, le_rfl, 2 ^ 52, 11, by decide, ?_, rfl, by decide, by decide, rfl⟩
    cases s <;> rfl
  · have hle : 2 ^ 167 ≤ nearest (a * 2 ^ 104) + nearest (b * 2 ^ 104) + 2 ^ 113 := by
      rcases le_total b a with hba | hab
      · exact le_nearest_add ha hba hsum
      · rw [Nat.add_comm (nearest (a * 2 ^ 104))]
        exact le_nearest_add hb hab (by omega)
    have hle₁ : nearest (a * 2 ^ 104) ≤ 2 ^ 168 := nearest_le (by omega)
    have hle₂ : nearest (b * 2 ^ 104) ≤ 2 ^ 168 := nearest_le (by omega)
    exact ⟨_, le_nearest_of_le_add hle (by omega), (hasMagnitude_ofInt s hzero (by omega)).sub
      (hasMagnitude_ofInt (-s) hb' (by omega)) (by omega) (by omega)⟩

theorem exists_hasMagnitude_of_beyond {i j : Int} (hi : fitsInt64 i = true)
    (hj : fitsInt64 j = true) (hij : ¬fitsInt64 (i - j) = true) :
    ∃ s n, 2 ^ 167 ≤ n ∧ HasMagnitude (Float.ofInt i - Float.ofInt j) s n ∧
      (s = .positive ↔ 0 < i - j) := by
  rw [fitsInt64_iff] at hi hj hij
  rcases lt_or_ge 0 (i - j) with hpos | hneg
  · obtain ⟨n, hn, hsub⟩ := exists_hasMagnitude_sub .positive (a := i.natAbs) (b := j.natAbs)
      (by omega) (by omega) (by omega) (by omega)
    have hi' : Sign.positive.apply (i.natAbs : Int) = i := by
      change (i.natAbs : Int) = i
      omega
    have hj' : (-Sign.positive).apply (j.natAbs : Int) = j := by
      change -(j.natAbs : Int) = j
      omega
    rw [hi', hj'] at hsub
    exact ⟨.positive, n, hn, hsub, by simpa using hpos⟩
  · obtain ⟨n, hn, hsub⟩ := exists_hasMagnitude_sub .negative (a := i.natAbs) (b := j.natAbs)
      (by omega) (by omega) (by omega) (by omega)
    have hi' : Sign.negative.apply (i.natAbs : Int) = i := by
      change -(i.natAbs : Int) = i
      omega
    have hj' : (-Sign.negative).apply (j.natAbs : Int) = j := by
      change (j.natAbs : Int) = j
      omega
    rw [hi', hj'] at hsub
    exact ⟨.negative, n, hn, hsub, by simpa using hneg⟩

end Rounding

/-- An age is compared exactly, also where 64 bits do not hold it. -/
theorem ReportRow.isOlder_iff {now maxAge : Int} {r : ReportRow} (hnow : fitsInt64 now = true)
    (hstart : fitsInt64 r.startMs = true) (hage : fitsInt64 maxAge = true) :
    r.isOlder now maxAge = true ↔ maxAge < now - r.startMs := by
  by_cases hfit : fitsInt64 (now - r.startMs) = true
  · rw [isOlder_eq hfit, decide_eq_true_eq]
  · obtain ⟨s, n, hn, hsub, hsign⟩ := Rounding.exists_hasMagnitude_of_beyond hnow hstart hfit
    have hminus : (Cell.int now).minus (.int r.startMs) =
        .real (Float.ofInt now - Float.ofInt r.startMs) := by
      simp only [Cell.minus, Cell.isNull, Cell.counted, if_neg hfit, hsub.isNaN, Bool.or_self,
        Bool.false_eq_true, if_false]
    have hreal : r.isOlder now maxAge =
        (Cell.compareIntReal maxAge (Float.ofInt now - Float.ofInt r.startMs) == .lt) := by
      rw [isOlder, hminus]
      rfl
    rw [hreal, beq_iff_eq, hsub.compareIntReal_iff hn hage, hsign]
    rw [Rounding.fitsInt64_iff] at hnow hstart hage hfit
    omega

end Telemetry
