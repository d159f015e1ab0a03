import Mathlib
import Telemetry.Decimal.Shortest
import Telemetry.Proofs.Nearest

/-!
# Floats that come from integers

An integer becomes the nearest float, and so does the difference of two floats.  What is known of a
float is its sign and its magnitude; from these its bits are known.
-/

namespace Telemetry.Rounding

open Float.Model Float.Model.UnpackedFloat

variable {s : Sign} {m : Nat} {e : Int}

/-- A magnitude in units of `2^-104`. -/
def units (m : Nat) (e : Int) : Nat := m * 2 ^ (e + 104).toNat

theorem units_zero (m : Nat) : units m 0 = m * 2 ^ 104 := rfl

theorem units_shift (m k : Nat) {e e' : Int} (he : e' + k = e) (he' : -104 ≤ e') :
    units (m * 2 ^ k) e' = units m e := by
  rw [units, units, mul_assoc, ← pow_add]
  congr 2
  omega

theorem log2_units (hm : m ≠ 0) (he : -104 ≤ e) :
    ((units m e).log2 : Int) = m.log2 + e + 104 := by
  rw [units, log2_mul_two_pow hm]
  omega

theorem ne_zero_of_le_log2 {k : Nat} (hk : 0 < k) (h : k ≤ m.log2) : m ≠ 0 := by
  rintro rfl
  rw [Nat.log2_zero] at h
  omega

/-! ### Shifting -/

/-- The two bits that are kept of what is shifted out tell how it compares to one half. -/
theorem exact_shiftRight (m k : Nat) :
    ExtendedMantissa.ofMantissaAndAccuracy m .exact >>> k =
      ⟨m / 2 ^ k, decide (2 ^ k ≤ 2 * (m % 2 ^ k)), decide (2 * (m % 2 ^ k) % 2 ^ k ≠ 0)⟩ := by
  induction k with
  | zero =>
    simp [HShiftRight.hShiftRight, Nat.repeat, ExtendedMantissa.ofMantissaAndAccuracy, Nat.mod_one]
  | succ k ih =>
    have hstep : ExtendedMantissa.ofMantissaAndAccuracy m .exact >>> (k + 1) =
      (ExtendedMantissa.ofMantissaAndAccuracy m .exact >>> k).shiftRightOne := rfl
    have hmod : m % 2 ^ (k + 1) = m % 2 ^ k + 2 ^ k * (m / 2 ^ k % 2) := Nat.mod_pow_succ
    have hdouble : 2 * (m % 2 ^ (k + 1)) % 2 ^ (k + 1) = 2 * (m % 2 ^ k) := by
      rw [Nat.mul_mod_mod, pow_succ', Nat.mul_mod_mul_left]
    have hlt := Nat.mod_lt m (Nat.two_pow_pos k)
    rw [hstep, ih, ExtendedMantissa.shiftRightOne, hdouble, hmod]
    congr 1
    · rw [Nat.div_div_eq_div_mul, pow_succ]
    · rw [Bool.eq_iff_iff]
      simp only [bne_iff_ne, decide_eq_true_eq, pow_succ']
      rcases Nat.mod_two_eq_zero_or_one (m / 2 ^ k) with h | h <;> rw [h] <;> omega
    · rw [Bool.eq_iff_iff]
      simp only [Bool.or_eq_true, decide_eq_true_eq]
      by_cases hle : 2 ^ k ≤ 2 * (m % 2 ^ k)
      · have hpos := Nat.two_pow_pos k
        simp only [hle, true_or, true_iff]
        omega
      · rw [Nat.mod_eq_of_lt (Nat.lt_of_not_le hle)]
        simp [hle]

theorem roundedMantissa_shiftRight (m k : Nat) :
    (ExtendedMantissa.ofMantissaAndAccuracy m .exact >>> k).roundedMantissa =
      roundedQuotient m (2 ^ k) := by
  have hlt := Nat.mod_lt m (Nat.two_pow_pos k)
  rw [exact_shiftRight, ExtendedMantissa.roundedMantissa, roundedQuotient]
  rcases lt_trichotomy (2 ^ k) (2 * (m % 2 ^ k)) with h | h | h
  · have hrest : 2 * (m % 2 ^ k) % 2 ^ k ≠ 0 := by
      rw [Nat.mod_eq_sub_mod h.le, Nat.mod_eq_of_lt (by omega)]
      omega
    rw [if_pos (.inl h), decide_eq_true h.le, decide_eq_true hrest]
    rfl
  · rw [← h, Nat.mod_self, decide_eq_true le_rfl]
    rcases Nat.mod_two_eq_zero_or_one (m / 2 ^ k) with heven | hodd
    · simp [ExtendedMantissa.accuracy, Accuracy.roundToNearestEven, heven]
    · simp [ExtendedMantissa.accuracy, Accuracy.roundToNearestEven, hodd]
  · rw [if_neg (by omega), decide_eq_false (Nat.not_le_of_lt h)]
    cases decide (2 * (m % 2 ^ k) % 2 ^ k ≠ 0) <;> rfl

theorem targetExponent_eq (h : -104 ≤ m.log2 + e) :
    Format.binary64.targetExponent (totalExponent m e) = m.log2 + e - 52 := by
  simp only [Format.targetExponent, totalExponent, Format.mantissaBits, Format.minExponent]
  omega

/-- A mantissa that has been rounded is shifted once more only where it has carried over. -/
theorem shiftToTargetExponent_rounded {r : Nat} (he : -104 ≤ e) (hr : 2 ^ 52 ≤ r)
    (hr' : r ≤ 2 ^ 53) :
    ∃ m' e' b b', shiftToTargetExponent .binary64 r e .exact = (⟨m', b, b'⟩, e') ∧
      m'.log2 = 52 ∧ e ≤ e' ∧ e' ≤ e + 1 ∧ units m' e' = units r e := by
  rcases hr'.lt_or_eq with hlt | rfl
  · have hlog : r.log2 = 52 := (Nat.log2_eq_iff (by omega)).2 ⟨hr, hlt⟩
    have hshift : (Format.binary64.targetExponent (totalExponent r e) - e).toNat = 0 := by
      rw [targetExponent_eq (by omega), hlog]
      omega
    refine ⟨r, e, false, false, ?_, hlog, le_rfl, by omega, rfl⟩
    rw [shiftToTargetExponent, shiftToExponent, hshift]
    simp [HShiftRight.hShiftRight, Nat.repeat, ExtendedMantissa.ofMantissaAndAccuracy]
  · have hlog : (2 ^ 53).log2 = 53 := Nat.log2_two_pow
    have hshift : (Format.binary64.targetExponent (totalExponent (2 ^ 53) e) - e).toNat = 1 := by
      rw [targetExponent_eq (by omega), hlog]
      omega
    refine ⟨2 ^ 52, e + 1, false, false, ?_, Nat.log2_two_pow, by omega, le_rfl, ?_⟩
    · rw [shiftToTargetExponent, shiftToExponent, hshift, exact_shiftRight]
      rfl
    · rw [show 2 ^ 53 = 2 ^ 52 * 2 ^ 1 from rfl, units_shift (2 ^ 52) 1 rfl he]
      rfl

/-! ### Rounding -/

/-- The float has the magnitude that is nearest, and a mantissa of 53 bits. -/
def RoundsTo (u : UnpackedFloat) (s : Sign) (m : Nat) (e : Int) : Prop :=
  ∃ m' e' h, u = .finite s m' e' h ∧ m'.log2 = 52 ∧ m.log2 + e - 52 ≤ e' ∧ e' ≤ m.log2 + e - 51 ∧
    units m' e' = nearest (units m e)

theorem nearest_units {k : Nat} (he : -104 ≤ e) (hlog : m.log2 = 52 + k) :
    nearest (units m e) = units (roundedQuotient m (2 ^ k)) (e + k) := by
  have hm : m ≠ 0 := ne_zero_of_le_log2 (k := 52) (by omega) (by omega)
  have hspacing : spacing (units m e) = 2 ^ k * 2 ^ (e + 104).toNat := by
    rw [spacing, units, log2_mul_two_pow hm, hlog, ← pow_add]
    congr 1
    omega
  rw [nearest, hspacing, units, roundedQuotient_mul_right (Nat.two_pow_pos _), units,
    show (e + k + 104).toNat = k + (e + 104).toNat by omega, pow_add]

theorem roundWithAccuracy_roundsTo (s : Sign) (he : -104 ≤ e) (hm : 52 ≤ m.log2) :
    RoundsTo (roundWithAccuracy .binary64 s m e .exact) s m e := by
  obtain ⟨k, hlog⟩ := Nat.exists_eq_add_of_le hm
  have hshift : (Format.binary64.targetExponent (totalExponent m e) - e).toNat = k := by
    rw [targetExponent_eq (by omega), hlog]
    omega
  have hr : 2 ^ 52 ≤ roundedQuotient m (2 ^ k) := by
    refine le_trans ?_ (div_le_roundedQuotient _ _)
    rw [Nat.le_div_iff_mul_le (Nat.two_pow_pos k), ← pow_add, ← hlog]
    exact Nat.log2_self_le (ne_zero_of_le_log2 (by omega) hm)
  have hr' : roundedQuotient m (2 ^ k) ≤ 2 ^ 53 := by
    refine (roundedQuotient_le _ _).trans ?_
    rw [Nat.succ_le_iff, Nat.div_lt_iff_lt_mul (Nat.two_pow_pos k), ← pow_add,
      show 53 + k = m.log2 + 1 by omega]
    exact Nat.lt_log2_self
  obtain ⟨m', e', b, b', hround, hlog', hle, hle', hunits⟩ :=
    shiftToTargetExponent_rounded (e := e + k) (by omega) hr hr'
  have hm' : m' ≠ 0 := ne_zero_of_le_log2 (k := 52) (by omega) hlog'.ge
  refine ⟨m', e', Nat.pos_of_ne_zero hm', ?_, hlog', by omega, by omega, ?_⟩
  · rw [roundWithAccuracy, shiftToTargetExponent, shiftToExponent, hshift]
    simp only [roundedMantissa_shiftRight, hround]
    rw [dif_neg hm']
  · rw [hunits, nearest_units he hlog]

/-- A magnitude that is not below one is rounded to the nearest float. -/
theorem round_roundsTo (s : Sign) (hm : m ≠ 0) (he : -104 ≤ e) (hone : 0 ≤ m.log2 + e) :
    RoundsTo (UnpackedFloat.round .binary64 s m e) s m e := by
  -- a short mantissa is made longer first
  let k := (e - (m.log2 + e - 52)).toNat
  have hround : UnpackedFloat.round .binary64 s m e =
      roundWithAccuracy .binary64 s (m * 2 ^ k) (e - k) .exact := by
    rw [UnpackedFloat.round, targetExponent_eq (by omega)]
    simp only [decreaseExponent, Nat.shiftLeft_eq]
    rfl
  have hlog : (m * 2 ^ k).log2 = m.log2 + k := log2_mul_two_pow hm k
  obtain ⟨m', e', h, heq, hlog', hlow, hhigh, hunits⟩ :=
    roundWithAccuracy_roundsTo s (m := m * 2 ^ k) (e := e - k) (by omega) (by omega)
  refine ⟨m', e', h, hround.trans heq, hlog', by omega, by omega, hunits.trans ?_⟩
  rw [units_shift m k (e := e) (by omega) (by omega)]

/-! ### Packing -/

/-- The leading bit of a mantissa is not stored. -/
theorem toNat_append_one (b : BitVec 52) : (1#1 ++ b).toNat = 2 ^ 52 + b.toNat := by
  rw [BitVec.toNat_append, ← Nat.shiftLeft_add_eq_or_of_lt b.isLt]
  simp [Nat.shiftLeft_eq]

theorem unpack_pack (s : Sign) (h : 0 < m) (hlog : m.log2 = 52) (he : -104 ≤ e) (he' : e ≤ 100) :
    (Float.Model.pack (.finite s m e h)).unpack = .finite s m e h := by
  obtain ⟨hlow, hhigh⟩ := (Nat.log2_eq_iff h.ne').1 hlog
  have hexponent : ((e + 1023 + 52).toNat : Int) = e + 1075 := by omega
  have hpower : (BitVec.ofNat 11 (e + 1023 + 52).toNat).toNat = (e + 1023 + 52).toNat := by
    rw [BitVec.toNat_ofNat, Nat.mod_eq_of_lt (by omega)]
  have hmantissa : (1#1 ++ BitVec.ofNat 52 m).toNat = m := by
    rw [toNat_append_one, BitVec.toNat_ofNat]
    omega
  have hfull : BitVec.ofNat 11 (e + 1023 + 52).toNat ≠ -1#11 := by
    intro heq
    rw [heq] at hpower
    change 2047 = _ at hpower
    omega
  have hnull : BitVec.ofNat 11 (e + 1023 + 52).toNat ≠ 0#11 := by
    intro heq
    rw [heq] at hpower
    change 0 = _ at hpower
    omega
  have hpack : UnpackedFloat.pack .binary64 (.finite s m e h) = packComponents .binary64 s
      (BitVec.ofNat _ (e + 1023 + 52).toNat) (BitVec.ofNat _ m) := by
    unfold UnpackedFloat.pack
    simp only [Format.exponentBias, Format.mantissaBits, hlog]
    rw [if_neg (by omega)]
    rfl
  change UnpackedFloat.unpack .binary64 (UnpackedFloat.pack .binary64 (.finite s m e h)) = _
  rw [hpack]
  unfold UnpackedFloat.unpack
  simp only [unpackExponent_packComponents, unpackMantissa_packComponents,
    unpackSign_packComponents, if_neg hfull, if_neg hnull]
  rw [UnpackedFloat.finite.injEq, hmantissa, hpower, hexponent]
  refine ⟨Sign.ofBitVec_toBitVec s, rfl, ?_⟩
  simp only [Format.exponentBias]
  omega

/-- What the bits of a float are read as. -/
theorem ofBits_eq {x : Float} {h : 0 < m} (hlog : m.log2 = 52)
    (hx : x.toModel.unpack = .finite s m e h) :
    (Decimal.Dyadic.ofBits x.toBits).m = m ∧ (Decimal.Dyadic.ofBits x.toBits).q = e := by
  obtain ⟨hlow, -⟩ := (Nat.log2_eq_iff h.ne').1 hlog
  have hfraction : (x.toBits &&& 0x000FFFFFFFFFFFFF).toNat =
      (@unpackMantissa .binary64 x.toModel.toBits.toBitVec).toNat := by
    rw [UInt64.toNat_and]
    refine (Nat.and_two_pow_sub_one_eq_mod _ 52).trans ?_
    simp [unpackMantissa, Float.toBits]
  have hpower : ((x.toBits >>> 52) &&& 0x7FF).toNat =
      (@unpackExponent .binary64 x.toModel.toBits.toBitVec).toNat := by
    rw [UInt64.toNat_and]
    refine (Nat.and_two_pow_sub_one_eq_mod _ 11).trans ?_
    simp [unpackExponent, Float.toBits]
  unfold Float.Model.unpack UnpackedFloat.unpack at hx
  unfold Decimal.Dyadic.ofBits
  simp only at hx
  simp only [hfraction, hpower]
  split at hx
  · split at hx <;> cases hx
  split at hx
  · split at hx
    · cases hx
    · cases hx
      have hlt : (@unpackMantissa .binary64 x.toModel.toBits.toBitVec).toNat < 2 ^ 52 :=
        BitVec.isLt _
      omega
  · next hnull =>
    cases hx
    have hpos : (@unpackExponent .binary64 x.toModel.toBits.toBitVec).toNat ≠ 0 :=
      fun heq => hnull (BitVec.eq_of_toNat_eq heq)
    rw [if_neg hpos]
    refine ⟨?_, rfl⟩
    rw [toNat_append_one, add_comm]
    rfl

/-! ### Magnitudes -/

/-- The sign and the magnitude of a float that is neither small nor huge. -/
def HasMagnitude (x : Float) (s : Sign) (n : Nat) : Prop :=
  ∃ m e h, x.toModel.unpack = .finite s m e h ∧ m.log2 = 52 ∧ -52 ≤ e ∧ e ≤ 100 ∧ units m e = n

theorem RoundsTo.hasMagnitude {u : UnpackedFloat} (h : RoundsTo u s m e) (he : -104 ≤ e)
    (hone : 2 ^ 104 ≤ units m e) (hsize : units m e ≤ 2 ^ 200) :
    HasMagnitude ⟨Float.Model.pack u⟩ s (nearest (units m e)) := by
  obtain ⟨m', e', hm', rfl, hlog, hlow, hhigh, hunits⟩ := h
  have hm : m ≠ 0 := by
    rintro rfl
    rw [units, Nat.zero_mul] at hone
    omega
  have hlog' := log2_units hm he
  have hge : 104 ≤ (units m e).log2 := (Nat.le_log2 (by omega)).2 hone
  have hlt : (units m e).log2 < 201 := (Nat.log2_lt (by omega)).2 (by omega)
  refine ⟨m', e', hm', ?_, hlog, by omega, by omega, hunits⟩
  exact unpack_pack s hm' hlog (by omega) (by omega)

theorem hasMagnitude_round (s : Sign) (he : -104 ≤ e) (hone : 2 ^ 104 ≤ units m e)
    (hsize : units m e ≤ 2 ^ 200) :
    HasMagnitude ⟨Float.Model.pack (UnpackedFloat.round .binary64 s m e)⟩ s
      (nearest (units m e)) := by
  have hm : m ≠ 0 := by
    rintro rfl
    rw [units, Nat.zero_mul] at hone
    omega
  have hlog := log2_units hm he
  have hge : 104 ≤ (units m e).log2 := (Nat.le_log2 (by omega)).2 hone
  exact (round_roundsTo s hm he (by omega)).hasMagnitude he hone hsize

theorem HasMagnitude.neg {x : Float} {n : Nat} (h : HasMagnitude x s n) :
    HasMagnitude x.neg (-s) n := by
  obtain ⟨m, e, hm, hunpack, hlog, hlow, hhigh, hunits⟩ := h
  refine ⟨m, e, hm, ?_, hlog, hlow, hhigh, hunits⟩
  change (Float.Model.pack (UnpackedFloat.neg x.toModel.unpack)).unpack = _
  rw [hunpack]
  exact unpack_pack (-s) hm hlog (by omega) hhigh

/-! ### Integers -/

theorem hasMagnitude_toFloat {n : Nat} (hn : n ≠ 0) (h : n < 2 ^ 53) :
    HasMagnitude n.toUInt64.toFloat .positive (n * 2 ^ 104) := by
  have hfloat : n.toUInt64.toFloat =
      ⟨Float.Model.pack (UnpackedFloat.round .binary64 .positive n 0)⟩ := by
    have hsmall : n.toUInt64.toNat = n := Nat.mod_eq_of_lt (by omega)
    change (⟨Float.Model.pack (UnpackedFloat.normalize .binary64 (n.toUInt64.toNat : Int) 0
      .positive)⟩ : Float) = _
    rw [hsmall, UnpackedFloat.normalize, Int.compare_eq_gt.2 (by omega)]
    rfl
  have hunits := units_zero n
  rw [hfloat, ← nearest_mul_two_pow hn h]
  exact hasMagnitude_round .positive (e := 0) (by omega) (by omega) (by omega)

theorem hasMagnitude_ofNat {n : Nat} (hn : n ≠ 0) (hsize : n ≤ 2 ^ 64) :
    HasMagnitude (Float.ofNat n) .positive (nearest (n * 2 ^ 104)) := by
  change HasMagnitude (Float.ofScientific n false 0) _ _
  unfold Float.ofScientific
  simp only [Bool.false_eq_true, if_false]
  split
  · next h =>
    -- it is multiplied by one
    obtain ⟨m, e, hm, hunpack, hlog, hlow, -, hunits⟩ := hasMagnitude_toFloat hn h.1
    have hone : Float.exactlyRepresentablePowersOfTen[0].toModel.unpack =
      .finite .positive (2 ^ 52) (-52) (by decide) := rfl
    have hmul : n.toUInt64.toFloat * Float.exactlyRepresentablePowersOfTen[0] =
        ⟨Float.Model.pack (roundWithAccuracy .binary64 .positive (m * 2 ^ 52) (e - 52) .exact)⟩ := by
      change (⟨Float.Model.pack (UnpackedFloat.mul .binary64 n.toUInt64.toFloat.toModel.unpack
        Float.exactlyRepresentablePowersOfTen[0].toModel.unpack)⟩ : Float) = _
      rw [hunpack, hone]
      rfl
    have hlog' := log2_mul_two_pow hm.ne' 52
    have hunits' : units (m * 2 ^ 52) (e - 52) = n * 2 ^ 104 :=
      (units_shift m 52 (e := e) (by omega) (by omega)).trans hunits
    rw [hmul, ← hunits']
    exact (roundWithAccuracy_roundsTo .positive (by omega) (by omega)).hasMagnitude (by omega)
      (by omega) (by omega)
  · next h =>
    have hlog : 53 ≤ n.log2 := (Nat.le_log2 hn).2 (by omega)
    have hmodel : Float.Model.ofScientific n (Int.ofNat 0) = Float.Model.pack
        (roundWithAccuracy .binary64 .positive (n * 2 ^ 53) (-53) .exact) := by
      have hsmall : ¬Int.ofNat 0 < -((2 ^ 11 : Int) + n.log2) := by
        change ¬(0 : Int) < _
        omega
      have hmantissa : n * 2 ^ Format.binary64.mantissaBits * 10 ^ (Int.ofNat 0).toNat = n * 2 ^ 53 :=
        Nat.mul_one _
      unfold Float.Model.ofScientific UnpackedFloat.ofScientific
      rw [dif_neg hn, if_neg (by decide), if_neg hsmall, if_pos (by decide)]
      simp only [UnpackedFloat.mul, Nat.shiftLeft_eq]
      rw [hmantissa]
      rfl
    have hlog' := log2_mul_two_pow hn 53
    have hunits : units (n * 2 ^ 53) (-53) = n * 2 ^ 104 :=
      units_shift n 53 (e := 0) (by omega) (by omega)
    rw [hmodel, ← hunits]
    exact (roundWithAccuracy_roundsTo .positive (by omega) (by omega)).hasMagnitude (by omega)
      (by omega) (by omega)

theorem hasMagnitude_ofInt (s : Sign) {n : Nat} (hn : n ≠ 0) (hsize : n ≤ 2 ^ 64) :
    HasMagnitude (Float.ofInt (s.apply n)) s (nearest (n * 2 ^ 104)) := by
  cases s with
  | positive => exact hasMagnitude_ofNat hn hsize
  | negative =>
    obtain ⟨k, rfl⟩ := Nat.exists_eq_succ_of_ne_zero hn
    exact (hasMagnitude_ofNat hn hsize).neg

/-! ### Differences -/

/-- A difference of numbers with different signs has the sign of the first. -/
theorem normalize_apply (s : Sign) {k : Nat} (hm : 0 < m) (e : Int) :
    UnpackedFloat.normalize .binary64 (s.apply m - (-s).apply k) e .positive =
      UnpackedFloat.round .binary64 s (m + k) e := by
  cases s with
  | positive =>
    have hsum : Sign.positive.apply (m : Int) - (-Sign.positive).apply k = (m + k : Nat) := by
      change (m : Int) - -(k : Int) = _
      omega
    rw [hsum, UnpackedFloat.normalize, Int.compare_eq_gt.2 (by omega)]
    rfl
  | negative =>
    have hsum : Sign.negative.apply (m : Int) - (-Sign.negative).apply k = -(m + k : Nat) := by
      change -(m : Int) - (k : Int) = _
      omega
    rw [hsum, UnpackedFloat.normalize, Int.compare_eq_lt.2 (by omega), neg_neg]
    rfl

theorem HasMagnitude.sub {x y : Float} {n k : Nat} (hx : HasMagnitude x s n)
    (hy : HasMagnitude y (-s) k) (hone : 2 ^ 104 ≤ n + k) (hsize : n + k ≤ 2 ^ 200) :
    HasMagnitude (x - y) s (nearest (n + k)) := by
  obtain ⟨m₁, e₁, hm₁, hunpack₁, -, hlow₁, -, rfl⟩ := hx
  obtain ⟨m₂, e₂, hm₂, hunpack₂, -, hlow₂, -, rfl⟩ := hy
  -- both are brought to the smaller exponent
  have hsub : x - y = ⟨Float.Model.pack (UnpackedFloat.round .binary64 s
      (m₁ * 2 ^ (e₁ - min e₁ e₂).toNat + m₂ * 2 ^ (e₂ - min e₁ e₂).toNat) (min e₁ e₂))⟩ := by
    change (⟨Float.Model.pack (UnpackedFloat.sub .binary64 x.toModel.unpack y.toModel.unpack)⟩ :
      Float) = _
    rw [hunpack₁, hunpack₂, ← normalize_apply s (Nat.mul_pos hm₁ (Nat.two_pow_pos _))]
    simp only [UnpackedFloat.sub, decreaseExponent, Nat.shiftLeft_eq]
  have haligned₁ : units (m₁ * 2 ^ (e₁ - min e₁ e₂).toNat) (min e₁ e₂) = units m₁ e₁ :=
    units_shift m₁ _ (by omega) (by omega)
  have haligned₂ : units (m₂ * 2 ^ (e₂ - min e₁ e₂).toNat) (min e₁ e₂) = units m₂ e₂ :=
    units_shift m₂ _ (by omega) (by omega)
  have hunits : units m₁ e₁ + units m₂ e₂ = units
      (m₁ * 2 ^ (e₁ - min e₁ e₂).toNat + m₂ * 2 ^ (e₂ - min e₁ e₂).toNat) (min e₁ e₂) := by
    rw [← haligned₁, ← haligned₂]
    exact (Nat.add_mul _ _ _).symm
  rw [hunits] at hone hsize
  rw [hsub, hunits]
  exact hasMagnitude_round s (by omega) hone hsize

end Telemetry.Rounding
