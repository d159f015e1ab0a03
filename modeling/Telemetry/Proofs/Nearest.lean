import Mathlib.Tactic.Ring

/-!
# Numbers of 53 bits

A number that has more than 53 bits is rounded to the nearest one that has not; of two that are as
near, to the even one.  Magnitudes are counted in units of `2^-104`, so that they are whole numbers.
-/

namespace Telemetry.Rounding

/-- The quotient that is nearest, of two the even one. -/
def roundedQuotient (n d : Nat) : Nat :=
  if d < 2 * (n % d) ∨ d = 2 * (n % d) ∧ n / d % 2 = 1 then n / d + 1 else n / d

/-- How far numbers of 53 bits are apart at a magnitude. -/
def spacing (n : Nat) : Nat := 2 ^ (n.log2 - 52)

/-- The nearest number of 53 bits. -/
def nearest (n : Nat) : Nat := roundedQuotient n (spacing n) * spacing n

variable {n k : Nat}

theorem log2_mul_two_pow (hn : n ≠ 0) (k : Nat) : (n * 2 ^ k).log2 = n.log2 + k := by
  induction k with
  | zero => rw [pow_zero, mul_one, add_zero]
  | succ k ih =>
    have hne : n * 2 ^ k ≠ 0 := Nat.mul_ne_zero hn (Nat.two_pow_pos k).ne'
    rw [pow_succ', Nat.mul_left_comm, Nat.log2_two_mul hne, ih, Nat.add_assoc]

/-! ### Quotients -/

theorem div_le_roundedQuotient (n d : Nat) : n / d ≤ roundedQuotient n d := by
  unfold roundedQuotient
  split <;> omega

theorem roundedQuotient_le (n d : Nat) : roundedQuotient n d ≤ n / d + 1 := by
  unfold roundedQuotient
  split <;> omega

theorem roundedQuotient_mul_right {c : Nat} (hc : 0 < c) (n d : Nat) :
    roundedQuotient (n * c) (d * c) = roundedQuotient n d := by
  simp only [roundedQuotient, Nat.mul_div_mul_right _ _ hc, Nat.mul_mod_mul_right, ← mul_assoc,
    Nat.mul_lt_mul_right hc, Nat.mul_left_inj hc.ne']

/-! ### Nearest numbers -/

theorem spacing_pos (n : Nat) : 0 < spacing n := Nat.two_pow_pos _

theorem spacing_dvd_nearest (n : Nat) : spacing n ∣ nearest n := Nat.dvd_mul_left _ _

theorem spacing_dvd (h : n.log2 ≤ k + 52) : spacing n ∣ 2 ^ k :=
  Nat.pow_dvd_pow 2 (by omega)

theorem nearest_of_dvd (h : spacing n ∣ n) : nearest n = n := by
  have hdiv := Nat.div_mul_cancel h
  have hpos := spacing_pos n
  rw [nearest, roundedQuotient, Nat.mod_eq_zero_of_dvd h, if_neg (by omega), hdiv]

/-- Rounding does not go below a number of 53 bits. -/
theorem le_nearest_of_dvd (hd : spacing n ∣ k) (hk : k ≤ n) : k ≤ nearest n := by
  obtain ⟨c, rfl⟩ := hd
  have hc : c ≤ n / spacing n := by
    rw [Nat.le_div_iff_mul_le (spacing_pos n), mul_comm]
    exact hk
  calc spacing n * c = c * spacing n := mul_comm _ _
    _ ≤ nearest n := Nat.mul_le_mul_right _ (hc.trans (div_le_roundedQuotient _ _))

/-- Rounding takes away at most half of the spacing. -/
theorem le_nearest (n : Nat) : 2 * n ≤ 2 * nearest n + spacing n := by
  have hdiv := Nat.div_add_mod' n (spacing n)
  by_cases hup : spacing n < 2 * (n % spacing n)
  · have hmod := Nat.mod_lt n (spacing_pos n)
    have hnearest : nearest n = n / spacing n * spacing n + spacing n := by
      rw [nearest, roundedQuotient, if_pos (.inl hup), Nat.succ_mul]
    omega
  · have hnearest : n / spacing n * spacing n ≤ nearest n :=
      Nat.mul_le_mul_right _ (div_le_roundedQuotient n (spacing n))
    omega

theorem nearest_le (hn : n < 2 ^ k) : nearest n ≤ 2 ^ k := by
  have hlog : n.log2 ≤ k := by
    by_cases hzero : n = 0
    · simp [hzero]
    · exact ((Nat.log2_lt hzero).2 hn).le
  obtain ⟨c, hc⟩ := spacing_dvd (hlog.trans (Nat.le_add_right k 52))
  have hlt : n / spacing n < c := by
    rw [Nat.div_lt_iff_lt_mul (spacing_pos n), mul_comm, ← hc]
    exact hn
  rw [hc, mul_comm]
  exact Nat.mul_le_mul_right _ ((roundedQuotient_le _ _).trans hlt)

/-- What is no more than half of the spacing below a power of two is rounded up to it. -/
theorem nearest_eq_two_pow (hk : n < 2 ^ (k + 54)) (hn : 2 ^ (k + 54) ≤ n + 2 ^ k) :
    nearest n = 2 ^ (k + 54) := by
  have hpow : 2 ^ (k + 54) = 2 ^ 54 * 2 ^ k := by rw [pow_add, mul_comm]
  have hpos := Nat.two_pow_pos k
  have hlog : n.log2 = k + 53 := by
    rw [Nat.log2_eq_iff (by omega), show k + 53 + 1 = k + 54 from rfl]
    refine ⟨?_, hk⟩
    rw [pow_add]
    omega
  have hspacing : spacing n = 2 * 2 ^ k := by
    rw [spacing, hlog, show k + 53 - 52 = k + 1 by omega, pow_succ']
  -- the quotient below is odd
  have hquotient : n / (2 * 2 ^ k) = 2 ^ 53 - 1 := by
    rw [Nat.div_eq_iff (by omega)]
    omega
  have hdiv := Nat.div_add_mod' n (2 * 2 ^ k)
  rw [hquotient] at hdiv
  rw [nearest, hspacing, roundedQuotient, hquotient, if_pos (by omega), hpow]
  omega

/-- What has no more than 53 bits is not rounded. -/
theorem nearest_mul_two_pow (hn : n ≠ 0) (h : n < 2 ^ 53) :
    nearest (n * 2 ^ 104) = n * 2 ^ 104 := by
  have hlog : n.log2 < 53 := (Nat.log2_lt hn).2 h
  refine nearest_of_dvd (Dvd.dvd.mul_left (spacing_dvd ?_) n)
  rw [log2_mul_two_pow hn]
  omega

/-! ### Sums

Two magnitudes that are not above the bound of 64 bits, and are not below it together. -/

theorem two_pow_le_nearest {i : Nat} (hlow : 2 ^ i ≤ n) (hhigh : n < 2 ^ (i + 1)) :
    2 ^ (i + 104) ≤ nearest (n * 2 ^ 104) := by
  have hpos := Nat.two_pow_pos i
  have hlog : n.log2 = i := (Nat.log2_eq_iff (by omega)).2 ⟨hlow, hhigh⟩
  refine le_nearest_of_dvd (spacing_dvd ?_) ?_
  · rw [log2_mul_two_pow (by omega), hlog]
    omega
  · rw [pow_add]
    exact Nat.mul_le_mul_right _ hlow

/-- The sum of what the magnitudes are rounded to is below the bound by half of the spacing at
most. -/
theorem le_nearest_add {a b : Nat} (ha : a ≤ 2 ^ 63) (hle : b ≤ a) (hsum : 2 ^ 63 ≤ a + b) :
    2 ^ 167 ≤ nearest (a * 2 ^ 104) + nearest (b * 2 ^ 104) + 2 ^ 113 := by
  have hlarge : 2 ^ 62 ≤ a := by omega
  rcases ha.lt_or_eq with hlt | rfl
  · have ha62 := two_pow_le_nearest hlarge hlt
    rcases lt_or_ge b (2 ^ 62) with hsmall | hge
    · have hspacing : spacing (a * 2 ^ 104) = 2 ^ 114 := by
        rw [spacing, log2_mul_two_pow (by omega), (Nat.log2_eq_iff (by omega)).2 ⟨hlarge, hlt⟩]
      have hlost := le_nearest (a * 2 ^ 104)
      obtain ⟨c, hc⟩ := spacing_dvd_nearest (a * 2 ^ 104)
      rw [hspacing] at hlost hc
      have hb : spacing (b * 2 ^ 104) ∣ 2 ^ 113 := by
        refine spacing_dvd ?_
        by_cases hzero : b = 0
        · simp [hzero]
        · have hlog : b.log2 < 62 := (Nat.log2_lt hzero).2 hsmall
          rw [log2_mul_two_pow hzero]
          omega
      -- what the first leaves of the bound is a number of 53 bits, and the second is not below it
      have hdvd : spacing (b * 2 ^ 104) ∣ 2 ^ 167 - nearest (a * 2 ^ 104) - 2 ^ 113 := by
        refine Nat.dvd_sub (Nat.dvd_sub (hb.trans ?_) (hb.trans ?_)) hb
        · exact ⟨2 ^ 54, by rw [← pow_add]⟩
        · exact ⟨2 * c, by omega⟩
      have hrest := le_nearest_of_dvd hdvd (by omega)
      omega
    · have hb62 := two_pow_le_nearest hge (hle.trans_lt hlt)
      omega
  · have htop := two_pow_le_nearest (n := 2 ^ 63) (i := 63) le_rfl (by decide)
    omega

/-- The sum is rounded to what is not below the bound: the tie goes to the even number. -/
theorem le_nearest_of_le_add (h : 2 ^ 167 ≤ n + 2 ^ 113) (hsize : n ≤ 2 ^ 169) :
    2 ^ 167 ≤ nearest n := by
  rcases lt_or_ge n (2 ^ 167) with hlt | hge
  · exact (nearest_eq_two_pow (k := 113) hlt h).ge
  · refine le_nearest_of_dvd (spacing_dvd ?_) hge
    have hlog : n.log2 < 170 := (Nat.log2_lt (by omega)).2 (by omega)
    omega

end Telemetry.Rounding
