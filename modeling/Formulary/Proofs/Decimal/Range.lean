import Formulary.Proofs.Decimal.Rounding

/-!
# Numerals in range

A decimal numeral is read as a magnitude below `2 ^ 1024` (`isMagnitude_of_ofDecimal`). A numeral
with a negative exponent is always in range. One of up to seventeen digits is too when it is at most
halfway between the last two magnitudes but one (`exists_ofDecimal`): its digits and its power of
ten are each rounded, but for none of the seventeen greatest powers is their product then rounded up
out of range.
-/

namespace Formulary.Decimal.Binary

/-- A magnitude in range. -/
structure IsMagnitude (x : Binary) : Prop where
  canonical : IsCanonical x
  finite : x.isFinite

/-- What is at most a magnitude in range is in range. -/
theorem isFinite_of_le {x : Binary} {count : Nat} {place : Int} (hCount : count < Nat.pow 2 53)
    (hPlace : place ≤ 971) (h : x.value ≤ count * 2 ^ place) : x.isFinite := by
  have hBits : (count : ℚ) < (Nat.pow 2 53 : Nat) := by exact_mod_cast hCount
  have hUnit : (2 : ℚ) ^ place ≤ 2 ^ (971 : Int) := zpow_le_zpow_right₀ one_le_two hPlace
  have hSum : ((53 : Nat) : Int) + 971 = (1024 : Nat) := by decide
  have hAll : ((Nat.pow 2 53 : Nat) : ℚ) * 2 ^ (971 : Int) = 2 ^ ((1024 : Nat) : Int) := by
    rw [cast_two_pow, ← zpow_add₀ two_ne_zero, hSum]
  rw [isFinite_iff]
  calc x.value ≤ count * 2 ^ place := h
    _ ≤ count * 2 ^ (971 : Int) := mul_le_mul_of_nonneg_left hUnit (Nat.cast_nonneg count)
    _ < (Nat.pow 2 53 : Nat) * 2 ^ (971 : Int) :=
        mul_lt_mul_of_pos_right hBits (by positivity)
    _ = 2 ^ ((1024 : Nat) : Int) := hAll

/-! ## Small numerals -/

/-- A magnitude of at most `2 ^ 64`. -/
structure IsSmall (x : Binary) : Prop where
  canonical : IsCanonical x
  most : x.value ≤ (1 : Nat) * 2 ^ (64 : Int)

theorem IsSmall.isMagnitude {x : Binary} (h : IsSmall x) : IsMagnitude x :=
  ⟨h.canonical, isFinite_of_le (by decide) (by decide) h.most⟩

theorem isSmall_ofNat {n : Nat} (h : n < Nat.pow 2 64) : IsSmall (ofNat n) := by
  refine ⟨isCanonical_ofNat n, value_ofNat_le (by decide) (by decide) ?_⟩
  have hLess : (n : ℚ) < (Nat.pow 2 64 : Nat) := by exact_mod_cast h
  rw [Nat.cast_one, one_mul]
  exact hLess.le.trans_eq (cast_two_pow 64)

theorem isSmall_overPowerOfTen {x : Binary} (h : IsSmall x) (power : Nat) :
    IsSmall (x.overPowerOfTen power) := by
  have hOne : 1 ≤ (ofNat (Nat.pow 10 power)).value :=
    one_le_value_ofNat (Nat.pow_pos (by decide))
  have hNe : (ofNat (Nat.pow 10 power)).value ≠ 0 := by linarith
  refine ⟨isCanonical_div hNe, value_div_le hNe (by decide) (by decide) ?_⟩
  exact (div_le_self x.value_nonneg hOne).trans h.most

theorem isSmall_zero : IsSmall ⟨0, minExponent⟩ where
  canonical := ⟨le_refl _, by decide, fun hLess => absurd hLess (lt_irrefl _)⟩
  most := by
    rw [value, Nat.cast_zero, zero_mul]
    positivity

/-- A numeral with a negative exponent is in range. -/
theorem exists_ofDecimal_of_neg {significand : Nat} {exponent : Int} (h : exponent < 0) :
    ∃ x, ofDecimal significand exponent = some x := by
  have hNeg : ¬ 0 ≤ exponent := not_le.mpr h
  simp only [ofDecimal, if_neg hNeg]
  split
  · exact ⟨_, rfl⟩
  · split
    · exact ⟨_, rfl⟩
    · split <;> exact ⟨_, rfl⟩

/-- What a numeral is read as is in range. -/
theorem isMagnitude_of_ofDecimal {significand : Nat} (hBound : significand < Nat.pow 2 64)
    {exponent : Int} {x : Binary} (h : ofDecimal significand exponent = some x) :
    IsMagnitude x := by
  have hSmall := isSmall_ofNat hBound
  simp only [ofDecimal] at h
  split at h
  · cases h
    exact hSmall.isMagnitude
  · split at h
    · split at h
      · split at h
        · cases h
          exact ⟨isCanonical_mul _ _, ‹_›⟩
        · cases h
      · cases h
    · split at h
      · cases h
        exact (isSmall_overPowerOfTen hSmall _).isMagnitude
      · split at h
        · obtain rfl := Option.some.inj h
          exact (isSmall_overPowerOfTen (isSmall_overPowerOfTen hSmall _) _).isMagnitude
        · cases h
          exact isSmall_zero.isMagnitude

/-! ## Great numerals -/

/-- Halfway between the last two magnitudes but one. -/
def halfway : Nat := (Nat.pow 2 54 - 3) * Nat.pow 2 970

/-- The greatest magnitude. -/
def greatest : Nat := (Nat.pow 2 53 - 1) * Nat.pow 2 971

/-- The powers of ten that are rounded, as far as they come into question for seventeen digits. -/
theorem ceiling_of_power : ∀ power ∈ List.range' 292 17, ∃ place ∈ [0, 1],
    let count := (halfway / Nat.pow 10 power + place) / Nat.pow 2 place
    halfway / Nat.pow 10 power ≤ count * Nat.pow 2 place ∧ count ≤ Nat.pow 2 53 ∧
      (ofNat (Nat.pow 10 power)).denominator = 1 ∧
      count * Nat.pow 2 place * (ofNat (Nat.pow 10 power)).numerator ≤ greatest := by
  decide +kernel

theorem value_eq_numerator {x : Binary} (h : x.denominator = 1) : x.value = x.numerator := by
  rw [value_eq_div, h, Nat.cast_one, div_one]

theorem cast_greatest :
    (greatest : ℚ) = (Nat.pow 2 53 - 1 : Nat) * 2 ^ ((971 : Nat) : Int) := by
  unfold greatest
  generalize 971 = place
  rw [Nat.cast_mul, cast_two_pow]

/-- A product of rounded factors is in range when bounds of the factors are. -/
theorem isFinite_mul {x y : Binary} {first second : Nat} (hx : x.value ≤ first)
    (hy : y.value ≤ second) (h : first * second ≤ greatest) : (x.mul y).isFinite := by
  have hBits : Nat.pow 2 53 - 1 < Nat.pow 2 53 := by decide
  refine @isFinite_of_le _ (Nat.pow 2 53 - 1) (971 : Nat) hBits (le_refl _)
    (value_mul_le hBits.le (by decide) ?_)
  rw [← cast_greatest]
  calc x.value * y.value ≤ first * second :=
        mul_le_mul hx hy y.value_nonneg (Nat.cast_nonneg first)
    _ ≤ greatest := by exact_mod_cast h

theorem value_ofNat_le_mul {n count place : Nat} (hCount : count ≤ Nat.pow 2 53)
    (h : n ≤ count * Nat.pow 2 place) : (ofNat n).value ≤ (count * Nat.pow 2 place : Nat) := by
  have hPlace : minExponent ≤ (place : Int) := by
    rw [minExponent]
    omega
  have hCast : (n : ℚ) ≤ count * 2 ^ (place : Int) := by
    rw [← cast_two_pow]
    exact_mod_cast h
  rw [Nat.cast_mul, cast_two_pow]
  exact value_ofNat_le hCount hPlace hCast

/-- The product of up to seventeen digits and a power of ten is in range. -/
theorem isFinite_timesPowerOfTen {significand power : Nat} (hDigits : significand ≤ Nat.pow 10 17)
    (hPower : power ≤ maxPower) (h : significand * Nat.pow 10 power ≤ halfway) :
    ((ofNat significand).timesPowerOfTen power).isFinite := by
  rcases Nat.lt_or_ge power 292 with hLess | hMore
  · -- Neither factor is near a bound.
    have hFive : Nat.pow 10 17 = Nat.pow 5 17 * Nat.pow 2 17 := by decide
    have hTen : ∀ power < 292, Nat.pow 10 power ≤ 1 * Nat.pow 2 967 := by decide +kernel
    have hAll : Nat.pow 5 17 * Nat.pow 2 17 * (1 * Nat.pow 2 967) ≤ greatest := by decide +kernel
    exact isFinite_mul (value_ofNat_le_mul (by decide) (hDigits.trans_eq hFive))
      (value_ofNat_le_mul (by decide) (hTen power hLess)) hAll
  · have hRange : power ∈ List.range' 292 17 := by
      rw [maxPower] at hPower
      simp only [List.mem_range'_1]
      omega
    obtain ⟨place, -, hLe, hCount, hWhole, hAll⟩ := ceiling_of_power power hRange
    have hQuotient : significand ≤ halfway / Nat.pow 10 power :=
      (Nat.le_div_iff_mul_le (Nat.pow_pos (by decide))).mpr h
    exact isFinite_mul (value_ofNat_le_mul hCount (hQuotient.trans hLe))
      (value_eq_numerator hWhole).le hAll

/-- A numeral of up to seventeen digits is in range when it is at most halfway between the last two
magnitudes but one. -/
theorem exists_ofDecimal {significand : Nat} {exponent : Int}
    (hDigits : significand ≤ Nat.pow 10 17) (hExponent : 0 ≤ exponent)
    (h : significand * Nat.pow 10 exponent.toNat ≤ halfway) :
    ∃ x, ofDecimal significand exponent = some x := by
  simp only [ofDecimal, if_pos hExponent]
  split
  · exact ⟨_, rfl⟩
  · rename_i hNe
    have hPower : exponent.toNat ≤ maxPower := by
      by_contra hMore
      have hLess : halfway < Nat.pow 10 (maxPower + 1) := by decide +kernel
      have hPow : Nat.pow 10 (maxPower + 1) ≤ Nat.pow 10 exponent.toNat :=
        pow_le (by decide) (Nat.lt_of_not_le hMore)
      have hOne := Nat.le_mul_of_pos_left (Nat.pow 10 exponent.toNat) (Nat.pos_of_ne_zero hNe)
      exact absurd (hLess.trans_le (hPow.trans (hOne.trans h))) (lt_irrefl _)
    rw [if_pos hPower, if_pos (isFinite_timesPowerOfTen hDigits hPower h)]
    exact ⟨_, rfl⟩

end Formulary.Decimal.Binary
