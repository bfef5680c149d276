import Formulary.Decimal.Binary
import Mathlib.Algebra.Order.Field.Power
import Mathlib.Tactic.FieldSimp
import Mathlib.Tactic.Linarith
import Mathlib.Tactic.Positivity
import Mathlib.Tactic.Ring

/-!
# Rounding to binary magnitudes

A quotient is rounded to a multiple of a power of two that leaves 53 bits (`isUnit_exponentOf`).
Rounding does not cross a magnitude: when a quotient is at most, or at least, a multiple of a power
of two with at most 53 bits, so is the magnitude it is rounded to (`value_ofRatio_le`,
`le_value_ofRatio`).
-/

namespace Formulary.Decimal.Binary

/-- The value of a magnitude. -/
def value (x : Binary) : ℚ := x.mantissa * 2 ^ x.exponent

theorem value_nonneg (x : Binary) : 0 ≤ x.value := by
  unfold value
  positivity

theorem denominator_pos (x : Binary) : 0 < x.denominator := Nat.two_pow_pos _

theorem two_zpow_ne_zero (k : Int) : (2 : ℚ) ^ k ≠ 0 := by positivity

theorem cast_two_pow (n : Nat) : ((Nat.pow 2 n : Nat) : ℚ) = 2 ^ (n : Int) := by
  rw [zpow_natCast]
  exact Nat.cast_pow 2 n

theorem pow_le {base power more : Nat} (hBase : 0 < base) (h : power ≤ more) :
    Nat.pow base power ≤ Nat.pow base more :=
  Nat.pow_le_pow_right hBase h

/-- A power is a quotient of powers with natural exponents, of which one is zero. -/
theorem zpow_eq_div {base : Nat} (hBase : base ≠ 0) (k : Int) :
    (base : ℚ) ^ k = (Nat.pow base k.toNat : Nat) / (Nat.pow base (-k).toNat : Nat) := by
  have hPow : ∀ n : Nat, ((Nat.pow base n : Nat) : ℚ) = (base : ℚ) ^ n := Nat.cast_pow base
  have hNe : (base : ℚ) ≠ 0 := by exact_mod_cast hBase
  rw [hPow, hPow]
  obtain ⟨n, rfl | rfl⟩ := k.eq_nat_or_neg
  · simp
  · simp

theorem two_zpow_eq_div (k : Int) :
    (2 : ℚ) ^ k = (Nat.pow 2 k.toNat : Nat) / (Nat.pow 2 (-k).toNat : Nat) :=
  @zpow_eq_div 2 two_ne_zero k

theorem value_eq_div (x : Binary) : x.value = x.numerator / x.denominator := by
  rw [value, two_zpow_eq_div, numerator, denominator, Nat.cast_mul, mul_div_assoc]

theorem numerator_lt_iff (x : Binary) (n : Nat) :
    x.numerator < Nat.pow 2 n * x.denominator ↔ x.value < 2 ^ (n : Int) := by
  have hPos : (0 : ℚ) < x.denominator := by exact_mod_cast x.denominator_pos
  rw [value_eq_div, div_lt_iff₀ hPos, ← cast_two_pow]
  exact_mod_cast Iff.rfl

theorem isFinite_iff {x : Binary} : x.isFinite ↔ x.value < 2 ^ ((1024 : Nat) : Int) := by
  unfold isFinite
  generalize 1024 = bits
  rw [decide_eq_true_iff]
  exact numerator_lt_iff x bits

/-! ## Quotients -/

section

variable {num den bound : Nat}

theorem le_roundDiv (hDen : 0 < den) (h : bound * den ≤ num) : bound ≤ roundDiv num den := by
  have hQuotient : bound ≤ num / den := (Nat.le_div_iff_mul_le hDen).mpr h
  simp only [roundDiv]
  split
  · exact hQuotient
  · split
    · omega
    · split <;> omega

theorem roundDiv_le (hDen : 0 < den) (h : num ≤ bound * den) : roundDiv num den ≤ bound := by
  have hQuotient : num / den ≤ bound := Nat.div_le_of_le_mul (by rwa [Nat.mul_comm])
  rcases Nat.lt_or_eq_of_le hQuotient with hLess | hSame
  · simp only [roundDiv]
    split
    · omega
    · split
      · omega
      · split <;> omega
  · -- The quotient is whole, so nothing is rounded.
    have hMod : num % den = 0 := by
      have hSum := Nat.div_add_mod num den
      rw [hSame, Nat.mul_comm] at hSum
      omega
    rw [roundDiv, hMod, if_pos (by omega), hSame]

theorem inUnits_pos (hDen : 0 < den) (k : Int) : 0 < (inUnits num den k).2 :=
  Nat.mul_pos hDen (Nat.two_pow_pos _)

theorem inUnits_div (num den : Nat) (k : Int) :
    ((inUnits num den k).1 : ℚ) / (inUnits num den k).2 = num / den / 2 ^ k := by
  rw [two_zpow_eq_div, inUnits, Nat.cast_mul, Nat.cast_mul, div_div_eq_mul_div, div_mul_eq_mul_div,
    div_div]

/-- A quotient has at most 53 bits in units of a power of two, and just as many unless the unit is
the least one. -/
structure IsUnit (quotient : ℚ) (exponent : Int) : Prop where
  least : minExponent ≤ exponent
  below : quotient < (Nat.pow 2 53 : Nat) * 2 ^ exponent
  normal : minExponent < exponent → (Nat.pow 2 52 : Nat) * 2 ^ exponent ≤ quotient

theorem two_pow_log2_le {n : Nat} (h : n ≠ 0) : (2 : ℚ) ^ (n.log2 : Int) ≤ n := by
  rw [zpow_natCast]
  exact_mod_cast Nat.log2_self_le h

theorem lt_two_pow_log2 (n : Nat) : (n : ℚ) < 2 ^ (n.log2 + 1 : Int) := by
  have hPow : (2 : ℚ) ^ (n.log2 + 1 : Int) = 2 ^ (n.log2 + 1) := by
    exact_mod_cast zpow_natCast (2 : ℚ) (n.log2 + 1)
  rw [hPow]
  exact_mod_cast Nat.lt_log2_self

/-- The units of the first guess leave 52 or 53 bits. -/
theorem quotient_bounds (hNum : num ≠ 0) (hDen : 0 < den) {guess : Int}
    (hGuess : guess = (num.log2 : Int) - (den.log2 : Int) - 52) :
    2 ^ (51 : Int) * 2 ^ guess < (num : ℚ) / den ∧
      (num : ℚ) / den < 2 ^ (53 : Int) * 2 ^ guess := by
  have hTwo : (2 : ℚ) ≠ 0 := two_ne_zero
  have hDenPos : (0 : ℚ) < den := by exact_mod_cast hDen
  have hLow : (2 : ℚ) ^ (51 : Int) * 2 ^ guess * 2 ^ (den.log2 + 1 : Int) =
      2 ^ (num.log2 : Int) := by
    rw [← zpow_add₀ hTwo, ← zpow_add₀ hTwo, hGuess]
    congr 1
    ring
  have hHigh : (2 : ℚ) ^ (53 : Int) * 2 ^ guess * 2 ^ (den.log2 : Int) =
      2 ^ (num.log2 + 1 : Int) := by
    rw [← zpow_add₀ hTwo, ← zpow_add₀ hTwo, hGuess]
    congr 1
    ring
  constructor
  · rw [lt_div_iff₀ hDenPos]
    calc (2 : ℚ) ^ (51 : Int) * 2 ^ guess * den
        < 2 ^ (51 : Int) * 2 ^ guess * 2 ^ (den.log2 + 1 : Int) :=
          mul_lt_mul_of_pos_left (lt_two_pow_log2 den) (by positivity)
      _ = 2 ^ (num.log2 : Int) := hLow
      _ ≤ num := two_pow_log2_le hNum
  · rw [div_lt_iff₀ hDenPos]
    calc (num : ℚ) < 2 ^ (num.log2 + 1 : Int) := lt_two_pow_log2 num
      _ = 2 ^ (53 : Int) * 2 ^ guess * 2 ^ (den.log2 : Int) := hHigh.symm
      _ ≤ 2 ^ (53 : Int) * 2 ^ guess * den :=
          mul_le_mul_of_nonneg_left (two_pow_log2_le hDen.ne') (by positivity)

/-- The unit that is chosen leaves 53 bits. -/
theorem isUnit_exponentOf (hNum : num ≠ 0) (hDen : 0 < den) :
    IsUnit ((num : ℚ) / den) (exponentOf num den) := by
  obtain ⟨hLow, hHigh⟩ := quotient_bounds hNum hDen rfl
  set guess : Int := (num.log2 : Int) - (den.log2 : Int) - 52 with hGuess
  have hUnits : (inUnits num den guess).1 / (inUnits num den guess).2 < Nat.pow 2 52 ↔
      (num : ℚ) / den < (Nat.pow 2 52 : Nat) * 2 ^ guess := by
    have hPos := @inUnits_pos num den hDen guess
    have hCast : (0 : ℚ) < (inUnits num den guess).2 := by exact_mod_cast hPos
    have hGuessPos : (0 : ℚ) < 2 ^ guess := by positivity
    rw [Nat.div_lt_iff_lt_mul hPos, ← div_lt_iff₀ hGuessPos, ← inUnits_div, div_lt_iff₀ hCast]
    exact_mod_cast Iff.rfl
  have hBits : ((Nat.pow 2 52 : Nat) : ℚ) = 2 ^ (52 : Int) := cast_two_pow 52
  have hExact : ∃ exact : Int, exponentOf num den = max minExponent exact ∧
      (num : ℚ) / den < 2 ^ (53 : Int) * 2 ^ exact ∧
      (Nat.pow 2 52 : Nat) * 2 ^ exact ≤ (num : ℚ) / den := by
    by_cases hShort : (inUnits num den guess).1 / (inUnits num den guess).2 < Nat.pow 2 52
    · have hHalf : (2 : ℚ) ^ guess = 2 * 2 ^ (guess - 1) := by
        rw [zpow_sub_one₀ two_ne_zero]
        ring
      refine ⟨guess - 1, ?_, ?_, ?_⟩
      · simp only [exponentOf, ← hGuess, if_pos hShort]
      · have hLess := hUnits.mp hShort
        rw [hHalf, hBits] at hLess
        calc (num : ℚ) / den < 2 ^ (52 : Int) * (2 * 2 ^ (guess - 1)) := hLess
          _ = 2 ^ (53 : Int) * 2 ^ (guess - 1) := by ring
      · rw [hHalf] at hLow
        rw [hBits]
        calc (2 : ℚ) ^ (52 : Int) * 2 ^ (guess - 1) = 2 ^ (51 : Int) * (2 * 2 ^ (guess - 1)) := by
              ring
          _ ≤ num / den := hLow.le
    · refine ⟨guess, ?_, hHigh, not_lt.mp (mt hUnits.mpr hShort)⟩
      simp only [exponentOf, ← hGuess, if_neg hShort]
  obtain ⟨exact, hExponent, hBelow, hNormal⟩ := hExact
  have hPow : ((Nat.pow 2 53 : Nat) : ℚ) = 2 ^ (53 : Int) := cast_two_pow 53
  rw [hExponent]
  refine ⟨le_max_left _ _, ?_, fun hLess => ?_⟩
  · have hLe : (2 : ℚ) ^ exact ≤ 2 ^ max minExponent exact :=
      zpow_le_zpow_right₀ one_le_two (le_max_right _ _)
    rw [hPow]
    exact lt_of_lt_of_le hBelow (mul_le_mul_of_nonneg_left hLe (by positivity))
  · rwa [max_eq_right_of_lt (lt_max_iff.mp hLess |>.resolve_left (lt_irrefl _))]

/-! ## Magnitudes -/

/-- A magnitude has a mantissa of at most 53 bits, and just as many unless its exponent is the least
one. -/
structure IsCanonical (x : Binary) : Prop where
  least : minExponent ≤ x.exponent
  below : x.mantissa < Nat.pow 2 53
  normal : minExponent < x.exponent → Nat.pow 2 52 ≤ x.mantissa

/-- The rounded multiple of the unit has at most 53 bits. -/
theorem roundDiv_inUnits (hNum : num ≠ 0) (hDen : 0 < den) :
    let units := inUnits num den (exponentOf num den)
    roundDiv units.1 units.2 ≤ Nat.pow 2 53 ∧
      (minExponent < exponentOf num den → Nat.pow 2 52 ≤ roundDiv units.1 units.2) := by
  obtain ⟨-, hBelow, hNormal⟩ := isUnit_exponentOf hNum hDen
  have hUnit : (0 : ℚ) < 2 ^ exponentOf num den := by positivity
  have hRatio := inUnits_div num den (exponentOf num den)
  have hPos := @inUnits_pos num den hDen (exponentOf num den)
  have hCast : (0 : ℚ) < (inUnits num den (exponentOf num den)).2 := by exact_mod_cast hPos
  constructor
  · refine roundDiv_le hPos ?_
    have hLess := (div_lt_iff₀ hUnit).mpr hBelow
    rw [← hRatio, div_lt_iff₀ hCast] at hLess
    exact_mod_cast hLess.le
  · intro hMore
    refine le_roundDiv hPos ?_
    have hLe := (le_div_iff₀ hUnit).mpr (hNormal hMore)
    rw [← hRatio, le_div_iff₀ hCast] at hLe
    exact_mod_cast hLe

theorem value_ofRatio (hNum : num ≠ 0) :
    (ofRatio num den).value =
      (roundDiv (inUnits num den (exponentOf num den)).1 (inUnits num den (exponentOf num den)).2 :
        Nat) * 2 ^ exponentOf num den := by
  simp only [ofRatio, if_neg hNum]
  split
  · rename_i hCarry
    rw [hCarry, value, cast_two_pow 52, cast_two_pow 53, zpow_add_one₀ two_ne_zero]
    ring
  · rfl

theorem isCanonical_ofRatio (hDen : 0 < den) : IsCanonical (ofRatio num den) := by
  by_cases hNum : num = 0
  · rw [ofRatio, if_pos hNum]
    exact ⟨le_refl _, by decide, fun hLess => absurd hLess (lt_irrefl _)⟩
  · obtain ⟨hLeast, -, -⟩ := isUnit_exponentOf hNum hDen
    obtain ⟨hMost, hNormal⟩ := roundDiv_inUnits hNum hDen
    simp only [ofRatio, if_neg hNum]
    split
    · have hBelow : Nat.pow 2 52 < Nat.pow 2 53 := by decide
      exact ⟨hLeast.trans (Int.le_add_one (le_refl _)), hBelow, fun _ => le_refl _⟩
    · exact ⟨hLeast, lt_of_le_of_ne hMost ‹_›, hNormal⟩

/-- A multiple of a greater unit with few bits is one of the unit that is chosen. -/
theorem exists_multiple {exponent place : Int} (h : exponent ≤ place) (count : Nat) :
    ∃ multiple : Nat, (count : ℚ) * 2 ^ place = multiple * 2 ^ exponent := by
  refine ⟨count * Nat.pow 2 (place - exponent).toNat, ?_⟩
  have hSub : ((place - exponent).toNat : Int) = place - exponent := by omega
  rw [Nat.cast_mul, cast_two_pow, hSub, zpow_sub₀ two_ne_zero, mul_assoc,
    div_mul_cancel₀ _ (two_zpow_ne_zero _)]

/-- What has 53 bits in a unit has no more than 52 in a greater one. -/
theorem multiple_le {exponent place : Int} (h : place < exponent) {count : Nat}
    (hCount : count ≤ Nat.pow 2 53) :
    (count : ℚ) * 2 ^ place ≤ (Nat.pow 2 52 : Nat) * 2 ^ exponent := by
  have hStep : (2 : ℚ) ^ (place + 1) ≤ 2 ^ exponent := zpow_le_zpow_right₀ one_le_two h
  have hBound : (count : ℚ) ≤ (Nat.pow 2 53 : Nat) := by exact_mod_cast hCount
  have hDouble : ((Nat.pow 2 53 : Nat) : ℚ) = (Nat.pow 2 52 : Nat) * 2 := by
    have hSucc : Nat.pow 2 53 = Nat.pow 2 52 * 2 := rfl
    rw [hSucc, Nat.cast_mul, Nat.cast_ofNat]
  calc (count : ℚ) * 2 ^ place ≤ (Nat.pow 2 53 : Nat) * 2 ^ place :=
        mul_le_mul_of_nonneg_right hBound (by positivity)
    _ = (Nat.pow 2 52 : Nat) * 2 ^ (place + 1) := by
        rw [hDouble, zpow_add_one₀ two_ne_zero]
        ring
    _ ≤ (Nat.pow 2 52 : Nat) * 2 ^ exponent := mul_le_mul_of_nonneg_left hStep (by positivity)

/-- Rounding goes up to no more than a magnitude that the quotient does not exceed. -/
theorem value_ofRatio_le {count : Nat} {place : Int} (hDen : 0 < den)
    (hCount : count ≤ Nat.pow 2 53) (hPlace : minExponent ≤ place)
    (h : (num : ℚ) / den ≤ count * 2 ^ place) :
    (ofRatio num den).value ≤ count * 2 ^ place := by
  by_cases hNum : num = 0
  · have hZero : (ofRatio num den).value = 0 := by
      rw [ofRatio, if_pos hNum]
      exact (congrArg (· * (2 : ℚ) ^ minExponent) Nat.cast_zero).trans (zero_mul _)
    rw [hZero]
    positivity
  obtain ⟨hLeast, hBelow, hNormal⟩ := isUnit_exponentOf hNum hDen
  have hUnit : (0 : ℚ) < 2 ^ exponentOf num den := by positivity
  have hPos := @inUnits_pos num den hDen (exponentOf num den)
  have hCast : (0 : ℚ) < (inUnits num den (exponentOf num den)).2 := by exact_mod_cast hPos
  have hMultiple : ∀ multiple : Nat, (num : ℚ) / den ≤ multiple * 2 ^ exponentOf num den →
      (ofRatio num den).value ≤ multiple * 2 ^ exponentOf num den := by
    intro multiple hLe
    have hUnits := (div_le_iff₀ hUnit).mpr hLe
    rw [← inUnits_div, div_le_iff₀ hCast] at hUnits
    have hRound := roundDiv_le hPos (by exact_mod_cast hUnits)
    rw [value_ofRatio hNum]
    exact mul_le_mul_of_nonneg_right (by exact_mod_cast hRound) hUnit.le
  rcases le_or_gt (exponentOf num den) place with hLe | hMore
  · obtain ⟨multiple, hSame⟩ := exists_multiple hLe count
    rw [hSame] at h ⊢
    exact hMultiple multiple h
  · -- The quotient has 53 bits in greater units, so it is the bound.
    have hFull := multiple_le hMore hCount
    have hLow := hNormal (lt_of_le_of_lt hPlace hMore)
    have hSame : (count : ℚ) * 2 ^ place = (Nat.pow 2 52 : Nat) * 2 ^ exponentOf num den :=
      le_antisymm hFull (hLow.trans h)
    rw [hSame] at h ⊢
    exact hMultiple _ h

/-- Rounding goes down to no less than a magnitude that does not exceed the quotient. -/
theorem le_value_ofRatio {count : Nat} {place : Int} (hNum : num ≠ 0) (hDen : 0 < den)
    (hCount : count ≤ Nat.pow 2 53) (hPlace : minExponent ≤ place)
    (h : count * 2 ^ place ≤ (num : ℚ) / den) : count * 2 ^ place ≤ (ofRatio num den).value := by
  have hUnit : (0 : ℚ) < 2 ^ exponentOf num den := by positivity
  obtain ⟨-, hNormal⟩ := roundDiv_inUnits hNum hDen
  rw [value_ofRatio hNum]
  rcases le_or_gt (exponentOf num den) place with hLe | hMore
  · obtain ⟨multiple, hSame⟩ := exists_multiple hLe count
    have hPos := @inUnits_pos num den hDen (exponentOf num den)
    have hCast : (0 : ℚ) < (inUnits num den (exponentOf num den)).2 := by exact_mod_cast hPos
    rw [hSame] at h ⊢
    have hUnits := (le_div_iff₀ hUnit).mpr h
    rw [← inUnits_div, le_div_iff₀ hCast] at hUnits
    have hRound := le_roundDiv hPos (by exact_mod_cast hUnits)
    exact mul_le_mul_of_nonneg_right (by exact_mod_cast hRound) hUnit.le
  · have hBits := hNormal (lt_of_le_of_lt hPlace hMore)
    exact (multiple_le hMore hCount).trans
      (mul_le_mul_of_nonneg_right (by exact_mod_cast hBits) hUnit.le)

end

/-! ## Products and quotients -/

section

variable {x y : Binary} {count : Nat} {place : Int}

theorem numerator_ne_zero (h : x.value ≠ 0) : x.numerator ≠ 0 := by
  intro hZero
  rw [value_eq_div, hZero, Nat.cast_zero, zero_div] at h
  exact h rfl

theorem isCanonical_mul (x y : Binary) : IsCanonical (x.mul y) :=
  isCanonical_ofRatio (Nat.mul_pos x.denominator_pos y.denominator_pos)

theorem value_mul_le (hCount : count ≤ Nat.pow 2 53) (hPlace : minExponent ≤ place)
    (h : x.value * y.value ≤ count * 2 ^ place) : (x.mul y).value ≤ count * 2 ^ place := by
  refine value_ofRatio_le (Nat.mul_pos x.denominator_pos y.denominator_pos) hCount hPlace ?_
  rwa [Nat.cast_mul, Nat.cast_mul, mul_div_mul_comm, ← value_eq_div, ← value_eq_div]

theorem isCanonical_div (hy : y.value ≠ 0) : IsCanonical (x.div y) :=
  isCanonical_ofRatio (Nat.mul_pos x.denominator_pos (Nat.pos_of_ne_zero (numerator_ne_zero hy)))

theorem value_div_le (hy : y.value ≠ 0) (hCount : count ≤ Nat.pow 2 53)
    (hPlace : minExponent ≤ place) (h : x.value / y.value ≤ count * 2 ^ place) :
    (x.div y).value ≤ count * 2 ^ place := by
  have hPos := Nat.mul_pos x.denominator_pos (Nat.pos_of_ne_zero (numerator_ne_zero hy))
  refine value_ofRatio_le hPos hCount hPlace ?_
  rwa [Nat.cast_mul, Nat.cast_mul, mul_div_mul_comm, ← value_eq_div, ← inv_div (y.numerator : ℚ),
    ← value_eq_div, ← div_eq_mul_inv]

theorem isCanonical_ofNat (n : Nat) : IsCanonical (ofNat n) := isCanonical_ofRatio Nat.one_pos

theorem value_ofNat_le {n : Nat} (hCount : count ≤ Nat.pow 2 53) (hPlace : minExponent ≤ place)
    (h : (n : ℚ) ≤ count * 2 ^ place) : (ofNat n).value ≤ count * 2 ^ place :=
  value_ofRatio_le Nat.one_pos hCount hPlace (by rwa [Nat.cast_one, div_one])

/-- A positive whole number is rounded to no less than one. -/
theorem one_le_value_ofNat {n : Nat} (h : 0 < n) : 1 ≤ (ofNat n).value := by
  have hOne : ((1 : Nat) : ℚ) * 2 ^ (0 : Int) ≤ n / (1 : Nat) := by
    rw [Nat.cast_one, one_mul, zpow_zero, div_one]
    exact_mod_cast h
  have hRound := le_value_ofRatio h.ne' Nat.one_pos (by decide) (by decide) hOne
  rwa [Nat.cast_one, one_mul, zpow_zero] at hRound

end

end Formulary.Decimal.Binary
