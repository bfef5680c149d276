import Formulary.Decimal.Shortest
import Formulary.Proofs.Decimal.Range
import Formulary.Proofs.Text.Numeral

/-!
# The shortest numeral is in range

The digits of the shortest numeral are at most seventeen, and what they denote is no more than the
next power of ten above the magnitude (`exists_ofDecimal_shortest`). Only magnitudes of at least
`10 ^ 308` are that near to the end of the range. Seventeen digits tell them apart
(`isSome_withDigits`), so their numeral is no further from them than half a unit, and but for the
greatest magnitude it is at most halfway between the last two but one.
-/

namespace Formulary.Decimal.Binary

open Text

variable {x : Binary}

theorem cast_ten_pow (n : Nat) : ((Nat.pow 10 n : Nat) : ℚ) = 10 ^ (n : Int) := by
  rw [zpow_natCast]
  exact Nat.cast_pow 10 n

theorem ten_zpow_eq_div (k : Int) :
    (10 : ℚ) ^ k = (Nat.pow 10 k.toNat : Nat) / (Nat.pow 10 (-k).toNat : Nat) :=
  @zpow_eq_div 10 (by decide) k

/-! ## The place of the first digit -/

/-- The whole part of a magnitude in units of the four hundredth place behind the point. -/
def shifted (x : Binary) : Nat := x.numerator * Nat.pow 10 400 / x.denominator

theorem place_eq (x : Binary) : x.place = (Text.ofNat x.shifted).length - 400 := rfl

theorem shifted_lt_iff (x : Binary) (bound : Nat) :
    x.shifted < Nat.pow 10 bound ↔ x.value < 10 ^ ((bound : Int) - 400) := by
  have hShift : (400 : Int) = (400 : Nat) := rfl
  rw [shifted, hShift]
  generalize 400 = shift
  have hDen : (0 : ℚ) < x.denominator := by exact_mod_cast x.denominator_pos
  have hPow : (0 : ℚ) < 10 ^ (shift : Int) := by positivity
  rw [Nat.div_lt_iff_lt_mul x.denominator_pos, zpow_sub₀ (by decide), value_eq_div,
    div_lt_div_iff₀ hDen hPow, ← cast_ten_pow, ← cast_ten_pow]
  exact_mod_cast Iff.rfl

theorem length_ofNat_le_iff {n bound : Nat} (hBound : 0 < bound) :
    (Text.ofNat n).length ≤ bound ↔ n < Nat.pow 10 bound :=
  Nat.length_toDigits_le_iff (by decide) hBound

theorem value_lt_place (x : Binary) : x.value < 10 ^ x.place := by
  have hLess := (length_ofNat_le_iff Nat.length_toDigits_pos).mp
    (Nat.le_refl (Text.ofNat x.shifted).length)
  rw [place_eq]
  exact (x.shifted_lt_iff _).mp hLess

/-- A magnitude that is not zero is seen in the four hundredth place. -/
theorem shifted_pos (hLeast : minExponent ≤ x.exponent) (hNe : x.mantissa ≠ 0) : 0 < x.shifted := by
  obtain ⟨bits, hBits⟩ : ∃ bits, bits = 1074 := ⟨_, rfl⟩
  have hUnit : Nat.pow 2 bits ≤ Nat.pow 10 400 := by
    subst hBits
    decide +kernel
  have hDen : x.denominator ≤ Nat.pow 2 bits := by
    refine pow_le (by decide) ?_
    rw [minExponent] at hLeast
    omega
  have hNum : 1 ≤ x.numerator := Nat.mul_pos (Nat.pos_of_ne_zero hNe) (Nat.two_pow_pos _)
  refine Nat.div_pos ?_ x.denominator_pos
  calc x.denominator ≤ Nat.pow 10 400 := hDen.trans hUnit
    _ ≤ x.numerator * Nat.pow 10 400 := Nat.le_mul_of_pos_left _ hNum

theorem ten_pow_le_value (hLeast : minExponent ≤ x.exponent) (hNe : x.mantissa ≠ 0) :
    10 ^ (x.place - 1) ≤ x.value := by
  have hPos : 0 < (Text.ofNat x.shifted).length := Nat.length_toDigits_pos
  have hLast : ¬ x.shifted < Nat.pow 10 ((Text.ofNat x.shifted).length - 1) := by
    intro hLess
    rcases Nat.lt_or_ge 1 (Text.ofNat x.shifted).length with hMore | hOne
    · have hShort := (length_ofNat_le_iff (Nat.sub_pos_of_lt hMore)).mpr hLess
      omega
    · rw [Nat.sub_eq_zero_of_le hOne] at hLess
      exact absurd (shifted_pos hLeast hNe) (not_lt.mpr (Nat.le_of_lt_succ hLess))
  have hExponent : (((Text.ofNat x.shifted).length - 1 : Nat) : Int) - 400 = x.place - 1 := by
    rw [place_eq]
    omega
  rw [shifted_lt_iff, hExponent] at hLast
  exact not_lt.mp hLast

theorem cast_pow_lt {bits digits : Nat} (h : Nat.pow 2 bits < Nat.pow 10 digits) :
    (2 : ℚ) ^ (bits : Int) < 10 ^ (digits : Int) := by
  rw [← cast_two_pow, ← cast_ten_pow]
  exact Nat.cast_lt.mpr h

/-- No magnitude in range has more than 309 places before the point. -/
theorem place_le (hx : IsMagnitude x) (hNe : x.mantissa ≠ 0) : x.place ≤ 309 := by
  have hTop := @cast_pow_lt 1024 309 (by decide +kernel)
  have hLow := ten_pow_le_value hx.canonical.least hNe
  have hLess : (10 : ℚ) ^ (x.place - 1) < 10 ^ ((309 : Nat) : Int) :=
    hLow.trans_lt ((isFinite_iff.mp hx.finite).trans hTop)
  have hPlace := (zpow_lt_zpow_iff_right₀ (by norm_num)).mp hLess
  omega

/-- A magnitude with 309 places is a multiple of the greatest unit, and none of its neighbours is
nearer than that. -/
theorem of_place_eq (hx : IsMagnitude x) (hNe : x.mantissa ≠ 0) (h : x.place = 309) :
    x.exponent = 971 ∧ Nat.pow 2 52 < x.mantissa := by
  have hBottom := @cast_pow_lt 1023 308 (by decide +kernel)
  have hLow := ten_pow_le_value hx.canonical.least hNe
  rw [h] at hLow
  have hMore : (2 : ℚ) ^ ((1023 : Nat) : Int) < x.value := hBottom.trans_le hLow
  have hUnit : (0 : ℚ) < 2 ^ x.exponent := by positivity
  have hAbove : x.value < 2 ^ ((53 : Nat) + x.exponent) := by
    rw [zpow_add₀ two_ne_zero, ← cast_two_pow]
    exact mul_lt_mul_of_pos_right (Nat.cast_lt.mpr hx.canonical.below) hUnit
  have hLeast : 971 ≤ x.exponent := by
    have hExponent := (zpow_lt_zpow_iff_right₀ one_lt_two).mp (hMore.trans hAbove)
    omega
  have hBits := hx.canonical.normal (by rw [minExponent]; omega)
  have hBelow : 2 ^ ((52 : Nat) + x.exponent) ≤ x.value := by
    rw [zpow_add₀ two_ne_zero, ← cast_two_pow]
    exact mul_le_mul_of_nonneg_right (Nat.cast_le.mpr hBits) hUnit.le
  have hExponent : x.exponent = 971 := by
    have hMost := (zpow_lt_zpow_iff_right₀ one_lt_two).mp
      (hBelow.trans_lt (isFinite_iff.mp hx.finite))
    omega
  refine ⟨hExponent, lt_of_le_of_ne hBits fun hSame => ?_⟩
  have hValue : x.value = 2 ^ ((1023 : Nat) : Int) := by
    rw [value, ← hSame, hExponent, cast_two_pow, ← zpow_add₀ two_ne_zero]
    rfl
  rw [hValue] at hMore
  exact lt_irrefl _ hMore

/-! ## Digits -/

/-- A magnitude with its point moved, as a quotient of whole numbers. -/
theorem moved_eq (x : Binary) (scale : Int) :
    ((x.numerator * Nat.pow 10 scale.toNat : Nat) : ℚ) /
      (x.denominator * Nat.pow 10 (-scale).toNat : Nat) = x.value * 10 ^ scale := by
  rw [ten_zpow_eq_div, value_eq_div, Nat.cast_mul, Nat.cast_mul, mul_div_mul_comm]

/-- The first digits of a magnitude are so many. -/
theorem whole_bounds (hLeast : minExponent ≤ x.exponent) (hNe : x.mantissa ≠ 0) {count : Nat}
    (hCount : 0 < count) {scale : Int} (hScale : scale = count - x.place) :
    let whole := x.numerator * Nat.pow 10 scale.toNat / (x.denominator * Nat.pow 10 (-scale).toNat)
    Nat.pow 10 (count - 1) ≤ whole ∧ whole < Nat.pow 10 count := by
  have hDen : 0 < x.denominator * Nat.pow 10 (-scale).toNat :=
    Nat.mul_pos x.denominator_pos (Nat.pow_pos (by decide))
  have hCast : (0 : ℚ) < (x.denominator * Nat.pow 10 (-scale).toNat : Nat) := by exact_mod_cast hDen
  have hUnit : (0 : ℚ) < 10 ^ scale := by positivity
  have hTen : (10 : ℚ) ≠ 0 := by decide
  constructor
  · have hFirst : ((Nat.pow 10 (count - 1) : Nat) : ℚ) ≤ x.value * 10 ^ scale := by
      have hSum : ((count - 1 : Nat) : Int) = x.place - 1 + scale := by omega
      rw [cast_ten_pow, hSum, zpow_add₀ hTen]
      exact mul_le_mul_of_nonneg_right (ten_pow_le_value hLeast hNe) hUnit.le
    rw [← moved_eq, le_div_iff₀ hCast] at hFirst
    exact (Nat.le_div_iff_mul_le hDen).mpr (by exact_mod_cast hFirst)
  · have hLast : x.value * 10 ^ scale < (Nat.pow 10 count : Nat) := by
      have hSum : (count : Int) = x.place + scale := by omega
      rw [cast_ten_pow, hSum, zpow_add₀ hTen]
      exact mul_lt_mul_of_pos_right x.value_lt_place hUnit
    rw [← moved_eq, div_lt_iff₀ hCast] at hLast
    exact (Nat.div_lt_iff_lt_mul hDen).mpr (by exact_mod_cast hLast)

/-- Digits that are chosen are those of the magnitude or one more, and they read back. -/
theorem exists_of_withDigits {place : Int} {count : Nat} {numeral : Numeral}
    (h : x.withDigits place count = some numeral) :
    let scale := (count : Int) - place
    let whole := x.numerator * Nat.pow 10 scale.toNat / (x.denominator * Nat.pow 10 (-scale).toNat)
    ∃ digits, (digits = whole ∨ digits = whole + 1) ∧ 0 < digits ∧
      x.admits (digits * Nat.pow 10 (-scale).toNat) (Nat.pow 10 scale.toNat) ∧
      numeral = ⟨digits, if digits = Nat.pow 10 count then place + 1 else place⟩ := by
  intro scale whole
  obtain ⟨digits, hDigits, rfl⟩ := Option.map_eq_some_iff.mp h
  refine ⟨digits, ?_⟩
  simp only [Bool.and_eq_true, decide_eq_true_eq] at hDigits
  split at hDigits
  · rename_i hBoth
    obtain ⟨⟨hPos, hLow⟩, hHigh⟩ := hBoth
    split at hDigits
    · cases hDigits
      exact ⟨.inl rfl, hPos, hLow, rfl⟩
    · cases hDigits
      exact ⟨.inr rfl, Nat.succ_pos _, hHigh, rfl⟩
  · split at hDigits
    · rename_i hLow
      cases hDigits
      exact ⟨.inl rfl, hLow.1, hLow.2, rfl⟩
    · split at hDigits
      · rename_i hHigh
        cases hDigits
        exact ⟨.inr rfl, Nat.succ_pos _, hHigh, rfl⟩
      · cases hDigits

/-! ## Range -/

/-- A numeral of up to seventeen digits that denotes no more than halfway between the last two
magnitudes but one. -/
structure IsInRange (numeral : Numeral) : Prop where
  pos : 0 < numeral.digits
  most : numeral.digits ≤ Nat.pow 10 17
  value : (numeral.digits : ℚ) * 10 ^ (numeral.point - (Text.ofNat numeral.digits).length) ≤ halfway

theorem ten_pow_le_halfway {place : Int} (h : place ≤ 308) : (10 : ℚ) ^ place ≤ halfway := by
  obtain ⟨power, hPower⟩ : ∃ power, power = 308 := ⟨_, rfl⟩
  have hLast : Nat.pow 10 power ≤ halfway := by
    subst hPower
    decide +kernel
  have hStep : (10 : ℚ) ^ place ≤ 10 ^ (power : Int) :=
    zpow_le_zpow_right₀ (by norm_num) (by omega)
  rw [← cast_ten_pow] at hStep
  exact hStep.trans (Nat.cast_le.mpr hLast)

/-- Whatever digits stand behind the point of `0.d₁d₂…`, the numeral is less than one. -/
theorem digits_lt (digits : Nat) (point : Int) :
    (digits : ℚ) * 10 ^ (point - (Text.ofNat digits).length) < 10 ^ point := by
  have hTen : (10 : ℚ) ≠ 0 := by decide
  have hLess : digits < Nat.pow 10 (Text.ofNat digits).length :=
    (length_ofNat_le_iff Nat.length_toDigits_pos).mp (Nat.le_refl _)
  have hCast : (digits : ℚ) < 10 ^ ((Text.ofNat digits).length : Int) := by
    rw [← cast_ten_pow]
    exact Nat.cast_lt.mpr hLess
  have hPow : (0 : ℚ) < 10 ^ ((Text.ofNat digits).length : Int) := by positivity
  have hPoint : (0 : ℚ) < 10 ^ point := by positivity
  rw [zpow_sub₀ hTen, mul_div_assoc', div_lt_iff₀ hPow, mul_comm]
  exact mul_lt_mul_of_pos_left hCast hPoint

/-- The point stands so that the digits have the places that they were chosen for. -/
theorem point_sub_length {digits count : Nat} {place : Int} (hCount : 0 < count)
    (hLeast : Nat.pow 10 (count - 1) ≤ digits) (hMost : digits ≤ Nat.pow 10 count) :
    (if digits = Nat.pow 10 count then place + 1 else place) - ((Text.ofNat digits).length : Int) =
      place - count := by
  split
  · rename_i hSame
    have hLong : ¬ (Text.ofNat digits).length ≤ count := by
      rw [length_ofNat_le_iff hCount, hSame]
      exact Nat.lt_irrefl _
    have hShort : (Text.ofNat digits).length ≤ count + 1 := by
      rw [length_ofNat_le_iff (Nat.succ_pos count), hSame]
      exact Nat.pow_lt_pow_succ (by decide)
    omega
  · rename_i hNe
    have hShort := (length_ofNat_le_iff hCount).mpr (Nat.lt_of_le_of_ne hMost hNe)
    have hLong : count ≤ (Text.ofNat digits).length := by
      have hPos : 0 < (Text.ofNat digits).length := Nat.length_toDigits_pos
      rcases Nat.lt_or_ge 1 count with hMore | hOne
      · have hNot := mt (length_ofNat_le_iff (Nat.sub_pos_of_lt hMore)).mp (Nat.not_lt.mpr hLeast)
        omega
      · omega
    omega

/-- What reads back is at most half a unit above the magnitude. -/
theorem le_of_admits {n bits : Nat} (hExponent : x.exponent = bits + 2) (h : x.admits n 1) :
    n ≤ (4 * x.mantissa + 2) * Nat.pow 2 bits := by
  have hQuarter : x.exponent - 2 = bits := by omega
  have hUnits : inUnits n 1 (x.exponent - 2) = (n, Nat.pow 2 bits) := by
    have hZero : (-(bits : Int)).toNat = 0 := by omega
    rw [hQuarter, inUnits, hZero, Int.toNat_natCast, Nat.one_mul]
    exact congrArg (·, _) (Nat.mul_one n)
  rw [admits, hUnits] at h
  simp only at h
  split at h
  · exact of_decide_eq_true (Bool.and_eq_true_iff.mp h).2
  · exact (of_decide_eq_true (Bool.and_eq_true_iff.mp h).2).le

/-- What is less than half a unit away reads back, unless the unit below is a smaller one. -/
theorem admits_of_near {n bits : Nat} (hExponent : x.exponent = bits + 2)
    (hWide : x.isNarrowBelow = false) (hLow : (4 * x.mantissa - 2) * Nat.pow 2 bits < n)
    (hHigh : n < (4 * x.mantissa + 2) * Nat.pow 2 bits) : x.admits n 1 := by
  have hQuarter : x.exponent - 2 = bits := by omega
  have hUnits : inUnits n 1 (x.exponent - 2) = (n, Nat.pow 2 bits) := by
    have hZero : (-(bits : Int)).toNat = 0 := by omega
    rw [hQuarter, inUnits, hZero, Int.toNat_natCast, Nat.one_mul]
    exact congrArg (·, _) (Nat.mul_one n)
  rw [admits, hUnits, hWide]
  simp only [Bool.false_eq_true, if_false]
  split
  · exact Bool.and_eq_true_iff.mpr ⟨decide_eq_true hLow.le, decide_eq_true hHigh.le⟩
  · exact Bool.and_eq_true_iff.mpr ⟨decide_eq_true hLow, decide_eq_true hHigh⟩

/-- One of the two multiples of a number that are next to another one is less than half a unit away
from it, when the number is less than a unit. -/
theorem near_or_near {mantissa unit step value : Nat} (hMantissa : 0 < mantissa)
    (hUnit : value = 4 * mantissa * unit) (hStep : step < 4 * unit) (hPos : 0 < step) :
    let low := value / step * step
    let high := (value / step + 1) * step
    (4 * mantissa - 2) * unit < low ∧ low < (4 * mantissa + 2) * unit ∨
      (4 * mantissa - 2) * unit < high ∧ high < (4 * mantissa + 2) * unit := by
  intro low high
  have hSum : low + value % step = value := Nat.div_add_mod' value step
  have hRest := Nat.mod_lt value hPos
  have hHigh : high = low + step := Nat.succ_mul _ _
  have hBelow : (4 * mantissa - 2) * unit = value - 2 * unit := by rw [Nat.sub_mul, hUnit]
  have hAbove : (4 * mantissa + 2) * unit = value + 2 * unit := by rw [Nat.add_mul, hUnit]
  have hLeast : 4 * unit ≤ value := by
    rw [hUnit]
    exact Nat.mul_le_mul_right unit (Nat.le_mul_of_pos_right 4 hMantissa)
  rcases Nat.lt_or_ge (value % step) (2 * unit) with hNear | hFar
  · left
    omega
  · right
    omega

/-- Seventeen digits tell the greatest magnitudes apart: one of the two nearest numerals reads
back. -/
theorem isSome_withDigits (hExponent : x.exponent = 971) (hBits : Nat.pow 2 52 < x.mantissa) :
    (x.withDigits 309 17).isSome := by
  have hWide : x.isNarrowBelow = false := by
    rw [isNarrowBelow, decide_eq_false (Nat.ne_of_gt hBits), Bool.false_and]
  obtain ⟨bits, hBound⟩ : ∃ bits, bits = 969 := ⟨_, rfl⟩
  obtain ⟨power, hPower⟩ : ∃ power, power = 292 := ⟨_, rfl⟩
  have hLess : Nat.pow 10 power < 4 * Nat.pow 2 bits := by
    rw [hBound, hPower]
    decide +kernel
  have hPos : 0 < Nat.pow 10 power := Nat.pow_pos (by decide)
  have hUnits : x.exponent = bits + 2 := by omega
  have hNum : x.numerator = 4 * x.mantissa * Nat.pow 2 bits := by
    have hPow : Nat.pow 2 (bits + 2) = Nat.pow 2 bits * 4 := Nat.pow_add 2 bits 2
    have hNat : x.exponent.toNat = bits + 2 := by omega
    rw [numerator, hNat, hPow]
    ring
  have hDen : x.denominator = 1 := by
    have hZero : (-x.exponent).toNat = 0 := by omega
    rw [denominator, hZero]
  have hNear := near_or_near (Nat.zero_lt_of_lt hBits) hNum hLess hPos
  have hAdmits : ∀ {n : Nat}, (4 * x.mantissa - 2) * Nat.pow 2 bits < n ∧
      n < (4 * x.mantissa + 2) * Nat.pow 2 bits → x.admits n 1 := fun h =>
    admits_of_near hUnits hWide h.1 h.2
  have hPositive : 0 < x.numerator / Nat.pow 10 power := by
    refine Nat.div_pos ?_ hPos
    rw [hNum, Nat.mul_assoc]
    have hOne := Nat.mul_le_mul_right (Nat.pow 2 bits) (Nat.zero_lt_of_lt hBits)
    omega
  have hUp : Nat.pow 10 ((17 : Nat) - 309 : Int).toNat = 1 := rfl
  have hDown : (-((17 : Nat) - 309 : Int)).toNat = power := hPower.symm
  rw [withDigits, Option.isSome_map]
  simp only [hUp, hDown, hDen, Nat.mul_one, Nat.one_mul, hPositive, decide_true, Bool.true_and]
  split
  · split <;> rfl
  · split
    · rfl
    · split
      · rfl
      · rename_i hNotLow hNotHigh
        exact absurd (hNear.imp hAdmits hAdmits) (not_or.mpr ⟨hNotLow, hNotHigh⟩)

/-- The greatest magnitude is the one that is more than halfway. -/
def IsGreatest (x : Binary) : Prop := x = ⟨Nat.pow 2 53 - 1, 971⟩

/-- What reads back as another magnitude is at most halfway. -/
theorem le_halfway {n : Nat} (hExponent : x.exponent = 971) (hBits : x.mantissa < Nat.pow 2 53)
    (hMost : ¬ IsGreatest x) (h : x.admits n 1) : n ≤ halfway := by
  obtain ⟨bits, hBound⟩ : ∃ bits, bits = 969 := ⟨_, rfl⟩
  have hHalf : halfway = (4 * (Nat.pow 2 53 - 2) + 2) * Nat.pow 2 bits := by
    rw [hBound]
    decide +kernel
  have hMantissa : x.mantissa ≤ Nat.pow 2 53 - 2 := by
    have hNe : x.mantissa ≠ Nat.pow 2 53 - 1 := by
      intro hSame
      obtain ⟨mantissa, exponent⟩ := x
      cases hSame
      cases hExponent
      exact hMost rfl
    omega
  have hNear := @le_of_admits x n bits (by omega) h
  rw [hHalf]
  exact hNear.trans (Nat.mul_le_mul_right _ (by omega))

theorem isInRange_of_withDigits (hx : IsMagnitude x) (hNe : x.mantissa ≠ 0)
    (hMost : ¬ IsGreatest x) {count : Nat} (hCount : 0 < count ∧ count ≤ 17) {numeral : Numeral}
    (h : x.withDigits x.place count = some numeral) : IsInRange numeral := by
  obtain ⟨digits, hDigits, hPos, hAdmits, rfl⟩ := exists_of_withDigits h
  obtain ⟨hLow, hHigh⟩ := whole_bounds hx.canonical.least hNe hCount.1 rfl
  have hLeast : Nat.pow 10 (count - 1) ≤ digits := by
    rcases hDigits with rfl | rfl
    · exact hLow
    · exact hLow.trans (Nat.le_succ _)
  have hBound : digits ≤ Nat.pow 10 count := by
    rcases hDigits with rfl | rfl
    · exact hHigh.le
    · exact hHigh
  refine ⟨hPos, hBound.trans (pow_le (by decide) hCount.2), ?_⟩
  simp only
  rw [point_sub_length hCount.1 hLeast hBound]
  rcases le_or_gt x.place 308 with hPlace | hLast
  · have hCast : (digits : ℚ) ≤ 10 ^ (count : Int) := by
      rw [← cast_ten_pow]
      exact Nat.cast_le.mpr hBound
    have hSum : (10 : ℚ) ^ (count : Int) * 10 ^ (x.place - count) = 10 ^ x.place := by
      rw [← zpow_add₀ (by decide), add_sub_cancel]
    calc (digits : ℚ) * 10 ^ (x.place - count) ≤ 10 ^ (count : Int) * 10 ^ (x.place - count) :=
          mul_le_mul_of_nonneg_right hCast (by positivity)
      _ = 10 ^ x.place := hSum
      _ ≤ halfway := ten_pow_le_halfway hPlace
  · have hTop := place_le hx hNe
    have hPlace : x.place = 309 := by omega
    obtain ⟨hExponent, -⟩ := of_place_eq hx hNe hPlace
    have hZero : ((count : Int) - x.place).toNat = 0 := by omega
    have hPower : ((-((count : Int) - x.place)).toNat : Int) = x.place - count := by omega
    rw [hZero] at hAdmits
    have hNear := le_halfway hExponent hx.canonical.below hMost hAdmits
    rw [← hPower, ← cast_ten_pow]
    exact_mod_cast hNear

theorem isInRange_shortest (hx : IsMagnitude x) (hNe : x.mantissa ≠ 0) (hMost : ¬ IsGreatest x) :
    IsInRange x.shortest := by
  simp only [shortest]
  cases hFind : (List.range' 1 17).findSome? (x.withDigits x.place) with
  | some numeral =>
    obtain ⟨count, hCount, hDigits⟩ := List.exists_of_findSome?_eq_some hFind
    simp only [List.mem_range'_1] at hCount
    exact isInRange_of_withDigits hx hNe hMost (by omega) hDigits
  | none =>
    -- The digits of the mantissa are a fallback that the greatest magnitudes have no use for.
    have hNone := List.findSome?_eq_none_iff.mp hFind 17 (by simp)
    have hPlace : x.place ≤ 308 := by
      have hTop := place_le hx hNe
      by_contra hMore
      have hLast : x.place = 309 := by omega
      obtain ⟨hExponent, hBits⟩ := of_place_eq hx hNe hLast
      have hSome := isSome_withDigits hExponent hBits
      rw [← hLast, hNone] at hSome
      cases hSome
    have hBits : Nat.pow 2 53 ≤ Nat.pow 10 17 := by decide
    exact ⟨Nat.pos_of_ne_zero hNe, hx.canonical.below.le.trans hBits,
      (digits_lt _ _).le.trans (ten_pow_le_halfway hPlace)⟩

/-! ## Trailing zeros -/

theorem ofNat_eq_trimmed (digits : Nat) :
    ∃ zeros, Text.ofNat digits = trimmed digits ++ List.replicate zeros '0' := by
  set ending := (Text.ofNat digits).reverse.takeWhile (· = '0') with hEnding
  have hZeros : ∀ c ∈ ending, c = '0' := fun c hc =>
    of_decide_eq_true (List.all_eq_true.mp List.all_takeWhile c hc)
  have hCut : ending ++ (Text.ofNat digits).reverse.dropWhile (· = '0') =
      (Text.ofNat digits).reverse := List.takeWhile_append_dropWhile
  have hReverse := congrArg List.reverse hCut
  rw [List.reverse_reverse, List.reverse_append, List.eq_replicate_of_mem hZeros,
    List.reverse_replicate] at hReverse
  exact ⟨_, hReverse.symm⟩

/-- The digits that are written denote what all of them do. -/
theorem trimmed_value (digits : Nat) (point : Int) :
    ((Nat.ofDigitChars 10 (trimmed digits) 0 : Nat) : ℚ) *
        10 ^ (point - ((trimmed digits).length : Int)) =
      digits * 10 ^ (point - ((Text.ofNat digits).length : Int)) := by
  obtain ⟨zeros, hZeros⟩ := ofNat_eq_trimmed digits
  have hValue := ofDigitChars_ofNat digits
  rw [hZeros, Nat.ofDigitChars_append, Nat.ofDigitChars_replicate_zero] at hValue
  have hCast : (digits : ℚ) =
      10 ^ (zeros : Int) * (Nat.ofDigitChars 10 (trimmed digits) 0 : Nat) := by
    rw [← cast_ten_pow]
    exact_mod_cast hValue.symm
  have hExponent : point - ((trimmed digits).length : Int) =
      zeros + (point - ((Text.ofNat digits).length : Int)) := by
    rw [hZeros, List.length_append, List.length_replicate]
    omega
  rw [hCast, hExponent, zpow_add₀ (by decide)]
  ring

theorem trimmed_le (digits : Nat) : Nat.ofDigitChars 10 (trimmed digits) 0 ≤ digits := by
  obtain ⟨zeros, hZeros⟩ := ofNat_eq_trimmed digits
  have hValue := ofDigitChars_ofNat digits
  rw [hZeros, Nat.ofDigitChars_append] at hValue
  exact (le_ofDigitChars _ _).trans_eq hValue

/-- The digits that are written begin with another one than zero. -/
theorem exists_trimmed_eq_cons {digits : Nat} (h : 0 < digits) :
    ∃ c rest, trimmed digits = c :: rest ∧ c ≠ '0' ∧ ∀ d ∈ c :: rest, d.isDigit := by
  obtain ⟨zeros, hZeros⟩ := ofNat_eq_trimmed digits
  have hHead := head?_ofNat_ne h
  cases hTrimmed : trimmed digits with
  | nil =>
    have hValue := ofDigitChars_ofNat digits
    rw [hZeros, hTrimmed, List.nil_append, Nat.ofDigitChars_replicate_zero] at hValue
    omega
  | cons c rest =>
    rw [hZeros, hTrimmed] at hHead
    refine ⟨c, rest, rfl, fun hc => hHead (congrArg some hc), fun d hd => ?_⟩
    have hMem : d ∈ Text.ofNat digits := by
      rw [hZeros, hTrimmed]
      exact List.mem_append_left _ hd
    exact isDigit_of_mem_ofNat hMem

/-- Where the point of the shortest numeral stands behind its digits, the numeral is in range. -/
theorem exists_ofDecimal_shortest (hx : IsMagnitude x) (hNe : x.mantissa ≠ 0) :
    0 < x.shortest.digits ∧ x.shortest.digits ≤ Nat.pow 10 17 ∧
      let digits := trimmed x.shortest.digits
      (0 ≤ x.shortest.point - digits.length →
        ∃ y, ofDecimal (Nat.ofDigitChars 10 digits 0) (x.shortest.point - digits.length) =
          some y) := by
  by_cases hMost : IsGreatest x
  · rw [hMost]
    have hShortest : shortest ⟨Nat.pow 2 53 - 1, 971⟩ = ⟨17976931348623157, 309⟩ := by
      decide +kernel
    rw [hShortest]
    refine ⟨by decide, by decide, fun _ => Option.isSome_iff_exists.mp ?_⟩
    decide +kernel
  · obtain ⟨hPos, hDigits, hValue⟩ := isInRange_shortest hx hNe hMost
    refine ⟨hPos, hDigits, fun hPoint => ?_⟩
    refine exists_ofDecimal ((trimmed_le _).trans hDigits) hPoint ?_
    rw [← trimmed_value, ← Int.toNat_of_nonneg hPoint, ← cast_ten_pow] at hValue
    exact_mod_cast hValue

end Formulary.Decimal.Binary
