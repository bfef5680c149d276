import Formulary.Decimal.Binary
import Formulary.Text.Basic

/-!
# The shortest decimal numeral

A magnitude is written with the fewest digits that read back as the same magnitude; of several
such numerals the one nearest to it is taken. `Binary.shortest` finds the digits and the place of
the point, `Binary.text` writes them: positionally when the point stands at most four places left
of the digits and at most sixteen places right of the first, with an exponent otherwise.
-/

namespace Formulary.Decimal

/-- A numeral `0.d₁d₂… * 10 ^ point`. -/
structure Numeral where
  digits : Nat
  point : Int
  deriving DecidableEq, Repr, Inhabited

namespace Binary

/-- The power of ten next above a positive magnitude: it is at least `10 ^ (place - 1)` and less
than `10 ^ place`. -/
def place (x : Binary) : Int :=
  (Nat.toDigits 10 (x.numerator * Nat.pow 10 400 / x.denominator)).length - 400

/-- The next smaller magnitude is only half a unit of `2 ^ exponent` away: the mantissa is the
least of 53 bits and the exponent can still fall. -/
def isNarrowBelow (x : Binary) : Bool := x.mantissa = Nat.pow 2 52 && minExponent < x.exponent

/-- `num / den` rounds to `x`: it lies within half a unit, ends included when the mantissa is
even. -/
def admits (x : Binary) (num den : Nat) : Bool :=
  let below := if x.isNarrowBelow then 4 * x.mantissa - 1 else 4 * x.mantissa - 2
  let above := 4 * x.mantissa + 2
  let (n, d) := inUnits num den (x.exponent - 2)
  if x.mantissa % 2 = 0 then below * d ≤ n && n ≤ above * d else below * d < n && n < above * d

/-- The best numeral with `count` digits, if one reads back. -/
def withDigits (x : Binary) (place : Int) (count : Nat) : Option Numeral :=
  let scale := (count : Int) - place
  let up := Nat.pow 10 scale.toNat
  let down := Nat.pow 10 (-scale).toNat
  let num := x.numerator * up
  let den := x.denominator * down
  let low := num / den
  let lowFits := 0 < low && x.admits (low * down) up
  let highFits := x.admits ((low + 1) * down) up
  let digits? : Option Nat :=
    if lowFits && highFits then
      if 2 * (num % den) < den || (2 * (num % den) = den && low % 2 = 0) then some low
      else some (low + 1)
    else if lowFits then some low
    else if highFits then some (low + 1)
    else none
  -- Rounding up to a power of ten moves the point by one place.
  digits?.map fun digits => ⟨digits, if digits = Nat.pow 10 count then place + 1 else place⟩

/-- The numeral of fewest digits that reads back. -/
def shortest (x : Binary) : Numeral :=
  let place := x.place
  ((List.range' 1 17).findSome? (x.withDigits place)).getD ⟨x.mantissa, place⟩

/-- The digits of a numeral without trailing zeros. -/
def trimmed (digits : Nat) : Text :=
  ((Nat.toDigits 10 digits).reverse.dropWhile (· = '0')).reverse

/-- Write digits with the point behind the first `point` of them, or with an exponent. -/
def layOut (digits : Text) (point : Int) : Text :=
  if 0 < point ∧ point ≤ 16 then
    let whole := point.toNat
    if digits.length ≤ whole then
      digits ++ List.replicate (whole - digits.length) '0' ++ ".0".toList
    else digits.take whole ++ '.' :: digits.drop whole
  else if -5 < point ∧ point ≤ 0 then
    "0.".toList ++ List.replicate (-point).toNat '0' ++ digits
  else
    let fraction := match digits.tail with
      | [] => []
      | rest => '.' :: rest
    let sign := if 0 < point then "e+".toList else "e-".toList
    digits.take 1 ++ fraction ++ sign ++ Text.ofNat (point - 1).natAbs

/-- The text of a magnitude. -/
def text (x : Binary) : Text :=
  if x.mantissa = 0 then "0.0".toList
  else layOut (trimmed x.shortest.digits) x.shortest.point

end Binary

end Formulary.Decimal
