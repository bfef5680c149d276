/-!
# Binary floating-point magnitudes

A magnitude is `mantissa * 2 ^ exponent` with at most 53 bits of mantissa and an exponent of at
least `-1074`. All arithmetic is exact on natural numbers and then rounded once, to the nearest
magnitude and to an even mantissa when two are equally near:

* `Binary.ofRatio` rounds a quotient;
* `Binary.mul` and `Binary.div` are rounded products and quotients;
* `Binary.isFinite` tells the magnitudes below `2 ^ 1024`.
-/

namespace Formulary.Decimal

/-- The magnitude `mantissa * 2 ^ exponent`. -/
structure Binary where
  mantissa : Nat
  exponent : Int
  deriving DecidableEq, Repr, Inhabited

namespace Binary

/-- The numerator of a magnitude over `denominator`. -/
def numerator (x : Binary) : Nat := x.mantissa * Nat.pow 2 x.exponent.toNat

/-- The denominator of a magnitude, a power of two. -/
def denominator (x : Binary) : Nat := Nat.pow 2 (-x.exponent).toNat

/-- The least exponent. -/
def minExponent : Int := -1074

/-- `num / den` in units of `2 ^ exponent`, as a fraction. -/
def inUnits (num den : Nat) (exponent : Int) : Nat × Nat :=
  (num * Nat.pow 2 (-exponent).toNat, den * Nat.pow 2 exponent.toNat)

/-- The nearest whole number to a quotient; a half goes to the even neighbour. -/
def roundDiv (num den : Nat) : Nat :=
  let quotient := num / den
  let twice := 2 * (num % den)
  if twice < den then quotient
  else if den < twice then quotient + 1
  else if quotient % 2 = 0 then quotient else quotient + 1

/-- The exponent for a quotient: its whole part in units of `2 ^ exponent` has 53 bits, unless
that exponent is too small. -/
def exponentOf (num den : Nat) : Int :=
  let guess : Int := (num.log2 : Int) - (den.log2 : Int) - 52
  let (n, d) := inUnits num den guess
  max minExponent (if n / d < Nat.pow 2 52 then guess - 1 else guess)

/-- The magnitude nearest to a quotient. -/
def ofRatio (num den : Nat) : Binary :=
  if num = 0 then ⟨0, minExponent⟩
  else
    let exponent := exponentOf num den
    let (n, d) := inUnits num den exponent
    let mantissa := roundDiv n d
    if mantissa = Nat.pow 2 53 then ⟨Nat.pow 2 52, exponent + 1⟩ else ⟨mantissa, exponent⟩

/-- The magnitude nearest to a whole number. -/
def ofNat (n : Nat) : Binary := ofRatio n 1

/-- The magnitude nearest to a product. -/
def mul (x y : Binary) : Binary :=
  ofRatio (x.numerator * y.numerator) (x.denominator * y.denominator)

/-- The magnitude nearest to a quotient by a magnitude that is not zero. -/
def div (x y : Binary) : Binary :=
  ofRatio (x.numerator * y.denominator) (x.denominator * y.numerator)

/-- The magnitude is below `2 ^ 1024`. -/
def isFinite (x : Binary) : Bool := x.numerator < Nat.pow 2 1024 * x.denominator

/-- Scale by a power of ten in the range of magnitudes. -/
def timesPowerOfTen (x : Binary) (power : Nat) : Binary := x.mul (ofNat (Nat.pow 10 power))

/-- Divide by a power of ten in the range of magnitudes. -/
def overPowerOfTen (x : Binary) (power : Nat) : Binary := x.div (ofNat (Nat.pow 10 power))

end Binary

/-- The greatest power of ten that is a magnitude. -/
def maxPower : Nat := 308

/-- The magnitude of a decimal numeral `significand * 10 ^ exponent`, or none when it is out of
range. The significand is rounded first, then scaled by a rounded power of ten; a very small
numeral is scaled down in two steps, and a smaller one is zero. -/
def Binary.ofDecimal (significand : Nat) (exponent : Int) : Option Binary :=
  let x := Binary.ofNat significand
  if significand = 0 then some x
  else if 0 ≤ exponent then
    if exponent.toNat ≤ maxPower then
      let scaled := x.timesPowerOfTen exponent.toNat
      if scaled.isFinite then some scaled else none
    else none
  else
    let power := (-exponent).toNat
    if power ≤ maxPower then some (x.overPowerOfTen power)
    else
      let small := x.overPowerOfTen maxPower
      if power ≤ 2 * maxPower then some (small.overPowerOfTen (power - maxPower))
      else some ⟨0, Binary.minExponent⟩

end Formulary.Decimal
