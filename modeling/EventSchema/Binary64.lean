/-!
# Finite binary64 numbers

A finite binary64 number is `mantissa · 2 ^ exponent` units of `2 ^ -1074`, with a sign. Every
operation is exact arithmetic on natural numbers followed by one rounding to the nearest number,
a tie going to the even mantissa.
-/

set_option autoImplicit false

namespace EventSchema

/-- A finite binary64 number. Zero keeps its sign. -/
structure Binary64 where
  negative : Bool
  mantissa : Nat
  exponent : Nat
  mantissa_lt : mantissa < Nat.pow 2 53 := by decide
  exponent_le : exponent ≤ 2045 := by decide
  normalised : exponent = 0 ∨ Nat.pow 2 52 ≤ mantissa := by decide
deriving DecidableEq, Repr

namespace Binary64

/-- One, in units of the smallest positive number. -/
def unitsPerOne : Nat := Nat.pow 2 1074

def zero (negative : Bool) : Binary64 := ⟨negative, 0, 0, by decide, by decide, by decide⟩

instance : Inhabited Binary64 := ⟨zero false⟩

/-- The absolute value in units of `2 ^ -1074`. -/
def magnitude (x : Binary64) : Nat := x.mantissa * Nat.pow 2 x.exponent

/-- The value in units of `2 ^ -1074`. Both zeros have the value zero. -/
def units (x : Binary64) : Int := if x.negative then -(x.magnitude : Int) else x.magnitude

/-- The quotient to the nearest integer, a tie going to the even one. -/
def roundQuotient (numerator denominator : Nat) : Nat :=
  let quotient := numerator / denominator
  let twice := 2 * (numerator % denominator)
  if twice < denominator then quotient
  else if denominator < twice then quotient + 1
  else quotient + quotient % 2

/-- The number whose magnitude is `mantissa · 2 ^ exponent` units, for a mantissa of at most
`2 ^ 53` that fills 53 bits unless the exponent is zero. -/
def pack (negative : Bool) (mantissa exponent : Nat) : Option Binary64 :=
  if hSmall : mantissa < Nat.pow 2 53 then
    if h : exponent ≤ 2045 ∧ (exponent = 0 ∨ Nat.pow 2 52 ≤ mantissa) then
      some ⟨negative, mantissa, exponent, hSmall, h.1, h.2⟩
    else none
  else if h : exponent + 1 ≤ 2045 then
    some ⟨negative, Nat.pow 2 52, exponent + 1, by decide, h, Or.inr (Nat.le_refl _)⟩
  else none

/-- The nearest number to `numerator / denominator`, `none` when it is too large. -/
def ofRatio (negative : Bool) (numerator denominator : Nat) : Option Binary64 :=
  let scaled := numerator * unitsPerOne
  let exponent := Nat.log2 (scaled / denominator) - 52
  pack negative (roundQuotient scaled (denominator * Nat.pow 2 exponent)) exponent

def ofInt (value : Int) : Option Binary64 := ofRatio (value < 0) value.natAbs 1

/-- The nearest number to `significand · 10 ^ exponent`. -/
def ofDecimal (negative : Bool) (significand : Nat) (exponent : Int) : Option Binary64 :=
  if significand = 0 then some (zero negative)
  else if exponent < 0 then
    -- Below a tenth of the smallest number everything rounds to zero.
    if (Nat.log2 significand : Int) * 302 / 1000 + exponent < -330 then some (zero negative)
    else ofRatio negative significand (Nat.pow 10 exponent.natAbs)
  else if 310 < exponent then none
  else ofRatio negative (significand * Nat.pow 10 exponent.natAbs) 1

def mul (x y : Binary64) : Option Binary64 :=
  ofRatio (x.negative != y.negative) (x.magnitude * y.magnitude) (unitsPerOne * unitsPerOne)

/-- The nearest number to the quotient, `none` when it is too large or the divisor is zero. -/
def div (x y : Binary64) : Option Binary64 :=
  if y.magnitude = 0 then none
  else ofRatio (x.negative != y.negative) x.magnitude y.magnitude

def neg (x : Binary64) : Binary64 := { x with negative := !x.negative }

def isZero (x : Binary64) : Bool := x.mantissa == 0

def isInteger (x : Binary64) : Bool := x.magnitude % unitsPerOne == 0

end Binary64

end EventSchema
