import EventSchema.Binary64

/-!
# Shortest decimals

The decimal with the fewest digits among those that round to a given number, the nearest of
them when there are several. The reals that round to `m · 2 ^ e` form an interval whose ends
belong to it exactly when `m` is even; each grid of decimals with `n` digits is tested at the two
neighbours of the number on it.
-/

set_option autoImplicit false

namespace EventSchema

/-- The decimal `digits · 10 ^ power`. -/
structure Decimal where
  digits : Nat
  power : Int
deriving DecidableEq, Repr

namespace Decimal

/-- The factors `(a, b)` with `10 ^ power = a / b`. -/
def powerRatio (power : Int) : Nat × Nat :=
  if power < 0 then (1, Nat.pow 10 power.natAbs) else (Nat.pow 10 power.natAbs, 1)

/-- Drops at most `limit` trailing zeros from the digits. -/
def dropZeros : Nat → Decimal → Decimal
  | 0, d => d
  | limit + 1, d =>
    if d.digits ≠ 0 ∧ d.digits % 10 = 0 then dropZeros limit ⟨d.digits / 10, d.power + 1⟩ else d

end Decimal

namespace Binary64

open Decimal

/-- The ends of the interval of reals that round to `x`, in quarters of a unit. -/
def roundingInterval (x : Binary64) : Nat × Nat :=
  let gap := Nat.pow 2 x.exponent
  let below := if x.mantissa = Nat.pow 2 52 ∧ x.exponent ≠ 0 then gap else 2 * gap
  (4 * x.magnitude - below, 4 * x.magnitude + 2 * gap)

/-- Whether the decimal rounds to `x`, up to the sign. -/
def roundsTo (x : Binary64) (d : Decimal) : Bool :=
  let (a, b) := powerRatio d.power
  let value := 4 * d.digits * unitsPerOne * a
  let (low, high) := x.roundingInterval
  if x.mantissa % 2 = 0 then low * b ≤ value && value ≤ high * b
  else low * b < value && value < high * b

/-- The power of ten of the leading digit of a positive number. -/
def leadingPower (x : Binary64) : Int :=
  let guess := ((Nat.log2 x.magnitude : Int) - 1074) * 30103 / 100000
  let (a, b) := powerRatio (guess + 1)
  if x.magnitude * b < unitsPerOne * a then guess else guess + 1

/-- The decimals of the grid `10 ^ power` next to `x` that round to it, the nearer first. -/
def neighbours (x : Binary64) (power : Int) : List Decimal :=
  let (a, b) := powerRatio power
  let below := x.magnitude * b / (unitsPerOne * a)
  let twice := 2 * x.magnitude * b
  let middle := (2 * below + 1) * (unitsPerOne * a)
  let belowFirst := twice < middle || (twice == middle && below % 2 == 0)
  let candidates := if belowFirst then [below, below + 1] else [below + 1, below]
  (candidates.map fun digits ↦ ⟨digits, power⟩).filter x.roundsTo

/-- Searches the grids with `count + 1` digits fewer than `limit` first. -/
def shortestFrom (x : Binary64) (leading : Int) : Nat → Decimal
  | 0 => ((x.neighbours (leading - 16)).head?).getD ⟨0, 0⟩
  | more + 1 =>
    match x.neighbours (leading - (16 - (more + 1 : Nat))) with
    | d :: _ => d
    | [] => shortestFrom x leading more

/-- The shortest decimal that rounds to the absolute value of `x`, without trailing zeros. -/
def shortest (x : Binary64) : Decimal :=
  if x.isZero then ⟨0, 0⟩ else dropZeros 17 (x.shortestFrom x.leadingPower 16)

end Binary64

end EventSchema
