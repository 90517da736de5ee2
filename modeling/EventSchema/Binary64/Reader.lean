import EventSchema.Binary64
import EventSchema.Text

/-!
# Reading decimals

A decimal has digits with an optional point among them, at least one digit in all, and an optional
exponent. The words for what is not finite are read in any case.
-/

set_option autoImplicit false

namespace EventSchema.Binary64

/-- What a text denotes. -/
inductive Reading where
  | finite (value : Binary64)
  | notFinite

/-- The exponent after the digits: nothing, or `e` with an optional sign and digits. -/
def exponent? (text : List Char) : Option Int :=
  match text with
  | [] => some 0
  | mark :: rest =>
    if mark ≠ 'e' ∧ mark ≠ 'E' then none
    else match rest with
      | '+' :: digits => (Text.digits? digits).map Int.ofNat
      | '-' :: digits => (Text.digits? digits).map fun n ↦ -(n : Int)
      | digits => (Text.digits? digits).map Int.ofNat

def unsigned? (negative : Bool) (text : List Char) : Option Reading :=
  let lower := text.map Text.lowerAscii
  if ["inf", "infinity", "nan"].any fun word ↦ lower = word.toList then some .notFinite
  else
    let whole := text.takeWhile Text.isAsciiDigit
    let rest := text.dropWhile Text.isAsciiDigit
    let (fraction, rest) := match rest with
      | '.' :: rest => (rest.takeWhile Text.isAsciiDigit, rest.dropWhile Text.isAsciiDigit)
      | rest => ([], rest)
    match Text.digits? (whole ++ fraction), exponent? rest with
    | some significand, some exponent =>
      match ofDecimal negative significand (exponent - fraction.length) with
      | some value => some (.finite value)
      | none => some .notFinite
    | _, _ => none

def read? (text : List Char) : Option Reading :=
  match text with
  | '+' :: rest => unsigned? false rest
  | '-' :: rest => unsigned? true rest
  | rest => unsigned? false rest

end EventSchema.Binary64
