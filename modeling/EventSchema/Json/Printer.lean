import EventSchema.Json
import EventSchema.Binary64.Shortest

/-!
# JSON text

`Json.compact` writes no blanks, `Json.pretty` one entry per line, indented by two spaces.
-/

set_option autoImplicit false

namespace EventSchema

def decimalDigits (n : Nat) : List Char := Nat.toDigits 10 n

def intText (n : Int) : List Char :=
  if n < 0 then '-' :: decimalDigits n.natAbs else decimalDigits n.natAbs

namespace Decimal

/-- Positional from `10 ^ -5` up to below `10 ^ 16`, with a digit after the point; else with an
exponent that carries its sign. -/
def text (d : Decimal) : List Char :=
  let digits := decimalDigits d.digits
  let leading := d.power + (digits.length - 1 : Int)
  if leading < -5 ∨ 16 ≤ leading then
    let fraction := digits.drop 1
    digits.take 1 ++ (if fraction.isEmpty then [] else '.' :: fraction) ++
      ['e', if leading < 0 then '-' else '+'] ++ decimalDigits leading.natAbs
  else if 0 ≤ d.power then digits ++ List.replicate d.power.toNat '0' ++ ['.', '0']
  else if 0 ≤ leading then
    digits.take (leading.toNat + 1) ++ '.' :: digits.drop (leading.toNat + 1)
  else '0' :: '.' :: List.replicate (leading.natAbs - 1) '0' ++ digits

/-- Always positional, with a point only where there is a fraction. -/
def plainText (d : Decimal) : List Char :=
  let digits := decimalDigits d.digits
  if 0 ≤ d.power then digits ++ List.replicate d.power.toNat '0'
  else if d.power.natAbs < digits.length then
    digits.take (digits.length - d.power.natAbs) ++
      '.' :: digits.drop (digits.length - d.power.natAbs)
  else '0' :: '.' :: List.replicate (d.power.natAbs - digits.length) '0' ++ digits

end Decimal

namespace Number

def text : Number → List Char
  | .integer value => intText value
  | .float value =>
    let magnitude := if value.isZero then ['0', '.', '0'] else value.shortest.text
    if value.negative then '-' :: magnitude else magnitude

/-- The nearest binary64 number, without an exponent. -/
def plainText (n : Number) : List Char :=
  match n.toBinary64? with
  | some value =>
    let magnitude := if value.isZero then ['0'] else value.shortest.plainText
    if value.negative then '-' :: magnitude else magnitude
  | none => n.text

end Number

namespace Json

def hexDigit (n : Nat) : Char := if n < 10 then Char.ofNat (48 + n) else Char.ofNat (87 + n)

/-- Only the quote, the backslash and control characters are escaped. -/
def escapeChar (c : Char) : List Char :=
  if c = '"' then ['\\', '"']
  else if c = '\\' then ['\\', '\\']
  else if c = '\n' then ['\\', 'n']
  else if c = '\t' then ['\\', 't']
  else if c = '\r' then ['\\', 'r']
  else if c = Char.ofNat 8 then ['\\', 'b']
  else if c = Char.ofNat 12 then ['\\', 'f']
  else if c.toNat < 32 then ['\\', 'u', '0', '0', hexDigit (c.toNat / 16), hexDigit (c.toNat % 16)]
  else [c]

def quote (text : String) : List Char := '"' :: text.toList.flatMap escapeChar ++ ['"']

def scalarText : Json → List Char
  | .null => ['n', 'u', 'l', 'l']
  | .bool true => ['t', 'r', 'u', 'e']
  | .bool false => ['f', 'a', 'l', 's', 'e']
  | .number n => n.text
  | .string text => quote text
  | .array _ => ['[', ']']
  | .object _ => ['{', '}']

mutual

def compactChars : Json → List Char
  | .array items => '[' :: compactItems true items ++ [']']
  | .object members => '{' :: compactMembers true members ++ ['}']
  | value => value.scalarText

def compactItems (first : Bool) : List Json → List Char
  | [] => []
  | item :: rest => (if first then [] else [',']) ++ item.compactChars ++ compactItems false rest

def compactMembers (first : Bool) : List (String × Json) → List Char
  | [] => []
  | (key, value) :: rest =>
    (if first then [] else [',']) ++ quote key ++ ':' :: value.compactChars ++
      compactMembers false rest

end

def compact (value : Json) : String := String.ofList value.compactChars

def newline (level : Nat) : List Char := '\n' :: List.replicate (2 * level) ' '

mutual

/-- Inner lines are indented by `level + 1` steps; an empty array or object takes no lines. -/
def prettyChars (level : Nat) : Json → List Char
  | .array (item :: rest) =>
    '[' :: prettyItems (level + 1) true (item :: rest) ++ newline level ++ [']']
  | .object (entry :: rest) =>
    '{' :: prettyMembers (level + 1) true (entry :: rest) ++ newline level ++ ['}']
  | value => value.scalarText

def prettyItems (level : Nat) (first : Bool) : List Json → List Char
  | [] => []
  | item :: rest =>
    (if first then [] else [',']) ++ newline level ++ item.prettyChars level ++
      prettyItems level false rest

def prettyMembers (level : Nat) (first : Bool) : List (String × Json) → List Char
  | [] => []
  | (key, value) :: rest =>
    (if first then [] else [',']) ++ newline level ++ quote key ++
      ':' :: ' ' :: value.prettyChars level ++ prettyMembers level false rest

end

def pretty (value : Json) : String := String.ofList (value.prettyChars 0)

end Json

end EventSchema
