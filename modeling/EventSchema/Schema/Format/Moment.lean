import EventSchema.Text

/-!
# Dates and times

Dates of the Gregorian calendar, times of the day with an offset, and both joined by a `T`.
-/

set_option autoImplicit false

namespace EventSchema.Format

def isLeapYear (year : Nat) : Bool := year % 4 == 0 && (year % 100 != 0 || year % 400 == 0)

def daysInMonth (year month : Nat) : Nat :=
  if month = 2 then if isLeapYear year then 29 else 28
  else if [4, 6, 9, 11].contains month then 30
  else 31

/-- The value of exactly `count` digits, and what follows them. -/
def fixedDigits? (count : Nat) (text : List Char) : Option (Nat × List Char) :=
  let digits := text.take count
  if digits.length = count then (Text.digits? digits).map (·, text.drop count) else none

def expect? (mark : Char → Bool) : List Char → Option (List Char)
  | c :: rest => if mark c then some rest else none
  | [] => none

structure Date where
  year : Nat
  month : Nat
  day : Nat
deriving DecidableEq, Repr

def Date.isValid (date : Date) : Bool :=
  1 ≤ date.month && date.month ≤ 12 && 1 ≤ date.day &&
    date.day ≤ daysInMonth date.year date.month

def date? (text : List Char) : Option (Date × List Char) := do
  let (year, rest) ← fixedDigits? 4 text
  let rest ← expect? (· = '-') rest
  let (month, rest) ← fixedDigits? 2 rest
  let rest ← expect? (· = '-') rest
  let (day, rest) ← fixedDigits? 2 rest
  let date : Date := ⟨year, month, day⟩
  if date.isValid then some (date, rest) else none

def isDate (text : List Char) : Bool :=
  match date? text with
  | some (_, rest) => rest.isEmpty
  | none => false

/-- The seconds of a clock reading since midnight, where a minute may have a leap second. -/
def clock? (text : List Char) : Option (Nat × Nat × Nat × List Char) := do
  let (hour, rest) ← fixedDigits? 2 text
  let rest ← expect? (· = ':') rest
  let (minute, rest) ← fixedDigits? 2 rest
  let rest ← expect? (· = ':') rest
  let (second, rest) ← fixedDigits? 2 rest
  if hour < 24 ∧ minute < 60 then some (hour, minute, second, rest) else none

/-- An offset from universal time in minutes. -/
def offset? (sign : Char → Bool) (text : List Char) : Option (Int × List Char) :=
  match text with
  | 'Z' :: rest | 'z' :: rest => some (0, rest)
  | c :: rest => do
    if !sign c then none
    let (hour, rest) ← fixedDigits? 2 rest
    let rest ← expect? (· = ':') rest
    let (minute, rest) ← fixedDigits? 2 rest
    let total : Int := hour * 60 + minute
    if hour < 24 ∧ minute < 60 then some (if c = '-' then -total else total, rest) else none
  | [] => none

/-- A time of the day with an offset; a fraction has six digits. -/
def isTime (text : List Char) : Bool :=
  match clock? text with
  | some (_, _, second, rest) =>
    let rest := match rest with
      | '.' :: fraction => (fixedDigits? 6 fraction).map Prod.snd
      | rest => some rest
    second < 60 && match rest.bind (offset? fun c ↦ c = '+' || c = '-' || c = '|') with
      | some (_, rest) => rest.isEmpty
      | none => false
  | none => false

/-- Whether a leap second may be inserted: at the end of the last day of a month, in universal
time. -/
def allowsLeapSecond (date : Date) (hour minute : Nat) (offset : Int) : Bool :=
  let minutes : Int := hour * 60 + minute - offset
  let day : Int := date.day + minutes / 1440
  minutes % 1440 == 1439 &&
    (day == daysInMonth date.year date.month || day == 0)

def isDateTime (text : List Char) : Bool :=
  let moment : Option Unit := do
    let (date, rest) ← date? text
    let rest ← expect? (fun c ↦ c = 'T' || c = 't') rest
    let (hour, minute, second, rest) ← clock? rest
    let rest ← match rest with
      | '.' :: fraction =>
        if (fraction.takeWhile Text.isAsciiDigit).isEmpty then none
        else some (fraction.dropWhile Text.isAsciiDigit)
      | rest => some rest
    let (offset, rest) ← offset? (fun c ↦ c = '+' || c = '-') rest
    if !rest.isEmpty || 60 < second then none
    if second = 60 && !allowsLeapSecond date hour minute offset then none
    some ()
  moment.isSome

end EventSchema.Format
