import EventSchema.Json

/-!
# Reading JSON text

The reader works on the characters still to be read, so a failure knows its place as the number of
bytes left. A number is first read as a significand below `2 ^ 64` and a power of ten; the two are
combined in binary64 arithmetic, further digits being dropped.
-/

set_option autoImplicit false

namespace EventSchema.Json

inductive Problem where
  | eofValue
  | eofList
  | eofObject
  | eofString
  | expectedValue
  | expectedWord
  | expectedColon
  | expectedListSeparator
  | expectedObjectSeparator
  | keyNotString
  | trailingComma
  | trailingCharacters
  | invalidNumber
  | numberOutOfRange
  | controlCharacter
  | invalidEscape
  | incompleteSurrogate
  | loneSurrogate
  | tooDeep
deriving DecidableEq, Repr

def Problem.message : Problem → String
  | .eofValue => "EOF while parsing a value"
  | .eofList => "EOF while parsing a list"
  | .eofObject => "EOF while parsing an object"
  | .eofString => "EOF while parsing a string"
  | .expectedValue => "expected value"
  | .expectedWord => "expected ident"
  | .expectedColon => "expected `:`"
  | .expectedListSeparator => "expected `,` or `]`"
  | .expectedObjectSeparator => "expected `,` or `\x7d`"
  | .keyNotString => "key must be a string"
  | .trailingComma => "trailing comma"
  | .trailingCharacters => "trailing characters"
  | .invalidNumber => "invalid number"
  | .numberOutOfRange => "number out of range"
  | .controlCharacter => "control character (\\u0000-\\u001F) found while parsing a string"
  | .invalidEscape => "invalid escape"
  | .incompleteSurrogate => "unexpected end of hex escape"
  | .loneSurrogate => "lone leading surrogate in hex escape"
  | .tooDeep => "recursion limit exceeded"

/-- Why reading stopped, and how many bytes were left. -/
structure Failure where
  problem : Problem
  bytesLeft : Nat
deriving DecidableEq, Repr

def byteCount (text : List Char) : Nat := text.foldl (fun count c ↦ count + c.utf8Size) 0

/-- A failure in front of the text. -/
def Failure.before (problem : Problem) (text : List Char) : Failure := ⟨problem, byteCount text⟩

/-- A failure at the first byte of the text, or at its end when it is empty. -/
def Failure.at (problem : Problem) (text : List Char) : Failure := ⟨problem, byteCount text - 1⟩

/-- What is left of a text after reading some of it. -/
abbrev Rest (text : List Char) := { rest : List Char // rest.length < text.length }

def isBlank (c : Char) : Bool := c = ' ' || c = '\t' || c = '\n' || c = '\r'

def skipBlanks (text : List Char) : List Char := text.dropWhile isBlank

theorem length_skipBlanks_le (text : List Char) : (skipBlanks text).length ≤ text.length :=
  (List.dropWhile_sublist _).length_le

theorem length_lt_of_skipBlanks {text rest : List Char} {c : Char}
    (h : skipBlanks text = c :: rest) : rest.length < text.length := by
  have := length_skipBlanks_le text
  rw [h, List.length_cons] at this
  omega

/-- The first character that is not blank, and what follows it. -/
def next? (text : List Char) : Option (Char × Rest text) :=
  match h : skipBlanks text with
  | [] => none
  | c :: rest => some (c, ⟨rest, length_lt_of_skipBlanks h⟩)

/-! ### Numbers -/

def isDigit (c : Char) : Bool := '0' ≤ c && c ≤ '9'

def digitValue (c : Char) : Nat := c.toNat - 48

def largestSignificand : Nat := Nat.pow 2 64 - 1

/-- Appends digits to a number as long as it stays within the limit, and returns the other
digits. -/
def appendDigits (limit : Nat) : Nat → List Char → Nat × List Char
  | value, [] => (value, [])
  | value, c :: rest =>
    let next := value * 10 + digitValue c
    if next ≤ limit then appendDigits limit next rest else (value, c :: rest)

/-- `significand · 10 ^ exponent`: each factor is rounded, then their product or quotient. -/
def combine (negative : Bool) (significand : Nat) (exponent : Int) : Option Binary64 := do
  let value ← Binary64.ofRatio negative significand 1
  let power (n : Nat) := Binary64.ofRatio false (Nat.pow 10 n) 1
  if value.isZero then return value
  else if exponent < -616 then return Binary64.zero negative
  else if exponent < -308 then (← value.div (← power 308)).div (← power (-exponent - 308).toNat)
  else if exponent < 0 then value.div (← power exponent.natAbs)
  else if exponent ≤ 308 then value.mul (← power exponent.natAbs)
  else none

def finish (negative : Bool) (significand : Nat) (exponent : Int) (rest : List Char) :
    Except Failure (Number × List Char) :=
  match combine negative significand exponent with
  | some value => .ok (.float value, rest)
  | none => .error (.before .numberOutOfRange rest)

def largestExponent : Nat := Nat.pow 2 31 - 1

/-- Reads the exponent that follows `e`. -/
def readExponent (negative : Bool) (significand : Nat) (exponent : Int) (text : List Char) :
    Except Failure (Number × List Char) :=
  let (positive, text) :=
    match text with
    | '+' :: rest => (true, rest)
    | '-' :: rest => (false, rest)
    | _ => (true, text)
  let digits := text.takeWhile isDigit
  let rest := text.dropWhile isDigit
  if digits.isEmpty then
    .error (.at (if rest.isEmpty then .eofValue else .invalidNumber) rest)
  else
    match appendDigits largestExponent 0 digits with
    | (value, []) => finish negative significand (if positive then exponent + value
        else exponent - value) rest
    | (_, _ :: unread) =>
      if significand ≠ 0 ∧ positive then .error (.before .numberOutOfRange (unread ++ rest))
      else .ok (.float (.zero negative), rest)

/-- Reads an exponent if there is one. -/
def optionalExponent (negative : Bool) (significand : Nat) (exponent : Int) :
    List Char → Except Failure (Number × List Char)
  | 'e' :: rest => readExponent negative significand exponent rest
  | 'E' :: rest => readExponent negative significand exponent rest
  | rest => finish negative significand exponent rest

/-- Reads the fraction that follows the point. -/
def readFraction (negative : Bool) (significand : Nat) (exponent : Int) (text : List Char) :
    Except Failure (Number × List Char) :=
  let digits := text.takeWhile isDigit
  let rest := text.dropWhile isDigit
  if digits.isEmpty then
    .error (.at (if rest.isEmpty then .eofValue else .invalidNumber) rest)
  else
    let (value, unread) := appendDigits largestSignificand significand digits
    optionalExponent negative value (exponent - (digits.length - unread.length : Nat)) rest

/-- The integer, or a float when it is minus zero or does not fit. -/
def wholeNumber (negative : Bool) (value : Nat) : Number :=
  if !negative then .integer value
  else if value = 0 then .float (.zero true)
  else if value ≤ Nat.pow 2 63 then .integer (-value)
  else match Binary64.ofRatio true value 1 with
    | some float => .float float
    | none => .integer (-value)

/-- Reads a number after its sign. -/
def readNumber (negative : Bool) (text : List Char) : Except Failure (Number × List Char) :=
  let digits := text.takeWhile isDigit
  let rest := text.dropWhile isDigit
  match digits with
  | [] => .error (.at (if rest.isEmpty then .eofValue else .invalidNumber) rest)
  | '0' :: c :: more => .error (.at .invalidNumber (c :: more ++ rest))
  | digits =>
    let (value, unread) := appendDigits largestSignificand 0 digits
    let exponent : Int := unread.length
    match rest with
    | '.' :: rest => readFraction negative value exponent rest
    | 'e' :: rest => readExponent negative value exponent rest
    | 'E' :: rest => readExponent negative value exponent rest
    | rest =>
      if unread.isEmpty then .ok (wholeNumber negative value, rest)
      else finish negative value exponent rest

/-! ### Strings -/

def hexValue? (c : Char) : Option Nat :=
  if '0' ≤ c ∧ c ≤ '9' then some (c.toNat - 48)
  else if 'a' ≤ c ∧ c ≤ 'f' then some (c.toNat - 87)
  else if 'A' ≤ c ∧ c ≤ 'F' then some (c.toNat - 55)
  else none

/-- The value of the four hexadecimal digits that follow `\u`. -/
def readHexQuad (text : List Char) : Except Failure (Nat × Rest text) :=
  let wrong : Failure :=
    if byteCount text < 4 then ⟨.eofString, 0⟩ else ⟨.invalidEscape, byteCount text - 4⟩
  match text with
  | a :: b :: c :: d :: rest =>
    match hexValue? a, hexValue? b, hexValue? c, hexValue? d with
    | some a, some b, some c, some d =>
      .ok (((a * 16 + b) * 16 + c) * 16 + d, ⟨rest, by simp; omega⟩)
    | _, _, _, _ => .error wrong
  | _ => .error wrong

/-- The second half of a surrogate pair, from the backslash on. -/
def readLowSurrogate (high : Nat) (text : List Char) : Except Failure (Char × Rest text) :=
  match text with
  | [] => .error (.before .eofString [])
  | '\\' :: [] => .error (.before .eofString [])
  | '\\' :: 'u' :: rest => do
    let (low, ⟨rest, h⟩) ← readHexQuad rest
    if 0xDC00 ≤ low ∧ low ≤ 0xDFFF then
      return (Char.ofNat (0x10000 + (high - 0xD800) * 0x400 + (low - 0xDC00)),
        ⟨rest, by simp; omega⟩)
    else throw (.before .loneSurrogate rest)
  | '\\' :: rest => .error (.at .incompleteSurrogate rest)
  | _ => .error (.at .incompleteSurrogate text)

/-- The character that an escape stands for, after the backslash. -/
def readEscape (text : List Char) : Except Failure (Char × Rest text) :=
  match text with
  | [] => .error (.before .eofString [])
  | c :: rest =>
    let single (value : Char) : Except Failure (Char × Rest (c :: rest)) :=
      .ok (value, ⟨rest, by simp⟩)
    match c with
    | '"' => single '"'
    | '\\' => single '\\'
    | '/' => single '/'
    | 'b' => single (Char.ofNat 8)
    | 'f' => single (Char.ofNat 12)
    | 'n' => single '\n'
    | 'r' => single '\r'
    | 't' => single '\t'
    | 'u' => do
      let (unit, ⟨after, h⟩) ← readHexQuad rest
      if 0xDC00 ≤ unit ∧ unit ≤ 0xDFFF then throw (.before .loneSurrogate after)
      else if 0xD800 ≤ unit ∧ unit ≤ 0xDBFF then do
        let (value, ⟨after, h'⟩) ← readLowSurrogate unit after
        return (value, ⟨after, by simp; omega⟩)
      else return (Char.ofNat unit, ⟨after, by simp; omega⟩)
    | _ => .error (.at .invalidEscape (c :: rest))

/-- Reads a string after its opening quote; the characters read so far are in reverse. -/
def readString (read : List Char) (text : List Char) : Except Failure (String × Rest text) :=
  match text with
  | [] => .error (.before .eofString [])
  | c :: rest =>
    if c = '"' then .ok (String.ofList read.reverse, ⟨rest, by simp⟩)
    else if c = '\\' then do
      let (value, ⟨after, h⟩) ← readEscape rest
      let (result, ⟨final, h'⟩) ← readString (value :: read) after
      return (result, ⟨final, by simp; omega⟩)
    else if c.toNat < 32 then .error (.before .controlCharacter rest)
    else do
      let (result, ⟨final, h⟩) ← readString (c :: read) rest
      return (result, ⟨final, by simp; omega⟩)
termination_by text.length

/-! ### Values -/

/-- Reads the rest of a word whose first letter has been read. -/
def readWord (value : Json) : List Char → List Char → Except Failure (Json × List Char)
  | [], rest => .ok (value, rest)
  | _ :: _, [] => .error (.before .eofValue [])
  | expected :: more, c :: rest =>
    if c = expected then readWord value more rest else .error (.at .expectedWord (c :: rest))

/-- Accepts what is left only if something was read. -/
def advance {text : List Char} {α : Type} (result : α × List Char) :
    Except Failure (α × Rest text) :=
  if h : result.2.length < text.length then .ok (result.1, ⟨result.2, h⟩)
  else .error (.at .expectedValue text)

/-- Reads the key of a member, and the colon after it. -/
def readKey (text : List Char) : Except Failure (String × Rest text) :=
  match next? text with
  | none => .error (.before .eofValue [])
  | some ('"', ⟨rest, _⟩) => do
    let (key, ⟨after, _⟩) ← readString [] rest
    match next? after with
    | none => throw (.before .eofObject [])
    | some (':', ⟨rest, _⟩) => return (key, ⟨rest, by omega⟩)
    | some (c, ⟨rest, _⟩) => throw (.at .expectedColon (c :: rest))
  | some (c, ⟨rest, _⟩) => .error (.at .keyNotString (c :: rest))

mutual

/-- Reads a value inside at most `depth` further arrays and objects. -/
def readValue (depth : Nat) (text : List Char) : Except Failure (Json × Rest text) :=
  match next? text with
  | none => .error (.before .eofValue [])
  | some (c, ⟨rest, _⟩) =>
    match c with
    | 'n' => do advance (← readWord .null ['u', 'l', 'l'] rest)
    | 't' => do advance (← readWord (.bool true) ['r', 'u', 'e'] rest)
    | 'f' => do advance (← readWord (.bool false) ['a', 'l', 's', 'e'] rest)
    | '-' => do
      let (n, rest) ← readNumber true rest
      advance (.number n, rest)
    | '"' => do
      let (content, ⟨after, h⟩) ← readString [] rest
      return (.string content, ⟨after, by omega⟩)
    | '[' =>
      match depth with
      | 0 => .error (.at .tooDeep (c :: rest))
      | depth + 1 => do
        let (items, ⟨after, h⟩) ← readArray depth rest
        return (.array items, ⟨after, by omega⟩)
    | '{' =>
      match depth with
      | 0 => .error (.at .tooDeep (c :: rest))
      | depth + 1 => do
        let (members, ⟨after, h⟩) ← readObject depth rest
        return (.object members, ⟨after, by omega⟩)
    | c =>
      if isDigit c then do
        let (n, rest) ← readNumber false (c :: rest)
        advance (.number n, rest)
      else .error (.at .expectedValue (c :: rest))
termination_by (text.length, 0)

/-- Reads an array after its bracket. -/
def readArray (depth : Nat) (text : List Char) : Except Failure (List Json × Rest text) :=
  match next? text with
  | none => .error (.before .eofList [])
  | some (']', rest) => .ok ([], rest)
  | some _ => readItems depth [] text
termination_by (text.length, 2)

/-- Reads an item and those that follow it; the ones before it are in reverse. -/
def readItems (depth : Nat) (before : List Json) (text : List Char) :
    Except Failure (List Json × Rest text) := do
  let (item, ⟨after, _⟩) ← readValue depth text
  match next? after with
  | none => throw (.before .eofList [])
  | some (']', ⟨rest, _⟩) => return ((item :: before).reverse, ⟨rest, by omega⟩)
  | some (',', ⟨rest, _⟩) =>
    match next? rest with
    | some (']', ⟨more, _⟩) => throw (.at .trailingComma (']' :: more))
    | _ =>
      let (result, ⟨final, _⟩) ← readItems depth (item :: before) rest
      return (result, ⟨final, by omega⟩)
  | some (c, ⟨rest, _⟩) => throw (.at .expectedListSeparator (c :: rest))
termination_by (text.length, 1)

/-- Reads an object after its brace. -/
def readObject (depth : Nat) (text : List Char) : Except Failure (Fields × Rest text) :=
  match next? text with
  | none => .error (.before .eofObject [])
  | some ('}', rest) => .ok ([], rest)
  | some _ => readMembers depth [] text
termination_by (text.length, 2)

/-- Reads a member and those that follow it. -/
def readMembers (depth : Nat) (before : Fields) (text : List Char) :
    Except Failure (Fields × Rest text) := do
  let (key, ⟨rest, _⟩) ← readKey text
  let (item, ⟨after, _⟩) ← readValue depth rest
  let read := before.insert key item
  match next? after with
  | none => throw (.before .eofObject [])
  | some ('}', ⟨rest, _⟩) => return (read, ⟨rest, by omega⟩)
  | some (',', ⟨rest, _⟩) =>
    match next? rest with
    | some ('}', ⟨more, _⟩) => throw (.at .trailingComma ('}' :: more))
    | _ =>
      let (result, ⟨final, _⟩) ← readMembers depth read rest
      return (result, ⟨final, by omega⟩)
  | some (c, ⟨rest, _⟩) => throw (.at .expectedObjectSeparator (c :: rest))
termination_by (text.length, 1)

end

/-- How many arrays and objects may be open at once. -/
def depthLimit : Nat := 127

/-- Reads a text that holds one value. -/
def parseChars (text : List Char) : Except Failure Json := do
  let (result, ⟨rest, _⟩) ← readValue depthLimit text
  match skipBlanks rest with
  | [] => return result
  | c :: rest => throw (.at .trailingCharacters (c :: rest))

/-- A failure with its place: lines count from one, columns are bytes of the line. -/
structure ParseError where
  problem : Problem
  line : Nat
  column : Nat
deriving DecidableEq, Repr

def ParseError.message (e : ParseError) : String :=
  s!"{e.problem.message} at line {e.line} column {e.column}"

/-- The line and the column of the text reached after so many bytes. -/
def locate : Nat → Nat → Nat → List Char → Nat × Nat
  | line, column, _, [] => (line, column)
  | line, column, bytes, c :: rest =>
    if bytes < c.utf8Size then (line, column + bytes)
    else if c = '\n' then locate (line + 1) 0 (bytes - 1) rest
    else locate line (column + c.utf8Size) (bytes - c.utf8Size) rest

def parse (text : String) : Except ParseError Json :=
  match parseChars text.toList with
  | .ok result => .ok result
  | .error failure =>
    let chars := text.toList
    let (line, column) := locate 1 0 (byteCount chars - failure.bytesLeft) chars
    .error ⟨failure.problem, line, column⟩

end EventSchema.Json
