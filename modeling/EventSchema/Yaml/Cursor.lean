import EventSchema.Text

/-!
# A place in a YAML text

What is left to read, with the place in characters, lines and columns. Reading past the end gives
the null character, which no YAML text holds. A lone carriage return breaks a line but counts as a
character of it.
-/

set_option autoImplicit false

namespace EventSchema.Yaml

/-- Where a text is not well formed; both counts start from zero. -/
structure Problem where
  line : Nat
  column : Nat
deriving DecidableEq, Repr, Inhabited

structure Cursor where
  rest : List Char
  index : Nat := 0
  line : Nat := 0
  column : Nat := 0
deriving Repr, Inhabited

def finish : Char := Char.ofNat 0

def isBreak (c : Char) : Bool := c = '\n' || c = '\r'

def isBlank (c : Char) : Bool := c = ' ' || c = '\t'

def isBreakOrEnd (c : Char) : Bool := isBreak c || c = finish

def isSpaceOrEnd (c : Char) : Bool := isBlank c || isBreakOrEnd c

def isWordChar (c : Char) : Bool :=
  Text.isAsciiDigit c || Text.isAsciiLetter c || c = '_' || c = '-'

def isFlowMark (c : Char) : Bool := c = ',' || c = '[' || c = ']' || c = '{' || c = '}'

namespace Cursor

def problem (c : Cursor) : Problem := ⟨c.line, c.column⟩

/-- The character some places ahead. -/
def peek (c : Cursor) (ahead : Nat) : Char := c.rest.getD ahead finish

def current (c : Cursor) : Char := c.peek 0

def atEnd (c : Cursor) : Bool := c.current = finish

/-- Passes one character. -/
def skip (c : Cursor) : Cursor :=
  match c.rest with
  | [] => c
  | first :: rest =>
    if first = '\n' then ⟨rest, c.index + 1, c.line + 1, 0⟩
    else ⟨rest, c.index + 1, c.line, c.column + 1⟩

def skipMany : Nat → Cursor → Cursor
  | 0, c => c
  | count + 1, c => skipMany count c.skip

/-- The characters that satisfy the test, and the place after them. -/
def takeWhile (test : Char → Bool) (c : Cursor) : List Char × Cursor :=
  let taken := c.rest.takeWhile test
  (taken, c.skipMany taken.length)

def skipWhile (test : Char → Bool) (c : Cursor) : Cursor := (c.takeWhile test).2

/-- Passes a line break, if there is one here. -/
def skipBreak (c : Cursor) : Cursor :=
  if c.current = '\r' ∧ c.peek 1 = '\n' then c.skip.skip
  else if isBreak c.current then c.skip
  else c

/-- Passes a comment up to the end of its line, if there is one here. -/
def skipComment (c : Cursor) : Cursor :=
  if c.current = '#' then c.skipWhile fun next ↦ !isBreakOrEnd next else c

/-- Whether three of these characters stand alone at the start of a line here. -/
def atMarker (c : Cursor) (mark : Char) : Bool :=
  c.column = 0 && c.current = mark && c.peek 1 = mark && c.peek 2 = mark && isSpaceOrEnd (c.peek 3)

def atDocumentMarker (c : Cursor) : Bool := c.atMarker '-' || c.atMarker '.'

end Cursor

end EventSchema.Yaml
