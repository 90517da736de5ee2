import EventSchema.Yaml.Cursor

/-!
# Scalars in a YAML text

Quoted, plain and block scalars, read from their first character on. A line break inside a quoted
or plain scalar is folded: alone it becomes a space, and of several the first is dropped.
-/

set_option autoImplicit false

namespace EventSchema.Yaml

/-! ### Folding -/

/-- The blank run between two words of a scalar. -/
structure Gap where
  /-- Blanks before any line break, in reverse. -/
  blanks : List Char := []
  /-- Whether there is a line break. -/
  broken : Bool := false
  /-- Whether the first line break counts; an escaped one does not. -/
  counts : Bool := false
  /-- How many line breaks follow the first. -/
  more : Nat := 0

namespace Gap

def isEmpty (gap : Gap) : Bool := gap.blanks.isEmpty && !gap.broken

/-- The text that the gap stands for. -/
def text (gap : Gap) : List Char :=
  if !gap.broken then gap.blanks.reverse
  else if gap.counts && gap.more = 0 then [' ']
  else List.replicate gap.more '\n'

end Gap

/-- Reads blanks and line breaks. Where `tabFrom` is given, a tab in front of that column is an
error after a line break. -/
def readGap (tabFrom : Option Int) : Nat → Gap → Cursor → Except Problem (Gap × Cursor)
  | 0, gap, c => .ok (gap, c)
  | steps + 1, gap, c =>
    if isBlank c.current then
      if gap.broken then
        if c.current = '\t' ∧ tabFrom.any fun column ↦ (c.column : Int) < column then
          .error c.problem
        else readGap tabFrom steps gap c.skip
      else readGap tabFrom steps { gap with blanks := c.current :: gap.blanks } c.skip
    else if isBreak c.current then
      if gap.broken then readGap tabFrom steps { gap with more := gap.more + 1 } c.skipBreak
      else readGap tabFrom steps { blanks := [], broken := true, counts := true, more := 0 }
        c.skipBreak
    else .ok (gap, c)

/-! ### Quoted scalars -/

def singleQuote : Char := Char.ofNat 39

def hexValue? (c : Char) : Option Nat :=
  if '0' ≤ c ∧ c ≤ '9' then some (c.toNat - 48)
  else if 'a' ≤ c ∧ c ≤ 'f' then some (c.toNat - 87)
  else if 'A' ≤ c ∧ c ≤ 'F' then some (c.toNat - 55)
  else none

/-- The character of a code point, if there is one. -/
def charOf? (code : Nat) : Option Char :=
  if code < 0xD800 ∨ (0xDFFF < code ∧ code < 0x110000) then some (Char.ofNat code) else none

/-- The character that a one-letter escape stands for. -/
def letterEscape? (c : Char) : Option Char :=
  if c = singleQuote then some singleQuote
  else match c with
    | '0' => some (Char.ofNat 0)
    | 'a' => some (Char.ofNat 7)
    | 'b' => some (Char.ofNat 8)
    | 't' => some '\t'
    | '\t' => some '\t'
    | 'n' => some '\n'
    | 'v' => some (Char.ofNat 11)
    | 'f' => some (Char.ofNat 12)
    | 'r' => some '\r'
    | 'e' => some (Char.ofNat 27)
    | ' ' => some ' '
    | '"' => some '"'
    | '\\' => some '\\'
    | 'N' => some (Char.ofNat 0x85)
    | '_' => some (Char.ofNat 0xA0)
    | 'L' => some (Char.ofNat 0x2028)
    | 'P' => some (Char.ofNat 0x2029)
    | _ => none

/-- Reads an escape, from its backslash on. -/
def readEscape (c : Cursor) : Except Problem (Char × Cursor) :=
  let hex (count : Nat) : Except Problem (Char × Cursor) :=
    let after := c.skip.skip
    let digits := after.rest.take count
    match digits.mapM hexValue? with
    | some values =>
      if values.length < count then .error c.problem
      else match charOf? (values.foldl (fun code value ↦ code * 16 + value) 0) with
        | some value => .ok (value, after.skipMany count)
        | none => .error c.problem
    | none => .error c.problem
  match c.peek 1 with
  | 'x' => hex 2
  | 'u' => hex 4
  | 'U' => hex 8
  | letter =>
    match letterEscape? letter with
    | some value => .ok (value, c.skip.skip)
    | none => .error c.problem

/-- Reads the body of a quoted scalar up to its closing quote. The text read so far is in reverse;
`fresh` holds where a word may start, that is at the start and after a gap. -/
def readQuoted (single : Bool) :
    Nat → Bool → List Char → Cursor → Except Problem (List Char × Cursor)
  | 0, _, _, c => .error c.problem
  | steps + 1, fresh, text, c =>
    let quote := if single then singleQuote else '"'
    if fresh && (c.atDocumentMarker || c.atEnd) then .error c.problem
    else if single && c.current = quote && c.peek 1 = quote then
      readQuoted single steps false (quote :: text) c.skip.skip
    else if c.current = quote then .ok (text.reverse, c.skip)
    else if isSpaceOrEnd c.current then do
      let (gap, c) ← readGap none (c.rest.length + 1) {} c
      readQuoted single steps true (gap.text.reverse ++ text) c
    else if !single && c.current = '\\' then
      if isBreak (c.peek 1) then do
        let (gap, c) ← readGap none (c.rest.length + 1) { broken := true } c.skip.skipBreak
        readQuoted single steps true (gap.text.reverse ++ text) c
      else do
        let (value, c) ← readEscape c
        readQuoted single steps false (value :: text) c
    else readQuoted single steps false (c.current :: text) c.skip

/-! ### Plain scalars -/

/-- Whether a plain scalar ends at this character of a word. -/
def endsPlain (inFlow : Bool) (c : Cursor) : Bool :=
  if c.current = ':' then isSpaceOrEnd (c.peek 1) || (inFlow && isFlowMark (c.peek 1))
  else inFlow && isFlowMark c.current

/-- Reads a plain scalar whose continuation lines start at `indent` or further. The result tells
whether a line break was passed after the last word. -/
def readPlain (inFlow : Bool) (indent : Int) : Nat → Bool → Gap → List Char → Cursor →
    Except Problem ((List Char × Bool) × Cursor)
  | 0, _, _, _, c => .error c.problem
  | steps + 1, fresh, gap, text, c =>
    let done : Except Problem ((List Char × Bool) × Cursor) := .ok ((text.reverse, gap.broken), c)
    if fresh && (c.atDocumentMarker || c.current = '#') then done
    else if c.current = finish then done
    else if isSpaceOrEnd c.current then do
      let (gap, c) ← readGap (some indent) (c.rest.length + 1) gap c
      if !inFlow ∧ (c.column : Int) < indent then return ((text.reverse, gap.broken), c)
      else readPlain inFlow indent steps true gap text c
    else if endsPlain inFlow c then done
    else readPlain inFlow indent steps false {} (c.current :: (gap.text.reverse ++ text)) c.skip

/-! ### Block scalars -/

inductive Chomping where
  | strip
  | clip
  | keep
deriving DecidableEq

def chompingOf? : Char → Option Chomping
  | '+' => some .keep
  | '-' => some .strip
  | _ => none

/-- The indentation indicator here, zero when there is none. -/
def readIndicator (c : Cursor) : Except Problem (Nat × Cursor) :=
  if c.current = '0' then .error c.problem
  else if Text.isAsciiDigit c.current then .ok (c.current.toNat - 48, c.skip)
  else .ok (0, c)

/-- Reads the chomping and indentation indicators, in either order. -/
def readIndicators (c : Cursor) : Except Problem ((Chomping × Nat) × Cursor) :=
  match chompingOf? c.current with
  | some chomping => do
    let (increment, c) ← readIndicator c.skip
    return ((chomping, increment), c)
  | none => do
    let (increment, after) ← readIndicator c
    if increment = 0 then return ((.clip, 0), after)
    else match chompingOf? after.current with
      | some chomping => return ((chomping, increment), after.skip)
      | none => return ((.clip, increment), after)

/-- Passes indentation and empty lines: the number of line breaks, and the widest indentation
seen. An indentation of zero is not known yet. -/
def readBreaks (indent : Nat) :
    Nat → Nat → Nat → Cursor → Except Problem ((Nat × Nat) × Cursor)
  | 0, breaks, widest, c => .ok ((breaks, widest), c)
  | steps + 1, breaks, widest, c =>
    let limit := if indent = 0 then c.rest.length else indent - c.column
    let c := c.skipMany ((c.rest.take limit).takeWhile (· = ' ')).length
    let widest := max widest c.column
    if (indent = 0 ∨ c.column < indent) ∧ c.current = '\t' then .error c.problem
    else if isBreak c.current then readBreaks indent steps (breaks + 1) widest c.skipBreak
    else .ok ((breaks, widest), c)

/-- The text of a block scalar as far as it has been read. -/
structure Block where
  /-- In reverse. -/
  text : List Char := []
  /-- Whether the last line has a line break that is not written yet. -/
  broken : Bool := false
  /-- Empty lines not written yet. -/
  empty : Nat := 0
  /-- Whether the last line starts with a blank. -/
  blank : Bool := false

/-- Adds a line: in a folded scalar a line break between two lines that start with no blank is a
space, or nothing when empty lines follow it. -/
def Block.addLine (block : Block) (literal : Bool) (line : List Char) (broken : Bool) : Block :=
  let blank := isBlank (line.headD finish)
  let folds := !literal && block.broken && !block.blank && !blank
  let separator :=
    if folds then (if block.empty = 0 then [' '] else [])
    else if block.broken then ['\n'] else []
  { text := line.reverse ++ List.replicate block.empty '\n' ++ separator ++ block.text
    broken, blank }

/-- Reads the lines of a block scalar. -/
def readLines (literal : Bool) (indent : Nat) :
    Nat → Block → Cursor → Except Problem (Block × Cursor)
  | 0, block, c => .ok (block, c)
  | steps + 1, block, c =>
    if c.column = indent ∧ !c.atEnd then
      let (line, c) := c.takeWhile fun next ↦ !isBreakOrEnd next
      if c.atEnd then .ok (block.addLine literal line false, c)
      else do
        let ((breaks, _), c) ← readBreaks indent (c.rest.length + 1) 0 0 c.skipBreak
        readLines literal indent steps { block.addLine literal line true with empty := breaks } c
    else .ok (block, c)

/-- Reads a block scalar after its `|` or `>`, inside a block of the given indentation. -/
def readBlock (literal : Bool) (parent : Int) (c : Cursor) :
    Except Problem (List Char × Cursor) := do
  let ((chomping, increment), c) ← readIndicators c
  let c := (c.skipWhile isBlank).skipComment
  if !isBreakOrEnd c.current then throw c.problem
  let c := c.skipBreak
  let given := if increment = 0 then 0 else (max parent 0).toNat + increment
  let ((breaks, widest), c) ← readBreaks given (c.rest.length + 1) 0 0 c
  let indent := if given = 0 then max (max widest (parent + 1).toNat) 1 else given
  let (block, c) ← readLines literal indent (c.rest.length + 1) { empty := breaks } c
  let tail :=
    match chomping with
    | .strip => []
    | .clip => if block.broken then ['\n'] else []
    | .keep => (if block.broken then ['\n'] else []) ++ List.replicate block.empty '\n'
  return (block.text.reverse ++ tail, c)

end EventSchema.Yaml
