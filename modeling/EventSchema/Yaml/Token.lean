import EventSchema.Yaml.Scalar

/-!
# Tokens of a YAML text

`tokens` cuts a text into marks, scalars and the starts and ends of blocks, which follow from
indentation. Whether a node is a key shows only at the colon after it: the place of every node
that may turn out to be one is kept, one for each open flow collection and one for the block
outside, and the mark for the key is inserted there later.
-/

set_option autoImplicit false

namespace EventSchema.Yaml

inductive Mark where
  | directive
  | documentStart
  | documentEnd
  | streamEnd
  | blockSequenceStart
  | blockMappingStart
  | blockEnd
  | flowSequenceStart
  | flowSequenceEnd
  | flowMappingStart
  | flowMappingEnd
  | blockEntry
  | flowEntry
  | key
  | value
  | anchor (name : List Char)
  | alias (name : List Char)
  | tag (handle suffix : List Char)
  | scalar (plain : Bool) (text : List Char)
deriving DecidableEq, Repr

structure Token where
  mark : Mark
  place : Problem

/-- A node that is a key if a colon follows it. -/
structure PendingKey where
  /-- Whether it is an error for the node not to be a key. -/
  required : Bool
  /-- How many tokens stand before the node. -/
  position : Nat
  cursor : Cursor

structure Lexer where
  cursor : Cursor
  /-- The tokens so far, in reverse. -/
  tokens : List Token := []
  count : Nat := 0
  /-- Whether a node that starts here may be a key. -/
  keyAllowed : Bool := true
  /-- The node that may be a key, for the block level. -/
  blockKey : Option PendingKey := none
  /-- The same for every open flow collection, the innermost first. -/
  flowKeys : List (Option PendingKey) := []
  indent : Int := -1
  indents : List Int := []
  /-- Just after a quoted scalar the colon of a flow mapping needs no blank. -/
  adjacent : Nat := 0

namespace Lexer

def inFlow (s : Lexer) : Bool := !s.flowKeys.isEmpty

def push (s : Lexer) (mark : Mark) (place : Cursor) : Lexer :=
  { s with tokens := ⟨mark, place.problem⟩ :: s.tokens, count := s.count + 1 }

/-- Adds a token behind the first `position` ones. -/
def insertAt (s : Lexer) (position : Nat) (mark : Mark) (place : Cursor) : Lexer :=
  let after := s.count - position
  { s with
    tokens := s.tokens.take after ++ ⟨mark, place.problem⟩ :: s.tokens.drop after
    count := s.count + 1 }

/-! ### Keys -/

def currentKey (s : Lexer) : Option PendingKey :=
  match s.flowKeys with
  | key :: _ => key
  | [] => s.blockKey

def setKey (s : Lexer) (key : Option PendingKey) : Lexer :=
  match s.flowKeys with
  | _ :: outer => { s with flowKeys := key :: outer }
  | [] => { s with blockKey := key }

/-- Gives up the current key, which is an error if it is required. -/
def dropKey (s : Lexer) : Except Problem Lexer :=
  match s.currentKey with
  | some key => if key.required then .error s.cursor.problem else .ok (s.setKey none)
  | none => .ok s

/-- Notes that the node that starts here may be a key. -/
def saveKey (s : Lexer) : Except Problem Lexer := do
  if s.keyAllowed then
    let required := s.inFlow && s.indent == s.cursor.column
    return (← s.dropKey).setKey (some ⟨required, s.count, s.cursor⟩)
  else return s

/-- A key ends on its line and has at most 1024 characters. -/
def expire (s : Lexer) (key : Option PendingKey) : Except Problem (Option PendingKey) :=
  match key with
  | some key =>
    if key.cursor.line < s.cursor.line ∨ key.cursor.index + 1024 < s.cursor.index then
      if key.required then .error s.cursor.problem else .ok none
    else .ok (some key)
  | none => .ok none

def expireKeys (s : Lexer) : Except Problem Lexer := do
  return { s with blockKey := ← s.expire s.blockKey, flowKeys := ← s.flowKeys.mapM s.expire }

/-! ### Indentation -/

/-- Opens a block at the column, if it is further in than the current one. -/
def openBlock (s : Lexer) (column : Nat) (position : Option Nat) (mark : Mark) : Lexer :=
  if s.inFlow || s.indent ≥ column then s
  else
    let s := { s with indents := s.indent :: s.indents, indent := column }
    match position with
    | some position => s.insertAt position mark s.cursor
    | none => s.push mark s.cursor

/-- Closes the blocks that are further in than the column. -/
def closeBlocks (s : Lexer) (column : Int) : Lexer :=
  if s.inFlow then s else go s s.indents
where
  go (s : Lexer) : List Int → Lexer
    | [] => s
    | outer :: more =>
      if s.indent > column then
        go { s.push .blockEnd s.cursor with indent := outer, indents := more } more
      else s

/-! ### Blanks between tokens -/

/-- Passes blanks, comments and line breaks. A tab counts as blank only where no key may start. -/
def skipBlanks : Nat → Lexer → Lexer
  | 0, s => s
  | steps + 1, s =>
    let c := s.cursor
    if c.current = ' ' ∨ (c.current = '\t' ∧ (s.inFlow ∨ !s.keyAllowed)) then
      skipBlanks steps { s with cursor := c.skip }
    else if isBreak c.current then
      skipBlanks steps { s with cursor := c.skipBreak, keyAllowed := s.keyAllowed || !s.inFlow }
    else if c.current = '#' then skipBlanks steps { s with cursor := c.skipComment }
    else s

/-! ### Tags and directives -/

def isTagChar (c : Char) : Bool :=
  isWordChar c || c = singleQuote ||
    [';', '/', '?', ':', '@', '&', '=', '+', '$', ',', '.', '!', '~', '*', '(', ')', '[', ']',
      '%'].contains c

/-- How many octets an escaped character has, judging by its first one. -/
def octets? (first : Nat) : Option Nat :=
  if first < 0x80 then some 1
  else if 0xC0 ≤ first ∧ first < 0xE0 then some 2
  else if 0xE0 ≤ first ∧ first < 0xF0 then some 3
  else if 0xF0 ≤ first ∧ first < 0xF8 then some 4
  else none

def readOctet (c : Cursor) : Except Problem (Nat × Cursor) :=
  match hexValue? (c.peek 1), hexValue? (c.peek 2) with
  | some high, some low =>
    if c.current = '%' then .ok (high * 16 + low, c.skipMany 3) else .error c.problem
  | _, _ => .error c.problem

/-- Reads the octets of an escaped character that follow the first. -/
def readOctets : Nat → Nat → Cursor → Except Problem (Nat × Cursor)
  | 0, code, c => .ok (code, c)
  | more + 1, code, c => do
    let (octet, c) ← readOctet c
    if octet / 64 = 2 then readOctets more (code * 256 + octet) c else throw c.problem

def readTagEscape (c : Cursor) : Except Problem (Char × Cursor) := do
  let (first, after) ← readOctet c
  match octets? first with
  | none => throw c.problem
  | some width =>
    let (code, after) ← readOctets (width - 1) first after
    match charOf? code with
    | some value => return (value, after)
    | none => throw c.problem

/-- Reads the characters of a tag; what is read so far is in reverse. -/
def readTagChars : Nat → List Char → Cursor → Except Problem (List Char × Cursor)
  | 0, text, c => .ok (text.reverse, c)
  | steps + 1, text, c =>
    if c.current = '%' then do
      let (value, c) ← readTagEscape c
      readTagChars steps (value :: text) c
    else if isTagChar c.current then readTagChars steps (c.current :: text) c.skip
    else .ok (text.reverse, c)

def readSomeTagChars (c : Cursor) : Except Problem (List Char × Cursor) := do
  let (text, after) ← readTagChars (c.rest.length + 1) [] c
  if text.isEmpty then throw c.problem else return (text, after)

/-- Reads `!`, `!!` or `!name!`, or the start of a tag that has no handle. -/
def readHandle (c : Cursor) : Except Problem (List Char × Cursor) :=
  if c.current ≠ '!' then .error c.problem
  else
    let (name, c) := c.skip.takeWhile isWordChar
    if c.current = '!' then .ok ('!' :: name ++ ['!'], c.skip) else .ok ('!' :: name, c)

def readTag (c : Cursor) : Except Problem (Mark × Cursor) := do
  let (mark, after) ←
    if c.peek 1 = '<' then do
      let (suffix, after) ← readSomeTagChars c.skip.skip
      if after.current = '>' then pure (Mark.tag [] suffix, after.skip) else throw c.problem
    else do
      let (handle, after) ← readHandle c
      if handle.length ≥ 2 ∧ handle.getLast? = some '!' then
        let (suffix, after) ← readSomeTagChars after
        pure (Mark.tag handle suffix, after)
      else
        let (more, after) ← readTagChars (after.rest.length + 1) [] after
        let suffix := handle.drop 1 ++ more
        pure (if suffix.isEmpty then Mark.tag [] ['!'] else Mark.tag ['!'] suffix, after)
  if isSpaceOrEnd after.current then return (mark, after) else throw c.problem

def readVersionNumber (c : Cursor) : Except Problem Cursor :=
  let (digits, after) := c.takeWhile Text.isAsciiDigit
  if digits.isEmpty ∨ digits.length > 9 then .error c.problem else .ok after

/-- Reads a directive, from its `%` to the end of its line. -/
def readDirective (c : Cursor) : Except Problem Cursor := do
  let (name, after) := c.skip.takeWhile isWordChar
  if name.isEmpty || !isSpaceOrEnd after.current then throw c.problem
  let after ←
    if name = "YAML".toList then do
      let after ← readVersionNumber (after.skipWhile isBlank)
      if after.current ≠ '.' then throw c.problem
      readVersionNumber after.skip
    else if name = "TAG".toList then do
      let (handle, after) ← readHandle (after.skipWhile isBlank)
      if handle ≠ ['!'] ∧ (handle.length < 2 ∨ handle.getLast? ≠ some '!') then throw c.problem
      let (_, after) ← readSomeTagChars (after.skipWhile isBlank)
      if isSpaceOrEnd after.current then pure after else throw c.problem
    else pure (after.skipWhile fun next ↦ !isBreakOrEnd next)
  let after := (after.skipWhile isBlank).skipComment
  if isBreakOrEnd after.current then return after.skipBreak else throw c.problem

/-! ### One token after the other -/

def directive (s : Lexer) : Except Problem Lexer := do
  let start := s.cursor
  let s ← (s.closeBlocks (-1)).dropKey
  let cursor ← readDirective start
  return { s with cursor, keyAllowed := false }.push .directive start

def documentMarker (s : Lexer) (mark : Mark) : Except Problem Lexer := do
  let start := s.cursor
  let s ← (s.closeBlocks (-1)).dropKey
  return { s with cursor := start.skipMany 3, keyAllowed := false }.push mark start

def streamEnd (s : Lexer) : Except Problem Lexer := do
  let s ← (s.closeBlocks (-1)).dropKey
  return s.push .streamEnd s.cursor

def flowStart (s : Lexer) (mark : Mark) : Except Problem Lexer := do
  let s ← s.saveKey
  if s.flowKeys.length ≥ 255 then throw s.cursor.problem
  return { s with
    cursor := s.cursor.skip, flowKeys := none :: s.flowKeys, keyAllowed := true }.push mark s.cursor

def flowEnd (s : Lexer) (mark : Mark) : Except Problem Lexer := do
  let s ← s.dropKey
  return { s with
    cursor := s.cursor.skip, flowKeys := s.flowKeys.tail, keyAllowed := false }.push mark s.cursor

def flowEntry (s : Lexer) : Except Problem Lexer := do
  let s ← s.dropKey
  return { s with cursor := s.cursor.skip, keyAllowed := true }.push .flowEntry s.cursor

def blockEntry (s : Lexer) : Except Problem Lexer := do
  if s.inFlow || !s.keyAllowed then throw s.cursor.problem
  let s ← (s.openBlock s.cursor.column none .blockSequenceStart).dropKey
  return { s with cursor := s.cursor.skip, keyAllowed := true }.push .blockEntry s.cursor

def explicitKey (s : Lexer) : Except Problem Lexer := do
  if !s.inFlow && !s.keyAllowed then throw s.cursor.problem
  let s ← (s.openBlock s.cursor.column none .blockMappingStart).dropKey
  return { s with cursor := s.cursor.skip, keyAllowed := !s.inFlow }.push .key s.cursor

/-- A colon: what precedes it on the line is its key, or its key has been marked. -/
def value (s : Lexer) : Except Problem Lexer := do
  let start := s.cursor
  match s.currentKey with
  | some key =>
    let s := s.insertAt key.position .key key.cursor
    let s := s.openBlock key.cursor.column (some key.position) .blockMappingStart
    return { s.setKey none with cursor := start.skip, keyAllowed := false }.push .value start
  | none =>
    if !s.inFlow && !s.keyAllowed then throw start.problem
    let s := s.openBlock start.column none .blockMappingStart
    return { s with cursor := start.skip, keyAllowed := !s.inFlow }.push .value start

def anchor (s : Lexer) (isAlias : Bool) : Except Problem Lexer := do
  let start := s.cursor
  let s ← s.saveKey
  let (name, after) := start.skip.takeWhile isWordChar
  let ends := isSpaceOrEnd after.current ||
    ['?', ':', ',', ']', '}', '%', '@', Char.ofNat 96].contains after.current
  if name.isEmpty || !ends then throw start.problem
  return { s with cursor := after, keyAllowed := false }.push
    (if isAlias then .alias name else .anchor name) start

def tag (s : Lexer) : Except Problem Lexer := do
  let start := s.cursor
  let s ← s.saveKey
  let (mark, cursor) ← readTag start
  return { s with cursor, keyAllowed := false }.push mark start

def quotedScalar (s : Lexer) (single : Bool) : Except Problem Lexer := do
  let start := s.cursor
  let s ← s.saveKey
  let (text, cursor) ← readQuoted single (2 * start.rest.length + 2) true [] start.skip
  return { s with cursor, keyAllowed := false, adjacent := cursor.index }.push
    (.scalar false text) start

def blockScalar (s : Lexer) (literal : Bool) : Except Problem Lexer := do
  let start := s.cursor
  let s ← s.saveKey
  let (text, cursor) ← readBlock literal s.indent start.skip
  return { s with cursor, keyAllowed := true }.push (.scalar false text) start

def plainScalar (s : Lexer) : Except Problem Lexer := do
  let start := s.cursor
  let s ← s.saveKey
  let ((text, broken), cursor) ←
    readPlain s.inFlow (s.indent + 1) (2 * start.rest.length + 2) true {} [] start
  return { s with cursor, keyAllowed := broken }.push (.scalar true text) start

/-- Reads the token that starts here. -/
def token (s : Lexer) : Except Problem Lexer :=
  let c := s.cursor
  let next := c.peek 1
  let spaced := isSpaceOrEnd next
  if c.column = 0 ∧ c.current = '%' then s.directive
  else if c.atMarker '-' then s.documentMarker .documentStart
  else if c.atMarker '.' then s.documentMarker .documentEnd
  else match c.current with
    | '[' => s.flowStart .flowSequenceStart
    | '{' => s.flowStart .flowMappingStart
    | ']' => s.flowEnd .flowSequenceEnd
    | '}' => s.flowEnd .flowMappingEnd
    | ',' => s.flowEntry
    | '-' => if spaced then s.blockEntry else s.plainScalar
    | '?' => if spaced then s.explicitKey else s.plainScalar
    | ':' =>
      if spaced || (s.inFlow && (isFlowMark next || c.index = s.adjacent)) then s.value
      else s.plainScalar
    | '*' => s.anchor true
    | '&' => s.anchor false
    | '!' => s.tag
    | '|' => if s.inFlow then s.plainScalar else s.blockScalar true
    | '>' => if s.inFlow then s.plainScalar else s.blockScalar false
    | '"' => s.quotedScalar false
    | '%' => .error c.problem
    | '@' => .error c.problem
    | first =>
      if first = singleQuote then s.quotedScalar true
      else if first = Char.ofNat 96 then .error c.problem
      else s.plainScalar

/-- Reads tokens to the end of the text; each takes at least one character. -/
def run : Nat → Lexer → Except Problem Lexer
  | 0, s => .error s.cursor.problem
  | steps + 1, s => do
    let s ← (skipBlanks (s.cursor.rest.length + 1) s).expireKeys
    let s := s.closeBlocks s.cursor.column
    if s.cursor.atEnd then s.streamEnd else run steps (← s.token)

end Lexer

/-- The tokens of a text, which ends at its first null character. -/
def tokens (text : List Char) : Except Problem (List Token) := do
  let text := text.takeWhile (· ≠ finish)
  let s ← Lexer.run (text.length + 1) { cursor := { rest := text } }
  return s.tokens.reverse

end EventSchema.Yaml
