import EventSchema.Yaml.Token

/-!
# Nodes of a YAML text

The documents of a text as trees. Nodes are read from tokens by descent; every read takes tokens
from the front, so their number bounds the depth of the descent.
-/

set_option autoImplicit false

namespace EventSchema.Yaml

/-- The handle and the suffix of a tag. -/
structure Tag where
  handle : List Char
  suffix : List Char
deriving DecidableEq, Repr

inductive Node where
  /-- An alias to a node that is still open. -/
  | unfinished
  /-- Nothing, where a node could stand. -/
  | empty
  | scalar (plain : Bool) (tag : Option Tag) (text : List Char)
  | sequence (items : List Node)
  | mapping (entries : List (Node × Node))
deriving Repr, Inhabited

/-- What is left to read, and the anchors of the document. -/
structure Reader where
  tokens : List Token
  /-- The number of the last node that was given the name. -/
  names : List (List Char × Nat) := []
  /-- The anchored nodes that are complete. -/
  nodes : List (Nat × Node) := []
  next : Nat := 1

abbrev ReadM := StateT Reader (Except Problem)

namespace Reader

def peek : ReadM Mark := do
  match (← get).tokens with
  | token :: _ => return token.mark
  | [] => return .streamEnd

def skip : ReadM Unit := modify fun s ↦ { s with tokens := s.tokens.tail }

def fail {α : Type} : ReadM α := do
  match (← get).tokens with
  | token :: _ => throw token.place
  | [] => throw ⟨0, 0⟩

/-- Gives the node that follows a name, and a number. -/
def register (name : List Char) : ReadM Nat := do
  let s ← get
  set { s with names := (name, s.next) :: s.names, next := s.next + 1 }
  return s.next

def complete (anchor : Option Nat) (node : Node) : ReadM Node := do
  match anchor with
  | some number => modify fun s ↦ { s with nodes := (number, node) :: s.nodes }
  | none => pure ()
  return node

def resolveAlias (name : List Char) : ReadM Node := do
  let s ← get
  match s.names.lookup name with
  | none => fail
  | some number =>
    skip
    return (s.nodes.lookup number).getD .unfinished

/-- The anchor and the tag in front of a node, in either order. -/
def properties : ReadM (Option Nat × Option Tag) := do
  match ← peek with
  | .anchor name =>
    skip
    let number ← register name
    match ← peek with
    | .tag handle suffix =>
      skip
      return (some number, some ⟨handle, suffix⟩)
    | _ => return (some number, none)
  | .tag handle suffix =>
    skip
    match ← peek with
    | .anchor name =>
      skip
      return (some (← register name), some ⟨handle, suffix⟩)
    | _ => return (none, some ⟨handle, suffix⟩)
  | _ => return (none, none)

mutual

/-- Reads a node. Blocks are read only where `block` holds, and a sequence without a block of its
own only where `indentless` does. -/
def node : Nat → Bool → Bool → ReadM Node
  | 0, _, _ => fail
  | depth + 1, block, indentless => do
    match ← peek with
    | .alias name => resolveAlias name
    | _ =>
      let (anchor, tag) ← properties
      match ← peek with
      | .scalar plain text =>
        skip
        complete anchor (.scalar plain tag text)
      | .flowSequenceStart =>
        skip
        complete anchor (.sequence (← flowSequence depth true))
      | .flowMappingStart =>
        skip
        complete anchor (.mapping (← flowMapping depth true))
      | mark =>
        if mark = .blockEntry ∧ indentless then
          complete anchor (.sequence (← indentlessSequence depth))
        else if mark = .blockSequenceStart ∧ block then do
          skip
          complete anchor (.sequence (← blockSequence depth))
        else if mark = .blockMappingStart ∧ block then do
          skip
          complete anchor (.mapping (← blockMapping depth))
        else if anchor.isSome || tag.isSome then complete anchor (.scalar true tag [])
        else fail

/-- Nothing before one of the marks, else a node. -/
def nodeUnless : Nat → List Mark → Bool → Bool → ReadM Node
  | 0, _, _, _ => fail
  | depth + 1, marks, block, indentless => do
    if marks.contains (← peek) then return .empty else node depth block indentless

def blockSequence : Nat → ReadM (List Node)
  | 0 => fail
  | depth + 1 => do
    match ← peek with
    | .blockEnd =>
      skip
      return []
    | .blockEntry =>
      skip
      let item ← nodeUnless depth [.blockEntry, .blockEnd] true false
      return item :: (← blockSequence depth)
    | _ => fail

def indentlessSequence : Nat → ReadM (List Node)
  | 0 => fail
  | depth + 1 => do
    match ← peek with
    | .blockEntry =>
      skip
      let item ← nodeUnless depth [.blockEntry, .key, .value, .blockEnd] true false
      return item :: (← indentlessSequence depth)
    | _ => return []

def blockMapping : Nat → ReadM (List (Node × Node))
  | 0 => fail
  | depth + 1 => do
    let stops : List Mark := [.key, .value, .blockEnd]
    let readValue : ReadM Node := do
      match ← peek with
      | .value =>
        skip
        nodeUnless depth stops true true
      | _ => return .empty
    match ← peek with
    | .key =>
      skip
      let key ← nodeUnless depth stops true true
      let value ← readValue
      return (key, value) :: (← blockMapping depth)
    | .value =>
      let value ← readValue
      return (.empty, value) :: (← blockMapping depth)
    | .blockEnd =>
      skip
      return []
    | _ => fail

/-- Reads the items of a flow sequence; a key among them starts a mapping of one entry. -/
def flowSequence : Nat → Bool → ReadM (List Node)
  | 0, _ => fail
  | depth + 1, first => do
    if (← peek) = .flowSequenceEnd then
      skip
      return []
    if !first then
      if (← peek) = .flowEntry then skip else fail
    match ← peek with
    | .flowSequenceEnd =>
      skip
      return []
    | .key =>
      skip
      let mark ← peek
      let key ←
        if mark = .value ∨ mark = .flowEntry ∨ mark = .flowSequenceEnd then do
          skip
          pure Node.empty
        else node depth false false
      let value ←
        if (← peek) = .value then do
          skip
          nodeUnless depth [.flowEntry, .flowSequenceEnd] false false
        else pure Node.empty
      return .mapping [(key, value)] :: (← flowSequence depth false)
    | _ =>
      let item ← node depth false false
      return item :: (← flowSequence depth false)

def flowMapping : Nat → Bool → ReadM (List (Node × Node))
  | 0, _ => fail
  | depth + 1, first => do
    let readValue : ReadM Node := do
      if (← peek) = .value then
        skip
        nodeUnless depth [.flowEntry, .flowMappingEnd] false false
      else return .empty
    if (← peek) = .flowMappingEnd then
      skip
      return []
    if !first then
      if (← peek) = .flowEntry then skip else fail
    match ← peek with
    | .flowMappingEnd =>
      skip
      return []
    | .key =>
      skip
      let key ← nodeUnless depth [.value, .flowEntry, .flowMappingEnd] false false
      let value ← readValue
      return (key, value) :: (← flowMapping depth false)
    | .value =>
      let value ← readValue
      return (.empty, value) :: (← flowMapping depth false)
    | _ =>
      let key ← node depth false false
      return (key, .empty) :: (← flowMapping depth false)

end

/-- Passes the marks that satisfy the test. -/
def skipMarks (test : Mark → Bool) : ReadM Unit :=
  modify fun s ↦ { s with tokens := s.tokens.dropWhile fun token ↦ test token.mark }

/-- Reads the content of a document, and the mark that may end it. -/
def content (depth : Nat) : ReadM Node := do
  modify fun s ↦ { s with names := [] }
  let root ← nodeUnless depth [.directive, .documentStart, .documentEnd, .streamEnd] true false
  if (← peek) = .documentEnd then skip
  return root

/-- Reads the documents that follow a first one; each needs a mark in front of it. -/
def explicitDocuments (depth : Nat) : Nat → ReadM (List Node)
  | 0 => fail
  | count + 1 => do
    skipMarks (· = .documentEnd)
    if (← peek) = .streamEnd then return []
    skipMarks (· = .directive)
    if (← peek) = .documentStart then
      skip
      let root ← content depth
      return root :: (← explicitDocuments depth count)
    else fail

def documents (depth : Nat) : ReadM (List Node) := do
  match ← peek with
  | .streamEnd => return []
  | .directive | .documentStart => explicitDocuments depth depth
  | .documentEnd => fail
  | _ =>
    let root ← content depth
    return root :: (← explicitDocuments depth depth)

end Reader

/-- The root nodes of the documents in a text. -/
def documents (text : List Char) : Except Problem (List Node) := do
  let tokens ← tokens text
  let (roots, _) ← (Reader.documents (4 * tokens.length + 8)).run { tokens }
  return roots

end EventSchema.Yaml
