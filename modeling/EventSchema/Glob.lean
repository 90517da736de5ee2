import EventSchema.Path

/-!
# Path patterns

In a pattern, `*` stands for any characters of a name, `?` for one, brackets for one of a set, and
the name `**` for any number of directories. Braces stand for themselves.
-/

set_option autoImplicit false

namespace EventSchema.Glob

inductive Problem.Kind where
  | range
  | wildcards
  | recursiveWildcard
deriving DecidableEq, Repr

/-- What is wrong with a pattern, and at which of its characters. -/
structure Problem where
  position : Nat
  kind : Problem.Kind
deriving DecidableEq, Repr

def Problem.Kind.message : Problem.Kind → String
  | range => "invalid range pattern"
  | wildcards => "wildcards are either regular `*` or recursive `**`"
  | recursiveWildcard => "recursive wildcards must form a single path component"

def Problem.message (problem : Problem) : String :=
  s!"Pattern syntax error near position {problem.position}: {problem.kind.message}"

inductive Token where
  | literal (c : Char)
  | anyChar
  | anyText
  | anyDirectories
  | oneOf (negated : Bool) (ranges : List (Char × Char))
deriving DecidableEq, Repr

/-! ### Reading a pattern -/

/-- The ranges of a set; a dash between two characters makes one of them. -/
def rangesOf : List Char → List (Char × Char)
  | first :: '-' :: last :: rest => (first, last) :: rangesOf rest
  | c :: rest => (c, c) :: rangesOf rest
  | [] => []

/-- The set behind an opening bracket, and how many characters it takes. Its first character may be
a closing bracket. -/
def setOf? (after : List Char) : Option (Token × Nat) :=
  let upToBracket (text : List Char) : Option (List Char) :=
    match text with
    | first :: rest => (Text.splitOnce ']' rest).map fun (body, _) ↦ first :: body
    | [] => none
  match after with
  | '!' :: rest => (upToBracket rest).map fun body ↦ (.oneOf true (rangesOf body), body.length + 2)
  | rest => (upToBracket rest).map fun body ↦ (.oneOf false (rangesOf body), body.length + 1)

/-- Reads a run of two stars: it must stand alone between slashes. The result says how many
characters are taken. -/
def recursiveRun (position : Nat) (before : Option Char) (after : List Char) :
    Except Problem Nat :=
  if before.any (· ≠ '/') then .error ⟨position - 1, .recursiveWildcard⟩
  else match after with
    | [] => .ok 2
    | '/' :: _ => .ok 3
    | _ => .error ⟨position + 2, .recursiveWildcard⟩

/-- The token at the front of a text, and how many characters it takes. -/
def nextToken (position : Nat) (before : Option Char) (c : Char) (rest : List Char) :
    Except Problem (Token × Nat) :=
  match c with
  | '?' => .ok (.anyChar, 1)
  | '*' =>
    let more := rest.takeWhile (· = '*')
    match more.length with
    | 0 => .ok (.anyText, 1)
    | 1 => (recursiveRun position before (rest.drop 1)).map fun count ↦ (.anyDirectories, count)
    | _ => .error ⟨position + 2, .wildcards⟩
  | '[' =>
    match setOf? rest with
    | some (token, count) => .ok (token, count + 1)
    | none => .error ⟨position, .range⟩
  | c => .ok (.literal c, 1)

/-- Reads the tokens of a text; `skip` characters belong to the token before. -/
def tokensFrom (position : Nat) (before : Option Char) (skip : Nat) :
    List Char → Except Problem (List Token)
  | [] => .ok []
  | c :: rest =>
    match skip with
    | skip + 1 => tokensFrom (position + 1) (some c) skip rest
    | 0 => do
      let (token, count) ← nextToken position before c rest
      let tokens ← tokensFrom (position + 1) (some c) (count - 1) rest
      return token :: tokens

def tokens (text : List Char) : Except Problem (List Token) := tokensFrom 0 none 0 text

/-! ### Matching a name -/

def suffixes : List Char → List (List Char)
  | [] => [[]]
  | c :: rest => (c :: rest) :: suffixes rest

def matchesName : List Token → List Char → Bool
  | [], name => name.isEmpty
  | .anyText :: tokens, name | .anyDirectories :: tokens, name =>
    (suffixes name).any (matchesName tokens)
  | _ :: _, [] => false
  | .literal c :: tokens, d :: name => c = d && matchesName tokens name
  | .anyChar :: tokens, _ :: name => matchesName tokens name
  | .oneOf negated ranges :: tokens, c :: name =>
    (ranges.any fun (first, last) ↦ first ≤ c && c ≤ last) != negated && matchesName tokens name

/-! ### Components -/

/-- What one name of a path must be. -/
inductive Component where
  /-- Exactly this name, which need not be looked for. -/
  | name (text : String)
  | wildcard (tokens : List Token)
  | anyDirectories
deriving DecidableEq, Repr

def Component.tokens : Component → List Token
  | name text => text.toList.map .literal
  | wildcard tokens => tokens
  | anyDirectories => [.anyDirectories]

def Token.literal? : Token → Option Char
  | literal c => some c
  | _ => none

def literals? (tokens : List Token) : Option String :=
  (tokens.mapM Token.literal?).map String.ofList

def Component.ofTokens (tokens : List Token) : Component :=
  if tokens = [.anyDirectories] then .anyDirectories
  else match literals? tokens with
    | some text => .name text
    | none => .wildcard tokens

/-- Several runs of directories in a row are one. -/
def collapse : List Component → List Component
  | .anyDirectories :: .anyDirectories :: rest => collapse (.anyDirectories :: rest)
  | component :: rest => component :: collapse rest
  | [] => []

end Glob

/-- A pattern: where it starts, what comes below that, and whether only directories are meant. -/
structure Glob where
  absolute : Bool
  components : List Glob.Component
  onlyDirectories : Bool
deriving DecidableEq, Repr

namespace Glob

/-- The names of a pattern below its start. An empty one is a single empty name. -/
def namesOf (text : List Char) : List (List Char) :=
  let parts := Text.split (· = '/') text
  if text.isEmpty then [[]]
  else if parts.getLast? = some [] then parts.dropLast else parts

/-- Reads a pattern: first as a whole, then name by name. -/
def parse (pattern : String) : Except Problem Glob := do
  let text := pattern.toList
  let _ ← tokens text
  let absolute := text.head? = some '/'
  let names := namesOf (if absolute then text.drop 1 else text)
  let components ← names.mapM fun name ↦ (tokens name).map Component.ofTokens
  return {
    absolute
    components := collapse components
    onlyDirectories := Text.endsWith ['/'] text }

end Glob

end EventSchema
