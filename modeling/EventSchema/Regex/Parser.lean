import EventSchema.Regex

/-!
# The text of a regular expression

Alternatives of sequences of quantified atoms. A brace that opens no count stands for itself;
everything else that has no meaning makes the text invalid.
-/

set_option autoImplicit false

namespace EventSchema.Regex

structure Parser where
  rest : List Char
  /-- The number of groups opened so far. -/
  groups : Nat := 0
  names : List (List Char × Nat) := []

abbrev ParseM := StateT Parser Option

namespace Parser

def peek : ParseM (Option Char) := return (← get).rest.head?

def skip : ParseM Unit := modify fun s ↦ { s with rest := s.rest.tail }

def next : ParseM Char := do
  match (← get).rest with
  | [] => failure
  | c :: rest =>
    modify fun s ↦ { s with rest }
    return c

/-- Passes the text if it comes next. -/
def accept (text : List Char) : ParseM Bool := do
  let s ← get
  if text.isPrefixOf s.rest then
    set { s with rest := s.rest.drop text.length }
    return true
  else return false

/-- Passes the characters up to the mark, and the mark. -/
def upTo (mark : Char) : ParseM (List Char) := do
  match Text.splitOnce mark (← get).rest with
  | some (text, rest) =>
    modify fun s ↦ { s with rest }
    return text
  | none => failure

/-! ### Characters -/

def hexValue? (c : Char) : Option Nat :=
  if '0' ≤ c ∧ c ≤ '9' then some (c.toNat - 48)
  else if 'a' ≤ c ∧ c ≤ 'f' then some (c.toNat - 87)
  else if 'A' ≤ c ∧ c ≤ 'F' then some (c.toNat - 55)
  else none

def charOf (digits : List Char) : ParseM Char := do
  let values ← (digits.mapM hexValue? : Option (List Nat))
  let code := values.foldl (fun n digit ↦ n * 16 + digit) 0
  if values.isEmpty || !code.isValidChar then failure
  return Char.ofNat code

/-- The character written by so many hexadecimal digits, or by digits in braces. -/
def hexChar (count : Nat) : ParseM Char := do
  if ← accept ['{'] then
    charOf (← upTo '}')
  else do
    let digits := (← get).rest.take count
    if digits.length < count then failure
    modify fun s ↦ { s with rest := s.rest.drop count }
    charOf digits

/-- The set or the character that an escape stands for. -/
def escapedSet : ParseM CharSet := do
  let c ← next
  match c with
  | 'd' => return .digits
  | 'D' => return { CharSet.digits with negated := true }
  | 'w' => return .wordChars
  | 'W' => return { CharSet.wordChars with negated := true }
  | 's' => return .blanks
  | 'S' => return { CharSet.blanks with negated := true }
  | 'n' => return .single '\n'
  | 't' => return .single '\t'
  | 'r' => return .single '\r'
  | 'f' => return .single (Char.ofNat 12)
  | 'v' => return .single (Char.ofNat 11)
  | 'a' => return .single (Char.ofNat 7)
  | 'e' => return .single (Char.ofNat 27)
  | 'c' => do
    let letter ← next
    if Text.isAsciiLetter letter then return .single (Char.ofNat (letter.toNat % 32)) else failure
  | 'x' => return .single (← hexChar 2)
  | 'u' => return .single (← hexChar 4)
  | 'U' => return .single (← hexChar 8)
  | _ =>
    if Text.isAsciiLetter c || Text.isAsciiDigit c || 128 ≤ c.toNat then failure
    else return .single c

/-! ### Sets in brackets -/

def onlyChar? (set : CharSet) : Option Nat :=
  match set.negated, set.ranges with
  | false, [(first, last)] => if first = last then some first else none
  | _, _ => none

/-- A member of a set: an escape or a character. -/
def member : ParseM CharSet := do
  let c ← next
  if c = '\\' then escapedSet else return .single c

/-- A member, or a range between two characters. A dash in front of the end stands for itself. -/
def memberOrRange : ParseM CharSet := do
  let first ← member
  match (← get).rest with
  | '-' :: c :: _ =>
    if c = ']' then return first
    skip
    let last ← member
    match onlyChar? first, onlyChar? last with
    | some a, some b => if a ≤ b then return { ranges := [(a, b)] } else failure
    | _, _ => failure
  | _ => return first

def members : Nat → ParseM (List CharSet)
  | 0 => failure
  | fuel + 1 => do
    if ← accept [']'] then return []
    let first ← memberOrRange
    return first :: (← members fuel)

/-- A set, behind its opening bracket. A closing one that comes at once belongs to the set. -/
def bracketSet (fuel : Nat) : ParseM Regex := do
  let negated ← accept ['^']
  let first ← if ← accept [']'] then pure [CharSet.single ']'] else pure []
  return .one (first ++ (← members fuel)) negated

/-! ### Expressions -/

/-- Passes digits and gives their value. -/
def number? : ParseM (Option Nat) := do
  let s ← get
  let digits := s.rest.takeWhile Text.isAsciiDigit
  set { s with rest := s.rest.drop digits.length }
  return Text.digits? digits

/-- The counts behind an opening brace, with nothing taken if there are none. -/
def counts? : ParseM (Option (Nat × Option Nat)) := do
  let s ← get
  let least ← number?
  if ← accept ['}'] then
    match least with
    | some count => return some (count, some count)
    | none =>
      set s
      return none
  if !(← accept [',']) then
    set s
    return none
  let most ← number?
  if ← accept ['}'] then return some (least.getD 0, most)
  set s
  return none

def quantifier? : ParseM (Option (Nat × Option Nat)) := do
  match ← peek with
  | some '?' => skip; return some (0, some 1)
  | some '*' => skip; return some (0, none)
  | some '+' => skip; return some (1, none)
  | some '{' =>
    let s ← get
    skip
    match ← counts? with
    | some range => return some range
    | none =>
      set s
      return none
  | _ => return none

def isRepeatable : Regex → Bool
  | .empty | .look .. => false
  | _ => true

def quantified (atom : Regex) : ParseM Regex := do
  match ← quantifier? with
  | none => return atom
  | some (least, most) =>
    if !isRepeatable atom || most.any (· < least) then failure
    -- Which of several matches is preferred does not matter to a search.
    if !(← accept ['?']) then discard (accept ['+'])
    return .repeated atom least most

def escaped : ParseM Regex := do
  match ← peek with
  | some 'b' => skip; return .wordBoundary false
  | some 'B' => skip; return .wordBoundary true
  | some 'A' => skip; return .textStart
  | some 'z' => skip; return .textEnd
  | some 'k' =>
    skip
    if !(← accept ['<']) then failure
    let name ← upTo '>'
    match (← get).names.lookup name with
    | some number => return .backreference number
    | none => failure
  | some c =>
    if Text.isAsciiDigit c then
      match ← number? with
      | some 0 | none => failure
      | some number => return .backreference number
    else return .one [← escapedSet] false
  | none => failure

mutual

def alternatives : Nat → ParseM Regex
  | 0 => failure
  | fuel + 1 => do
    let first ← sequence fuel
    if ← accept ['|'] then return .alt first (← alternatives fuel) else return first

def sequence : Nat → ParseM Regex
  | 0 => failure
  | fuel + 1 => do
    match ← peek with
    | none | some '|' | some ')' => return .empty
    | _ =>
      let first ← quantified (← atom fuel)
      let rest ← sequence fuel
      return if rest = .empty then first else .seq first rest

def atom : Nat → ParseM Regex
  | 0 => failure
  | fuel + 1 => do
    match ← peek with
    | some '.' => skip; return .one [.inLine] false
    | some '^' => skip; return .textStart
    | some '$' => skip; return .textEnd
    | some '(' => skip; parenthesised fuel
    | some '[' => skip; bracketSet fuel
    | some '\\' => skip; escaped
    | some '?' | some '*' | some '+' => return .empty
    | some c => skip; return .one [.single c] false
    | none => failure

/-- What stands behind an opening parenthesis. -/
def parenthesised : Nat → ParseM Regex
  | 0 => failure
  | fuel + 1 => do
    let body : ParseM Regex := do
      let inner ← alternatives fuel
      if ← accept [')'] then return inner else failure
    let numbered (name : Option (List Char)) : ParseM Regex := do
      let number := (← get).groups + 1
      modify fun s ↦ { s with
        groups := number
        names := match name with
          | some name => (name, number) :: s.names
          | none => s.names }
      return .group number (← body)
    if ← accept ['?', ':'] then body
    else if ← accept ['?', '='] then return .look false false (← body)
    else if ← accept ['?', '!'] then return .look false true (← body)
    else if ← accept ['?', '<', '='] then return .look true false (← body)
    else if ← accept ['?', '<', '!'] then return .look true true (← body)
    else if ← accept ['?', 'P', '<'] then numbered (← upTo '>')
    else if ← accept ['?', '<'] then numbered (← upTo '>')
    else if ← accept ['?'] then failure
    else numbered none

end

end Parser

/-- Reads an expression; none if the text is not one. -/
def parse? (text : String) : Option Regex := do
  let chars := text.toList
  let (regex, last) ← (Parser.alternatives (4 * chars.length + 8)).run { rest := chars }
  if last.rest.isEmpty && regex.highestBackreference ≤ last.groups then some regex else none

end EventSchema.Regex
