import EventSchema.Text

/-!
# Regular expressions

An expression relates a place in a text to the places where a match that starts there can end. The
ends are computed as a finite list, so that the search needs no backtracking.
-/

set_option autoImplicit false

namespace EventSchema

/-- The characters of some ranges, or all others. -/
structure CharSet where
  negated : Bool := false
  ranges : List (Nat × Nat) := []
deriving DecidableEq, Repr, Inhabited

namespace CharSet

def contains (set : CharSet) (c : Char) : Bool :=
  set.negated != set.ranges.any fun (first, last) ↦ first ≤ c.toNat && c.toNat ≤ last

def single (c : Char) : CharSet := { ranges := [(c.toNat, c.toNat)] }

def digits : CharSet := { ranges := [(48, 57)] }

def wordChars : CharSet := { ranges := [(65, 90), (97, 122), (48, 57), (95, 95)] }

def blanks : CharSet where
  ranges := [(0x20, 0x20), (9, 13), (0x2003, 0x2003), (0xFEFF, 0xFEFF), (0x2029, 0x2029),
    (0xA0, 0xA0)]

/-- All characters but the end of a line. -/
def inLine : CharSet := { negated := true, ranges := [(10, 10)] }

end CharSet

inductive Regex where
  | empty
  /-- A character of the set, or of one of several sets. -/
  | one (sets : List CharSet) (negated : Bool)
  | seq (first second : Regex)
  | alt (first second : Regex)
  | repeated (body : Regex) (least : Nat) (most : Option Nat)
  | group (number : Nat) (body : Regex)
  /-- What the group matched last. -/
  | backreference (number : Nat)
  | textStart
  | textEnd
  | wordBoundary (negated : Bool)
  /-- Looks at what follows, or at what precedes, without moving. -/
  | look (behind negated : Bool) (body : Regex)
deriving DecidableEq, Repr, Inhabited

namespace Regex

/-- A place in a text, and what the groups have matched so far. -/
structure Place where
  /-- The characters in front, the nearest first. -/
  before : List Char
  after : List Char
  groups : List (Nat × List Char) := []
deriving DecidableEq, Repr

namespace Place

def start (text : List Char) : Place := ⟨[], text, []⟩

def step (place : Place) : Option (Char × Place) :=
  match place.after with
  | [] => none
  | c :: rest => some (c, { place with before := c :: place.before, after := rest })

/-- Passes the given characters. -/
def pass (place : Place) : List Char → Option Place
  | [] => some place
  | c :: rest =>
    match place.step with
    | some (next, place) => if next = c then place.pass rest else none
    | none => none

/-- The place itself and all before it. -/
def andBefore (place : Place) : List Place := go place.groups place.before place.after
where
  go (groups : List (Nat × List Char)) : List Char → List Char → List Place
    | [], after => [⟨[], after, groups⟩]
    | c :: before, after => ⟨c :: before, after, groups⟩ :: go groups before (c :: after)

/-- The place itself and all after it. -/
def andAfter (place : Place) : List Place := go place.groups place.before place.after
where
  go (groups : List (Nat × List Char)) : List Char → List Char → List Place
    | before, [] => [⟨before, [], groups⟩]
    | before, c :: after => ⟨before, c :: after, groups⟩ :: go groups (c :: before) after

def isBoundary (place : Place) : Bool :=
  let isWord (c : Option Char) : Bool := c.any CharSet.wordChars.contains
  isWord place.before.head? != isWord place.after.head?

end Place

/-- The ends after exactly `count` steps. -/
def afterSteps (step : Place → List Place) : Nat → List Place → List Place
  | 0, places => places
  | count + 1, places => afterSteps step count (places.flatMap step).eraseDups

/-- The ends after at most `count` steps that all move. -/
def withinSteps (step : Place → List Place) : Nat → List Place → List Place
  | 0, places => places
  | count + 1, places =>
    (places ++ withinSteps step count
      ((places.flatMap fun place ↦
        (step place).filter fun next ↦ next.after.length < place.after.length).eraseDups)).eraseDups

/-- Where a match that starts at the place can end. -/
def ends : Regex → Place → List Place
  | empty, place => [place]
  | one sets negated, place =>
    match place.step with
    | some (c, next) => if sets.any (·.contains c) != negated then [next] else []
    | none => []
  | seq first second, place => (first.ends place).flatMap second.ends
  | alt first second, place => (first.ends place ++ second.ends place).eraseDups
  | repeated body least most, place =>
    let room := place.after.length
    let more := match most with
      | some most => min (most - least) room
      | none => room
    withinSteps body.ends more (afterSteps body.ends least [place])
  | group number body, place =>
    (body.ends place).map fun last ↦
      let matched := place.after.take (place.after.length - last.after.length)
      { last with groups := (number, matched) :: last.groups.filter (·.1 ≠ number) }
  | backreference number, place =>
    match (place.groups.lookup number).bind place.pass with
    | some next => [next]
    | none => []
  | textStart, place => if place.before.isEmpty then [place] else []
  | textEnd, place => if place.after.isEmpty then [place] else []
  | wordBoundary negated, place => if place.isBoundary != negated then [place] else []
  | look behind negated body, place =>
    let found :=
      if behind then
        place.andBefore.any fun first ↦
          (body.ends first).any fun last ↦ last.after.length = place.after.length
      else !(body.ends place).isEmpty
    if found != negated then [place] else []

/-- Whether some part of the text matches. -/
def matchesIn (regex : Regex) (text : String) : Bool :=
  (Place.start text.toList).andAfter.any fun place ↦ !(regex.ends place).isEmpty

/-- The highest group that is referred to. -/
def highestBackreference : Regex → Nat
  | empty | one .. | textStart | textEnd | wordBoundary _ => 0
  | seq first second | alt first second =>
    max first.highestBackreference second.highestBackreference
  | repeated body .. | group _ body | look _ _ body => body.highestBackreference
  | backreference number => number

end Regex

end EventSchema
