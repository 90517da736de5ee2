import EventSchema.Json
import EventSchema.Text

/-!
# JSON pointers

A pointer is a list of segments: object keys, or array positions in decimal. In its text a segment
follows a slash, with `~` written `~0` and `/` written `~1`.
-/

set_option autoImplicit false

namespace EventSchema

structure Pointer where
  segments : List String
deriving DecidableEq, Repr, Inhabited

namespace Pointer

def escapeChars : List Char → List Char
  | [] => []
  | '~' :: rest => '~' :: '0' :: escapeChars rest
  | '/' :: rest => '~' :: '1' :: escapeChars rest
  | c :: rest => c :: escapeChars rest

def unescapeChars : List Char → List Char
  | [] => []
  | '~' :: '0' :: rest => '~' :: unescapeChars rest
  | '~' :: '1' :: rest => '/' :: unescapeChars rest
  | c :: rest => c :: unescapeChars rest

theorem unescapeChars_escapeChars (segment : List Char) :
    unescapeChars (escapeChars segment) = segment := by
  fun_induction escapeChars segment with
  | case1 => rfl
  | case2 rest ih => simp [unescapeChars, ih]
  | case3 rest ih => simp [unescapeChars, ih]
  | case4 c rest hTilde hSlash ih =>
    rw [unescapeChars.eq_4 _ _ (by grind) (by grind), ih]

def escape (segment : String) : String := String.ofList (escapeChars segment.toList)

def textChars (pointer : Pointer) : List Char :=
  '#' :: pointer.segments.flatMap fun segment ↦ '/' :: escapeChars segment.toList

/-- The text of the pointer, from its `#` on. -/
def text (pointer : Pointer) : String := String.ofList pointer.textChars

/-- The text without the `#`, empty for the root. -/
def path (pointer : Pointer) : String := String.ofList pointer.textChars.tail

/-- One segment deeper. -/
def push (pointer : Pointer) (segment : String) : Pointer := ⟨pointer.segments ++ [segment]⟩

def pushIndex (pointer : Pointer) (index : Nat) : Pointer :=
  pointer.push (String.ofList (Nat.toDigits 10 index))

/-- Reads a pointer, with or without its `#`. The empty text is the root. -/
def parseChars? (text : List Char) : Option Pointer :=
  let body := match text with
    | '#' :: rest => rest
    | text => text
  match body with
  | [] => some ⟨[]⟩
  | '/' :: rest =>
    some ⟨(Text.split (· = '/') rest).map fun part ↦ String.ofList (unescapeChars part)⟩
  | _ => none

def parse? (text : String) : Option Pointer := parseChars? text.toList

/-- An array position: digits, perhaps after a plus sign, of a value below `2 ^ 64`. -/
def index? (segment : String) : Option Nat :=
  let digits := match segment.toList with
    | '+' :: rest => rest
    | text => text
  (Text.digits? digits).filter (· < Nat.pow 2 64)

/-- The part of a value that one segment leads to. -/
def step (value : Json) (segment : String) : Option Json :=
  match value with
  | .object members => Entries.get? members segment
  | .array items => (index? segment).bind fun i ↦ items[i]?
  | _ => none

def lookup (pointer : Pointer) (root : Json) : Option Json := pointer.segments.foldlM step root

end Pointer

end EventSchema
