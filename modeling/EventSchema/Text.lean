/-!
# Lists of characters

Splitting, joining and replacing on lists of characters.
-/

set_option autoImplicit false

namespace EventSchema.Text

/-- The parts between the characters that satisfy the test; there is always one. -/
def split (isBreak : Char → Bool) : List Char → List (List Char)
  | [] => [[]]
  | c :: rest =>
    if isBreak c then [] :: split isBreak rest
    else match split isBreak rest with
      | [] => [[c]]
      | part :: parts => (c :: part) :: parts

theorem split_ne_nil (isBreak : Char → Bool) (text : List Char) : split isBreak text ≠ [] := by
  cases text with
  | nil => simp [split]
  | cons c rest =>
    simp only [split]
    split
    · simp
    · split <;> simp

/-- The text before the first occurrence of the character, and the text after it. -/
def splitOnce (mark : Char) : List Char → Option (List Char × List Char)
  | [] => none
  | c :: rest =>
    if c = mark then some ([], rest)
    else (splitOnce mark rest).map fun (before, after) ↦ (c :: before, after)

def join (separator : List Char) : List (List Char) → List Char
  | [] => []
  | [part] => part
  | part :: parts => part ++ separator ++ join separator parts

def startsWith (start text : List Char) : Bool := start.isPrefixOf text

def endsWith (ending text : List Char) : Bool := ending.isSuffixOf text

/-- Whether the text contains the part. -/
def contains (part : List Char) : List Char → Bool
  | [] => part.isEmpty
  | c :: rest => part.isPrefixOf (c :: rest) || contains part rest

def isAsciiDigit (c : Char) : Bool := '0' ≤ c && c ≤ '9'

def isAsciiLetter (c : Char) : Bool := ('a' ≤ c && c ≤ 'z') || ('A' ≤ c && c ≤ 'Z')

def lowerAscii (c : Char) : Char := if 'A' ≤ c ∧ c ≤ 'Z' then Char.ofNat (c.toNat + 32) else c

/-- The number that a nonempty list of digits denotes. -/
def digits? (text : List Char) : Option Nat :=
  if text.isEmpty || !text.all isAsciiDigit then none
  else some (text.foldl (fun value c ↦ value * 10 + (c.toNat - 48)) 0)

end EventSchema.Text
