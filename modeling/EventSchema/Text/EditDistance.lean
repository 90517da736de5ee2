/-!
# Edit distance

The least number of insertions, deletions and replacements of single characters that turn one text
into the other. A row holds the distances of one initial part of the first text to all initial
parts of the second.
-/

set_option autoImplicit false

namespace EventSchema.Text

/-- The rest of a row: `left` is the distance before the present place, and the row above starts
with the distance diagonal to it. -/
def nextRow (c : Char) (left : Nat) : List Char → List Nat → List Nat
  | d :: text, diagonal :: above :: row =>
    let here := min (min (left + 1) (above + 1)) (if c = d then diagonal else diagonal + 1)
    here :: nextRow c here text (above :: row)
  | _, _ => []

/-- The row for one more character of the first text. -/
def extendRow (second : List Char) (row : List Nat) (c : Char) : List Nat :=
  let left := row.headD 0 + 1
  left :: nextRow c left second row

def editDistance (first second : List Char) : Nat :=
  (first.foldl (extendRow second) (List.range (second.length + 1))).getLastD 0

end EventSchema.Text
