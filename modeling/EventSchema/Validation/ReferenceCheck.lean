import EventSchema.Reference
import EventSchema.Text.EditDistance

/-!
# References that lead nowhere

What is wrong with a reference of a document, and what one that leads nowhere may have meant.
-/

set_option autoImplicit false

namespace EventSchema

namespace Pointer

/-- The first key of least distance to the segment, if that is at most half the longer length. -/
def closestKey? (segment : String) (keys : List String) : Option String :=
  let distance (key : String) : Nat := Text.editDistance segment.toList key.toList
  let isClose (key : String) : Bool :=
    0 < distance key && distance key ≤ max segment.utf8ByteSize key.utf8ByteSize / 2
  (keys.filter isClose).foldl
    (fun best key ↦ match best with
      | some other => if distance key < distance other then some key else some other
      | none => some key) none

/-- The segments with the first missing one replaced by the closest key that is there. -/
def repairSegments? (value : Json) : List String → Option (List String)
  | [] => none
  | segment :: rest =>
    match value with
    | .object members =>
      match Entries.get? members segment with
      | some next => (repairSegments? next rest).map (segment :: ·)
      | none => (closestKey? segment (Entries.keys members)).map (· :: rest)
    | _ => none

def repair? (pointer : Pointer) (root : Json) : Option Pointer :=
  (repairSegments? root pointer.segments).map Pointer.mk

end Pointer

/-- What is wrong with a reference inside a document. -/
inductive ReferenceProblem where
  | unsupported
  | unresolvable (suggested : Option Pointer)
deriving DecidableEq, Repr

/-- A reference to another file is not followed; one into the document must lead somewhere. -/
def ReferenceProblem.of? (root : Json) (text : String) : Option ReferenceProblem :=
  if Reference.isRelative text.toList then none
  else if text.toList.head? ≠ some '#' then some .unsupported
  else match Pointer.parse? text with
    | none => some .unsupported
    | some pointer =>
      match pointer.lookup root with
      | some _ => none
      | none => some (.unresolvable (pointer.repair? root))

end EventSchema
