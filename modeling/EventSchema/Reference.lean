import EventSchema.Path
import EventSchema.Pointer

/-!
# References

A reference is a pointer into its own document, or a relative path to another one with an optional
pointer behind `#`. Seen from the document that holds it, it denotes a location: a document and a
place in it.
-/

set_option autoImplicit false

namespace EventSchema

inductive Reference where
  | internal (pointer : Pointer)
  | external (file : Path) (pointer : Pointer)
deriving DecidableEq, Repr

/-- A place in the document under a normal path. -/
structure Location where
  file : Path
  pointer : Pointer
deriving DecidableEq, Repr

def Location.text (location : Location) : String := location.file.text ++ location.pointer.text

namespace Reference

/-- A path is taken as relative only with `./` or `../` in front. -/
def isRelative (text : List Char) : Bool :=
  Text.startsWith ['.', '/'] text || Text.startsWith ['.', '.', '/'] text

def parseChars? (text : List Char) : Option Reference :=
  if text.head? = some '#' then (Pointer.parseChars? text).map .internal
  else if isRelative text then
    let (file, fragment) := (Text.splitOnce '#' text).getD (text, [])
    (Pointer.parseChars? fragment).map (.external ⟨String.ofList file⟩)
  else none

def parse? (text : String) : Option Reference := parseChars? text.toList

/-- What the reference denotes in the document at a path. -/
def locate (reference : Reference) (current : Path) : Location :=
  match reference with
  | .internal pointer => ⟨current.normalize, pointer⟩
  | .external file pointer => ⟨(current.directory.join file).normalize, pointer⟩

end Reference

/-! ### References of a document -/

/-- A reference as written, and the place of its text. -/
structure PlacedReference where
  place : Pointer
  text : String
deriving DecidableEq, Repr

namespace Json

mutual

/-- The references below a place, in order. What a reference key holds is not searched further. -/
def references (place : Pointer) : Json → List PlacedReference
  | .object members => referencesOfMembers place members
  | .array items => referencesOfItems place 0 items
  | _ => []

def referencesOfMembers (place : Pointer) : List (String × Json) → List PlacedReference
  | [] => []
  | (key, .string text) :: rest =>
    (if key = "$ref" then [⟨place.push key, text⟩] else []) ++ referencesOfMembers place rest
  | (key, value) :: rest =>
    value.references (place.push key) ++ referencesOfMembers place rest

def referencesOfItems (place : Pointer) (index : Nat) : List Json → List PlacedReference
  | [] => []
  | item :: rest =>
    item.references (place.pushIndex index) ++ referencesOfItems place (index + 1) rest

end

/-- The texts of all references in a value. -/
def referenceTexts (value : Json) : List String := (value.references ⟨[]⟩).map PlacedReference.text

end Json

/-- The places that references met in the document at a path denote, without those of no known
form. -/
def Reference.locations (path : Path) (texts : List String) : List Location :=
  texts.filterMap fun text ↦ (Reference.parse? text).map (·.locate path)

end EventSchema
