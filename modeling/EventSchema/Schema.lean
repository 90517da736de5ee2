import EventSchema.Schema.Keyword
import EventSchema.Schema.MetaSchema

/-!
# Schemas of draft 7

A schema is a value without violations of the schema of schemas. A value is checked keyword by
keyword, in the order in which a schema spells them; a reference hides the keywords beside it.

Every step of a check leads into a part of the schema, or of the value, or follows a reference to a
part of the root schema. A path of steps that meets the same part of the schema twice for the same
part of the value would go on for ever; without that, it has at most as many steps as there are
pairs of parts.
-/

set_option autoImplicit false

namespace EventSchema

namespace Schema

/-! ### References -/

/-- The bytes of a text in which some are written as percent signs and two digits. -/
def percentDecoded : List Char → List UInt8
  | [] => []
  | '%' :: a :: b :: rest =>
    match Regex.Parser.hexValue? a, Regex.Parser.hexValue? b with
    | some high, some low => UInt8.ofNat (high * 16 + low) :: percentDecoded rest
    | _, _ => 37 :: percentDecoded (a :: b :: rest)
  | c :: rest => (String.singleton c).toUTF8.toList ++ percentDecoded rest

def decode? (text : List Char) : Option (List Char) :=
  if text.contains '%' then
    (String.fromUTF8? ⟨(percentDecoded text).toArray⟩).map String.toList
  else some text

/-- Array positions of references have no sign and no leading zero. -/
def referenceStep (value : Json) (segment : String) : Option Json :=
  match value, segment.toList with
  | .array _, '+' :: _ | .array _, '0' :: _ :: _ => none
  | value, _ => Pointer.step value segment

/-- The part of the root schema that a reference denotes. -/
def target? (root : Json) (reference : String) : Option Json :=
  match reference.toList with
  | [] => some root
  | '#' :: fragment => do
    let pointer ← Pointer.parseChars? (← decode? fragment)
    pointer.segments.foldlM referenceStep root
  | _ => none

/-- The characters of a fragment that are written as bytes. -/
def isEncoded (c : Char) : Bool :=
  c.toNat ≤ 32 || 127 ≤ c.toNat || ['"', '<', '>', Char.ofNat 96].contains c

def upperHex (n : Nat) : Char := if n < 10 then Char.ofNat (48 + n) else Char.ofNat (55 + n)

def encodeChar (c : Char) : List Char :=
  if isEncoded c then
    (String.singleton c).toUTF8.toList.flatMap fun byte ↦
      ['%', upperHex (byte.toNat / 16), upperHex (byte.toNat % 16)]
  else [c]

/-- The reference as seen from a root schema without an identifier. -/
def absoluteReference (reference : String) : String :=
  "json-schema:///" ++ String.ofList (reference.toList.flatMap encodeChar)

/-! ### Checking -/

/-- Checks a value against a part of the root schema, with at most so many steps. -/
def checkWithin (root : Json) : Nat → Check
  | 0, _, _, _ => []
  | steps + 1, schema, value, place =>
    match schema with
    | .bool false => [⟨value, place, .nothingAllowed⟩]
    | .object keywords =>
      match Entries.get? keywords "$ref" with
      | some (.string reference) =>
        match target? root reference with
        | some target => checkWithin root steps target value place
        | none => [⟨.null, ⟨[]⟩, .unknownReference (absoluteReference reference)⟩]
      | _ =>
        keywords.flatMap fun (key, argument) ↦
          keywordViolations (checkWithin root steps) keywords key argument value place
    | _ => []

/-- The violations of a root schema by a value, in order. -/
def violationsOf (root value : Json) : List Violation :=
  checkWithin root (root.weight * (value.weight + 1) + 1) root value ⟨[]⟩

end Schema

/-- A value that satisfies the schema of schemas. -/
structure Schema where
  root : Json
  valid : Schema.violationsOf Schema.metaSchema root = []
deriving DecidableEq

namespace Schema

/-- Whether the identifier of a schema, if it has one, is complete. -/
def hasAbsoluteIdentifier (root : Json) : Bool :=
  match root.get? "$id" with
  | some (.string identifier) => Format.isUrl identifier.toList
  | _ => true

/-- Accepts a value as a schema, or gives the first reason why it is none. -/
def ofJson (root : Json) : Except Violation Schema :=
  if hasAbsoluteIdentifier root then
    match h : violationsOf metaSchema root with
    | [] => .ok ⟨root, h⟩
    | violation :: _ => .error violation
  else .error ⟨root, ⟨[]⟩, .relativeIdentifier⟩

def violations (schema : Schema) (value : Json) : List Violation := violationsOf schema.root value

def accepts (schema : Schema) (value : Json) : Bool := (schema.violations value).isEmpty

end Schema

end EventSchema
