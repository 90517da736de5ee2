import EventSchema.Fragment

/-!
# Merging compositions

The members of an `allOf` become one object schema. A property is the one of the last member that
declares it, at the place of its first declaration; the required names are united in order of first
occurrence; further properties are those of the last member that declares them.
-/

set_option autoImplicit false

namespace EventSchema.Fragment

/-- Adds the names that are not yet there. -/
def unite (names more : List String) : List String :=
  more.foldl (fun names name ↦ if name ∈ names then names else names ++ [name]) names

/-- What has been merged so far. -/
structure Merged where
  properties : Properties := []
  required : List String := []
  additional : Option Fragment := none

namespace Merged

def add (merged : Merged) (fragment : Fragment) : Merged where
  properties := merged.properties.extend fragment.properties
  required := unite merged.required fragment.required
  additional := fragment.additional?.or merged.additional

def toFragment (merged : Merged) : Fragment :=
  .object (some merged.properties) (some merged.required) merged.additional []

end Merged

/-- The object schema that stands for all the members at once. -/
def mergeAllOf (members : List Fragment) : Fragment :=
  (members.foldl Merged.add {}).toFragment

end EventSchema.Fragment
