import EventSchema.Fragment

/-!
# The weight of a fragment

The number of JSON nodes that a fragment stands for. Classifying a value adds no nodes, and an
object that is a reference or a composition weighs more than its fragment.
-/

set_option autoImplicit false

namespace EventSchema.Fragment

mutual

/-- The number of JSON nodes that the fragment stands for, at least. -/
def weight : Fragment → Nat
  | .any value => value.weight
  | .reference _ => 1
  | .composition members => weightOfItems members + 1
  | .primitive _ choices annotations =>
    Json.weightOfItems (choices.getD []) + Json.weightOfMembers annotations + 1
  | .array items annotations => weightOfPart items + Json.weightOfMembers annotations + 1
  | .object properties _ additional annotations =>
    weightOfProperties properties + weightOfPart additional + Json.weightOfMembers annotations + 1

def weightOfPart : Option Fragment → Nat
  | none => 0
  | some fragment => fragment.weight

def weightOfProperties : Option (List (String × Fragment)) → Nat
  | none => 0
  | some properties => weightOfMembers properties

def weightOfItems : List Fragment → Nat
  | [] => 0
  | fragment :: rest => fragment.weight + weightOfItems rest

def weightOfMembers : List (String × Fragment) → Nat
  | [] => 0
  | (_, fragment) :: rest => fragment.weight + weightOfMembers rest

end

theorem weight_choicesOf_add_le (members : Fields) :
    Json.weightOfItems ((choicesOf members).getD []) +
      Json.weightOfMembers (members.filter fun entry ↦ !isPrimitiveKeyword entry) ≤
      Json.weightOfMembers members := by
  induction members with
  | nil => simp [choicesOf, Json.weightOfMembers, Json.weightOfItems]
  | cons entry rest ih =>
    obtain ⟨key, value⟩ := entry
    by_cases hEnum : key = "enum"
    · subst hEnum
      cases value <;> simp_all [choicesOf, Entries.get?, isPrimitiveKeyword, Json.asArray?,
        Json.weightOfMembers, Json.weight, Json.weightOfItems] <;> omega
    · by_cases hType : key = "type" <;>
        simp_all [choicesOf, Entries.get?, isPrimitiveKeyword, Json.weightOfMembers] <;> omega

mutual

theorem weight_ofJson_le : ∀ value : Json, (ofJson value).weight ≤ value.weight
  | .object members => by
    have hObject := weight_objectParts_le members
    have hItems := weight_itemsPart_le members
    have hChoices := weight_choicesOf_add_le members
    have hMembers := weight_membersOf_le members
    simp only [ofJson]
    split
    · simp [weight, Json.weight]
    · simp only [weight, Json.weight]; omega
    · simp only [weight, Json.weight]; omega
    · simp only [weight, Json.weight]; omega
    · simp only [weight, Json.weight]; omega
    · simp [weight]
  | .null | .bool _ | .number _ | .string _ | .array _ => by simp [ofJson, weight]

theorem weight_objectParts_le : ∀ members : List (String × Json),
    weightOfProperties (propertiesOf members) +
      weightOfPart (partOf "additionalProperties" members) +
      Json.weightOfMembers (members.filter fun entry ↦ !isObjectKeyword entry) ≤
      Json.weightOfMembers members
  | [] => by simp [propertiesOf, partOf, weightOfProperties, weightOfPart]
  | (key, value) :: rest => by
    have ih := weight_objectParts_le rest
    have hValue := weight_ofJson_le value
    have hFragments := weight_fragmentsIn_le value
    rw [propertiesOf, partOf]
    by_cases hProperties : key = "properties"
    · subst hProperties
      by_cases hObject : value.isObject
      · simp_all [isObjectKeyword, Json.weightOfMembers]
        omega
      · have hNone : fragmentsIn value = none := by
          cases value <;> simp_all [fragmentsIn, Json.isObject]
        simp_all [isObjectKeyword, Json.weightOfMembers, weightOfProperties]
        omega
    · rw [if_neg hProperties]
      by_cases hAdditional : key = "additionalProperties"
      · simp_all [isObjectKeyword, weightOfPart, Json.weightOfMembers]
        omega
      · rw [if_neg hAdditional, List.filter_cons]
        split <;> simp only [Json.weightOfMembers] <;> omega

theorem weight_fragmentsIn_le : ∀ value : Json,
    weightOfProperties (fragmentsIn value) ≤ value.weight
  | .object members => by
    have := weight_ofMembers_le members
    simp only [fragmentsIn, weightOfProperties, Json.weight]; omega
  | .null | .bool _ | .number _ | .string _ | .array _ => by
    simp [fragmentsIn, weightOfProperties, Json.weight]

theorem weight_itemsPart_le : ∀ members : List (String × Json),
    weightOfPart (partOf "items" members) +
      Json.weightOfMembers (members.filter fun entry ↦ !isArrayKeyword entry) ≤
      Json.weightOfMembers members
  | [] => by simp [partOf, weightOfPart]
  | (key, value) :: rest => by
    have ih := weight_itemsPart_le rest
    have hValue := weight_ofJson_le value
    rw [partOf]
    by_cases hItems : key = "items"
    · simp_all [isArrayKeyword, weightOfPart, Json.weightOfMembers]; omega
    · rw [if_neg hItems, List.filter_cons]
      split <;> simp only [Json.weightOfMembers] <;> omega

theorem weight_membersOf_le : ∀ members : List (String × Json),
    weightOfItems (membersOf members) ≤ Json.weightOfMembers members
  | [] => by simp [membersOf, weightOfItems]
  | (key, value) :: rest => by
    have ih := weight_membersOf_le rest
    have hItems := weight_itemsIn_le value
    rw [membersOf, Json.weightOfMembers]
    split <;> omega

theorem weight_itemsIn_le : ∀ value : Json, weightOfItems (itemsIn value) ≤ value.weight
  | .array items => by
    have := weight_ofItems_le items
    simp only [itemsIn, Json.weight]; omega
  | .null | .bool _ | .number _ | .string _ | .object _ => by
    simp [itemsIn, weightOfItems]

theorem weight_ofItems_le : ∀ items : List Json,
    weightOfItems (ofItems items) ≤ Json.weightOfItems items
  | [] => by simp [ofItems, weightOfItems]
  | item :: rest => by
    have := weight_ofJson_le item
    have := weight_ofItems_le rest
    simp only [ofItems, weightOfItems, Json.weightOfItems]; omega

theorem weight_ofMembers_le : ∀ members : List (String × Json),
    weightOfMembers (ofMembers members) ≤ Json.weightOfMembers members
  | [] => by simp [ofMembers, weightOfMembers]
  | (_, value) :: rest => by
    have := weight_ofJson_le value
    have := weight_ofMembers_le rest
    simp only [ofMembers, weightOfMembers, Json.weightOfMembers]; omega

end

theorem weight_pos (fragment : Fragment) : 0 < fragment.weight := by
  cases fragment <;> simp [weight, Json.weight_pos]

theorem weight_membersOf_lt : ∀ members : Fields,
    ((Entries.get? members "allOf").bind Json.asArray?).isSome →
    weightOfItems (membersOf members) < Json.weightOfMembers members
  | [], h => by simp at h
  | (key, value) :: rest, h => by
    rw [membersOf, Json.weightOfMembers]
    by_cases hKey : key = "allOf"
    · cases value with
      | array items =>
        have := weight_ofItems_le items
        simp only [hKey, itemsIn, Json.weight, if_true]; omega
      | _ => simp [Entries.get?, hKey, Json.asArray?] at h
    · have := weight_membersOf_lt rest (by simpa [Entries.get?, hKey] using h)
      simp only [hKey, if_false]; omega

theorem weight_ofJson_lt {members : Fields} (h : Json.isUnresolvedNode members) :
    (ofJson (.object members)).weight < (Json.object members).weight := by
  have hPositive : 0 < Json.weightOfMembers members := by
    cases members with
    | nil => simp [Json.isUnresolvedNode] at h
    | cons entry rest => exact Nat.add_pos_left entry.2.weight_pos _
  simp only [ofJson, shape]
  cases hReference : (Entries.get? members "$ref").bind Json.asString? with
  | some target => simpa [weight, Json.weight] using hPositive
  | none =>
    have hAllOf : ((Entries.get? members "allOf").bind Json.asArray?).isSome := by
      simpa [Json.isUnresolvedNode, hReference] using h
    have := weight_membersOf_lt members hAllOf
    simp only [hAllOf, if_true, weight, Json.weight]; omega

end EventSchema.Fragment
