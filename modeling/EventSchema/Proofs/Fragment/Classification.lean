import EventSchema.Fragment
import EventSchema.Proofs.Entries
import EventSchema.Proofs.Json.Views

/-!
# The parts of a classified object

What classification takes from an object is the classified value under a key: `partOf`,
`membersOf` and `propertiesOf` are look-ups, and lists are classified item by item. A value is a
reference if it has a string under `$ref` (`ofJson_eq_reference_iff`).
-/

set_option autoImplicit false

namespace EventSchema

namespace Fragment

theorem partOf_eq (wanted : String) (members : Fields) :
    partOf wanted members = (Entries.get? members wanted).map ofJson := by
  induction members with
  | nil => rfl
  | cons entry rest ih =>
    rw [partOf, Entries.get?_cons, ih]
    split <;> rfl

theorem membersOf_eq (members : Fields) :
    membersOf members = ((Entries.get? members "allOf").map itemsIn).getD [] := by
  induction members with
  | nil => rfl
  | cons entry rest ih =>
    rw [membersOf, Entries.get?_cons, ih]
    split <;> rfl

theorem propertiesOf_eq (members : Fields) :
    propertiesOf members = (Entries.get? members "properties").bind fragmentsIn := by
  induction members with
  | nil => rfl
  | cons entry rest ih =>
    rw [propertiesOf, Entries.get?_cons, ih]
    split <;> rfl

theorem ofItems_eq_map (items : List Json) : ofItems items = items.map ofJson := by
  induction items with
  | nil => rfl
  | cons item rest ih => rw [ofItems, ih, List.map_cons]

theorem ofMembers_eq_map (members : List (String × Json)) :
    ofMembers members = members.map fun entry ↦ (entry.1, ofJson entry.2) := by
  induction members with
  | nil => rfl
  | cons entry rest ih => rw [ofMembers, ih, List.map_cons]

/-- The properties of an object are classified from the object under the keyword. -/
theorem exists_object_of_propertiesOf {members : Fields} {properties : Properties}
    (hproperties : propertiesOf members = some properties) :
    ∃ entries, Entries.get? members "properties" = some (.object entries) ∧
      properties = entries.map fun entry ↦ (entry.1, ofJson entry.2) := by
  rw [propertiesOf_eq] at hproperties
  obtain ⟨map, hmap, hentries⟩ := Option.bind_eq_some_iff.mp hproperties
  cases map with
  | object entries =>
    rw [fragmentsIn, Option.some_inj, ofMembers_eq_map] at hentries
    exact ⟨entries, hmap, hentries.symm⟩
  | null | bool _ | number _ | string _ | array _ => exact absurd hentries (by simp [fragmentsIn])

theorem exists_of_partOf {wanted : String} {members : Fields} {fragment : Fragment}
    (hpart : partOf wanted members = some fragment) :
    ∃ value, (wanted, value) ∈ members ∧ fragment = ofJson value := by
  rw [partOf_eq] at hpart
  obtain ⟨value, hget, rfl⟩ := Option.map_eq_some_iff.mp hpart
  exact ⟨value, Entries.mem_of_get? hget, rfl⟩

theorem exists_of_propertiesOf {members : Fields} {properties : Properties}
    (hproperties : propertiesOf members = some properties) {name : String} {fragment : Fragment}
    (hmem : (name, fragment) ∈ properties) :
    ∃ entries value, ("properties", Json.object entries) ∈ members ∧ (name, value) ∈ entries ∧
      fragment = ofJson value := by
  obtain ⟨entries, hmap, rfl⟩ := exists_object_of_propertiesOf hproperties
  obtain ⟨⟨key, value⟩, hentry, hpair⟩ := List.mem_map.mp hmem
  obtain ⟨rfl, rfl⟩ := Prod.mk.inj hpair
  exact ⟨entries, value, Entries.mem_of_get? hmap, hentry, rfl⟩

theorem exists_of_choicesOf {members : Fields} {choices : List Json}
    (hchoices : choicesOf members = some choices) : ("enum", Json.array choices) ∈ members := by
  obtain ⟨value, hget, harray⟩ := Option.bind_eq_some_iff.mp hchoices
  cases value <;> simp [Json.asArray?] at harray
  exact harray ▸ Entries.mem_of_get? hget

theorem exists_of_mem_membersOf {members : Fields} {fragment : Fragment}
    (hmem : fragment ∈ membersOf members) :
    ∃ items value, ("allOf", Json.array items) ∈ members ∧ value ∈ items ∧
      fragment = ofJson value := by
  rw [membersOf_eq] at hmem
  cases hget : Entries.get? members "allOf" with
  | none => exact absurd hmem (by simp [hget])
  | some list =>
    rw [hget, Option.map_some, Option.getD_some] at hmem
    cases list with
    | array items =>
      rw [itemsIn, ofItems_eq_map] at hmem
      obtain ⟨value, hvalue, rfl⟩ := List.mem_map.mp hmem
      exact ⟨items, value, Entries.mem_of_get? hget, hvalue, rfl⟩
    | null | bool _ | number _ | string _ | object _ => exact absurd hmem (by simp [itemsIn])

/-! ### Shapes -/

theorem get?_of_shape {members : Fields} {target : String}
    (hshape : shape members = .reference target) :
    Entries.get? members "$ref" = some (.string target) := by
  unfold shape at hshape
  split at hshape
  · rename_i text htext
    obtain ⟨value, hget, hvalue⟩ := Option.bind_eq_some_iff.mp htext
    cases value <;> simp_all [Json.asString?]
  · repeat (split at hshape <;> try simp at hshape)

/-- Whether objects of the shape are references or compositions. -/
def Shape.isNode : Shape → Bool
  | .reference _ | .composition => true
  | .object | .array | .primitive _ | .any => false

theorem isUnresolvedNode_eq (members : Fields) :
    Json.isUnresolvedNode members = (shape members).isNode := by
  unfold Json.isUnresolvedNode shape
  cases (Entries.get? members "$ref").bind Json.asString? with
  | some target => rfl
  | none =>
    cases ((Entries.get? members "allOf").bind Json.asArray?).isSome with
    | true => rfl
    | false =>
      simp only [Bool.false_eq_true, if_false]
      split
      · rfl
      · rfl
      · split <;> rfl
      · rfl

theorem isUnresolvedNode_of_shape {members : Fields} (hshape : shape members = .any) :
    Json.isUnresolvedNode members = false := by
  rw [isUnresolvedNode_eq, hshape]
  rfl

theorem isUnresolvedNode_of_composition {members : Fields} (hshape : shape members = .composition) :
    Json.isUnresolvedNode members = true := by
  rw [isUnresolvedNode_eq, hshape]
  rfl

theorem ofJson_eq_reference_iff {value : Json} {text : String} :
    ofJson value = .reference text ↔ value.reference? = some text := by
  cases value with
  | object members =>
    rw [ofJson, Json.reference?, Json.get?]
    constructor
    · intro hreference
      split at hreference
      all_goals cases hreference
      rw [get?_of_shape ‹_›]
      rfl
    · intro hreference
      have hshape : shape members = .reference text := by
        unfold shape
        rw [hreference]
      rw [hshape]
  | null | bool _ | number _ | string _ | array _ => simp [ofJson, Json.reference?, Json.get?]

theorem ofJson_eq_composition {members : Fields} {items : List Json}
    (hreference : (Json.object members).reference? = none)
    (hitems : (Json.object members).allOf? = some items) :
    ofJson (.object members) = .composition (items.map ofJson) := by
  rw [Json.reference?, Json.get?] at hreference
  rw [Json.allOf?, Json.get?] at hitems
  have hshape : shape members = .composition := by
    unfold shape
    rw [hreference, hitems]
    rfl
  obtain ⟨value, hget, hvalue⟩ := Option.bind_eq_some_iff.mp hitems
  obtain rfl := Json.asArray?_eq_some_iff.mp hvalue
  rw [ofJson, hshape]
  change composition (membersOf members) = _
  rw [membersOf_eq, hget, Option.map_some, Option.getD_some, itemsIn, ofItems_eq_map]

theorem ofJson_eq_any {value inner : Json} (hvalue : ofJson value = .any inner) :
    inner = value ∧ ∀ members, value = .object members → Json.isUnresolvedNode members = false := by
  cases value with
  | object members =>
    rw [ofJson] at hvalue
    split at hvalue
    all_goals cases hvalue
    refine ⟨rfl, fun other hother ↦ ?_⟩
    cases hother
    exact isUnresolvedNode_of_shape ‹_›
  | null | bool _ | number _ | string _ | array _ =>
    rw [ofJson] at hvalue
    · cases hvalue
      exact ⟨rfl, fun other hother ↦ by cases hother⟩
    · simp

end Fragment

/-! ### Weights of parts -/

namespace Json

theorem weight_lt_of_item {items : List Json} {item : Json} (hmem : item ∈ items) :
    item.weight < (array items).weight := by
  rw [weight, Nat.lt_succ_iff]
  induction items with
  | nil => exact absurd hmem List.not_mem_nil
  | cons first rest ih =>
    rw [weightOfItems]
    rcases List.mem_cons.mp hmem with rfl | hmem
    · exact Nat.le_add_right _ _
    · exact Nat.le_trans (ih hmem) (Nat.le_add_left _ _)

theorem weight_lt_of_member {members : Fields} {key : String} {part : Json}
    (hmem : (key, part) ∈ members) : part.weight < (object members).weight := by
  rw [weight, Nat.lt_succ_iff]
  induction members with
  | nil => exact absurd hmem List.not_mem_nil
  | cons first rest ih =>
    rw [weightOfMembers]
    rcases List.mem_cons.mp hmem with rfl | hmem
    · exact Nat.le_add_right _ _
    · exact Nat.le_trans (ih hmem) (Nat.le_add_left _ _)

end Json

end EventSchema
