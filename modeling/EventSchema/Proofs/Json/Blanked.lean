import EventSchema.Proofs.Fragment.Classification
import EventSchema.Proofs.Json.Distinct
import Mathlib.Data.List.Forall2

/-!
# Values with blanks

A value is blanked by putting null in place of some of its empty objects (`Blanked`). Such a value
has the same strings and arrays, and objects of the same keys, so a look-up in it finds what a
look-up in the first value finds, blanked.
-/

set_option autoImplicit false

namespace EventSchema.Json

/-- No key is there twice, and the second value is the first with null in place of some empty
objects, and perhaps with its members in another order. -/
inductive Blanked : Json → Json → Prop
  | blank : Blanked (.object []) .null
  | null : Blanked .null .null
  | bool (value : Bool) : Blanked (.bool value) (.bool value)
  | number (value : Number) : Blanked (.number value) (.number value)
  | string (value : String) : Blanked (.string value) (.string value)
  | array {items items' : List Json} (hitems : List.Forall₂ Blanked items items') :
    Blanked (.array items) (.array items')
  | object {members members' : Fields} (hleft : Entries.Unique members)
    (hright : Entries.Unique members') (hget : ∀ key,
      Option.Rel Blanked (Entries.get? members key) (Entries.get? members' key)) :
    Blanked (.object members) (.object members')

theorem blanked_object_iff {members members' : Fields} :
    Blanked (.object members) (.object members') ↔ Entries.Alike Blanked members members' := by
  constructor
  · rintro ⟨⟩
    exact ⟨‹_›, ‹_›, ‹_›⟩
  · rintro ⟨hleft, hright, hget⟩
    exact .object hleft hright hget

theorem blanked_strings (names : List String) :
    Blanked (.array (names.map .string)) (.array (names.map .string)) := by
  refine .array (List.forall₂_same.mpr fun item hitem ↦ ?_)
  obtain ⟨name, -, rfl⟩ := List.mem_map.mp hitem
  exact .string name

namespace Blanked

variable {value value' : Json}

theorem get? (hblanked : value.Blanked value') (key : String) :
    Option.Rel Blanked (value.get? key) (value'.get? key) := by
  cases hblanked with
  | object hleft hright hget => exact hget key
  | _ => exact .none

theorem asString? (hblanked : value.Blanked value') : value'.asString? = value.asString? := by
  cases hblanked <;> rfl

theorem asArray? (hblanked : value.Blanked value') :
    Option.Rel (List.Forall₂ Blanked) value.asArray? value'.asArray? := by
  cases hblanked with
  | array hitems => exact .some hitems
  | _ => exact .none

theorem asStrings? (hblanked : value.Blanked value') : value'.asStrings? = value.asStrings? := by
  cases hblanked with
  | array hitems =>
    change List.mapM _ _ = List.mapM _ _
    induction hitems with
    | nil => rfl
    | cons hfirst _ ih => rw [List.mapM_cons, List.mapM_cons, hfirst.asString?, ih]
  | _ => rfl

end Blanked

/-- Every item of a blanked array is an item of the array before, blanked, and the other way
round. -/
theorem exists_item_of_blanked {items items' : List Json}
    (hitems : List.Forall₂ Blanked items items') :
    (∀ item ∈ items, ∃ item' ∈ items', item.Blanked item') ∧
      ∀ item' ∈ items', ∃ item ∈ items, item.Blanked item' := by
  induction hitems with
  | nil => simp
  | cons hfirst _ ih =>
    constructor
    · refine List.forall_mem_cons.mpr ⟨⟨_, List.mem_cons_self, hfirst⟩, fun item hmem ↦ ?_⟩
      obtain ⟨item', hmem', hitem⟩ := ih.1 item hmem
      exact ⟨item', List.mem_cons_of_mem _ hmem', hitem⟩
    · refine List.forall_mem_cons.mpr ⟨⟨_, List.mem_cons_self, hfirst⟩, fun item' hmem' ↦ ?_⟩
      obtain ⟨item, hmem, hitem⟩ := ih.2 item' hmem'
      exact ⟨item, List.mem_cons_of_mem _ hmem, hitem⟩

/-- No key is there twice on either side. The induction is on the weight of the value before. -/
theorem Blanked.distinct {value value' : Json} (hblanked : value.Blanked value') :
    value.Distinct ∧ value'.Distinct := by
  induction hweight : value.weight using Nat.strongRecOn generalizing value value' with
  | ind weight ih =>
    cases hblanked with
    | blank => exact ⟨.empty, .null⟩
    | null => exact ⟨.null, .null⟩
    | bool value => exact ⟨.bool value, .bool value⟩
    | number value => exact ⟨.number value, .number value⟩
    | string value => exact ⟨.string value, .string value⟩
    | @array items items' hitems =>
      have hparts (item item' : Json) (hmem : item ∈ items) (hitem : item.Blanked item') :
          item.Distinct ∧ item'.Distinct :=
        ih item.weight (hweight ▸ weight_lt_of_item hmem) hitem rfl
      obtain ⟨hleft, hright⟩ := exists_item_of_blanked hitems
      constructor
      · refine .array fun item hmem ↦ ?_
        obtain ⟨item', -, hitem⟩ := hleft item hmem
        exact (hparts item item' hmem hitem).1
      · refine .array fun item' hmem' ↦ ?_
        obtain ⟨item, hmem, hitem⟩ := hright item' hmem'
        exact (hparts item item' hmem hitem).2
    | @object members members' hleft hright hget =>
      have halike : Entries.Alike Blanked members members' := ⟨hleft, hright, hget⟩
      have hparts (key : String) (member member' : Json) (hmem : (key, member) ∈ members)
          (hmember : member.Blanked member') : member.Distinct ∧ member'.Distinct :=
        ih member.weight (hweight ▸ weight_lt_of_member hmem) hmember rfl
      constructor
      · refine .object hleft fun (key, member) hmem ↦ ?_
        obtain ⟨member', -, hmember⟩ := halike.exists_right_of_mem hmem
        exact (hparts key member member' hmem hmember).1
      · refine .object hright fun (key, member') hmem' ↦ ?_
        obtain ⟨member, hmem, hmember⟩ := halike.exists_left_of_mem hmem'
        exact (hparts key member member' hmem hmember).2

end EventSchema.Json
