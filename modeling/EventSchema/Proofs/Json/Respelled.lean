import EventSchema.Fragment
import EventSchema.Proofs.Entries
import EventSchema.Proofs.Outcome
import EventSchema.Proofs.Pointer
import EventSchema.Reference

/-!
# Respelled references

A document may refer to a place of its own by a bare pointer, or by its own file name with the
pointer behind it. Some of the references of a value may be respelled from the first form to the
second (`Json.Respelled`). What a pointer leads to is then respelled likewise, unless the pointer
leads to the text of a reference itself (`lookup_of_respelled`).
-/

set_option autoImplicit false

namespace EventSchema

/-- The second text is the first one, or names the file of the document that the first one is a
pointer into. -/
inductive Reference.Respelled (name : String) : String → String → Prop
  | same (text : String) : Respelled name text text
  | byName {text : String} {pointer : Pointer} (hparse : parse? text = some (.internal pointer)) :
    Respelled name text ("./" ++ name ++ text)

/-- The second value is the first one with some references respelled by the file name. A string
under `$ref` is a reference, but among the properties of a typed object it is a property. -/
inductive Json.Respelled (name : String) : Json → Json → Prop
  | same (value : Json) : Respelled name value value
  | array {items items' : List Json} (hitems : List.Forall₂ (Respelled name) items items') :
    Respelled name (.array items) (.array items')
  | object {keys : List String} {members members' : Fields}
    (hmembers : Entries.Aligned (Respelled name) keys members members')
    (hdeclared : ∀ declared declared', Fragment.shape members = .object →
      Entries.get? members "properties" = some (.object declared) →
      Entries.get? members' "properties" = some (.object declared') →
      Entries.Aligned (Respelled name) (Entries.keys declared) declared declared') :
    Respelled name (.object members) (.object members')
  | reference {keys keys' : List String} {before before' after after' : Fields}
    {text text' : String} (hbefore : Entries.Aligned (Respelled name) keys before before')
    (hfirst : "$ref" ∉ keys) (htext : Reference.Respelled name text text')
    (hafter : Entries.Aligned (Respelled name) keys' after after') :
    Respelled name (.object (before ++ ("$ref", .string text) :: after))
      (.object (before' ++ ("$ref", .string text') :: after'))

namespace Json.Respelled

variable {name : String} {value value' : Json}

theorem asString? (hrespelled : value.Respelled name value') :
    value'.asString? = value.asString? := by
  cases hrespelled <;> rfl

theorem asArray? (hrespelled : value.Respelled name value') :
    Option.Rel (List.Forall₂ (Respelled name)) value.asArray? value'.asArray? := by
  cases hrespelled with
  | same =>
    cases value.asArray? with
    | none => exact .none
    | some items => exact .some (List.forall₂_same.mpr fun item _ ↦ .same item)
  | array hitems => exact .some hitems
  | _ => exact .none

theorem asStrings? (hrespelled : value.Respelled name value') :
    value'.asStrings? = value.asStrings? := by
  cases hrespelled with
  | array hitems =>
    change List.mapM _ _ = List.mapM _ _
    induction hitems with
    | nil => rfl
    | cons hfirst _ ih => rw [List.mapM_cons, List.mapM_cons, hfirst.asString?, ih]
  | _ => rfl

theorem isObject (hrespelled : value.Respelled name value') : value'.isObject = value.isObject := by
  cases hrespelled <;> rfl

/-- Objects are respelled to objects, and nothing else is. -/
theorem object_or (hrespelled : value.Respelled name value') :
    (∃ members members', value = .object members ∧ value' = .object members') ∨
      value.isObject = false ∧ value'.isObject = false := by
  cases hrespelled with
  | same =>
    cases value with
    | object members => exact .inl ⟨members, members, rfl, rfl⟩
    | _ => exact .inr ⟨rfl, rfl⟩
  | array => exact .inr ⟨rfl, rfl⟩
  | object | reference => exact .inl ⟨_, _, rfl, rfl⟩

end Json.Respelled

/-! ### Looking into respelled values -/

section Lookup

variable {name : String} {root root' : Json}

theorem rel_getElem? {α β : Type} {R : α → β → Prop} {xs : List α} {ys : List β}
    (hitems : List.Forall₂ R xs ys) (i : Nat) : Option.Rel R xs[i]? ys[i]? := by
  induction hitems generalizing i with
  | nil => exact .none
  | cons hfirst _ ih =>
    cases i with
    | zero => exact .some hfirst
    | succ i => exact ih i

/-- One segment leads to respelled values, or to the texts of a reference. -/
theorem step_of_respelled (hrespelled : root.Respelled name root') (segment : String) :
    Option.Rel (Json.Respelled name) (Pointer.step root segment) (Pointer.step root' segment) ∨
      ∃ text text', Pointer.step root segment = some (.string text) ∧
        Pointer.step root' segment = some (.string text') := by
  cases hrespelled with
  | same =>
    refine .inl ?_
    cases Pointer.step root segment with
    | none => exact .none
    | some value => exact .some (.same value)
  | array hitems =>
    refine .inl ?_
    rw [Pointer.step, Pointer.step]
    cases Pointer.index? segment with
    | none => exact .none
    | some i => exact rel_getElem? hitems i
  | object hmembers _ => exact .inl (hmembers.get? segment)
  | @reference _ _ before before' after after' text text' hbefore hfirst htext hafter =>
    rw [Pointer.step, Pointer.step, Entries.get?_append, Entries.get?_append, Entries.get?_cons,
      Entries.get?_cons]
    by_cases hkey : segment = "$ref"
    · subst hkey
      have hnone : Entries.get? before "$ref" = none :=
        Entries.get?_eq_none_iff.mpr (hbefore.keys_eq.1 ▸ hfirst)
      have hnone' : Entries.get? before' "$ref" = none :=
        Entries.get?_eq_none_iff.mpr (hbefore.keys_eq.2 ▸ hfirst)
      rw [hnone, hnone', if_pos rfl, if_pos rfl]
      exact .inr ⟨text, text', rfl, rfl⟩
    · rw [if_neg (Ne.symm hkey), if_neg (Ne.symm hkey)]
      exact .inl (rel_or (hbefore.get? segment) (hafter.get? segment))

/-- What a pointer leads to is respelled, unless it leads to the text of a reference that is. -/
theorem lookup_of_respelled (hrespelled : root.Respelled name root') (pointer : Pointer)
    (hkept : ∀ text, pointer.lookup root = some (.string text) →
      pointer.lookup root' = some (.string text)) :
    Option.Rel (Json.Respelled name) (pointer.lookup root) (pointer.lookup root') := by
  obtain ⟨segments⟩ := pointer
  induction segments generalizing root root' with
  | nil => exact .some hrespelled
  | cons segment rest ih =>
    rw [Pointer.lookup_cons, Pointer.lookup_cons] at hkept ⊢
    rcases step_of_respelled hrespelled segment with hstep | ⟨text, text', htext, htext'⟩
    · generalize Pointer.step root segment = value at hkept hstep ⊢
      generalize Pointer.step root' segment = value' at hkept hstep ⊢
      cases hstep with
      | none => exact .none
      | some hvalue => exact ih hvalue hkept
    · rw [htext, htext'] at hkept ⊢
      cases rest with
      | nil =>
        cases hkept text rfl
        exact .some (.same _)
      | cons next more => exact .none

end Lookup

end EventSchema
