import EventSchema.Json
import Mathlib.Data.Option.Basic

/-!
# Views of values

A view finds something in a value exactly if the value is of its kind.
-/

set_option autoImplicit false

namespace EventSchema.Json

variable {value : Json}

theorem get?_eq_some_iff {key : String} {member : Json} : value.get? key = some member ↔
    ∃ members, value = .object members ∧ Entries.get? members key = some member := by
  cases value <;> simp [get?]

theorem asObject?_eq_some_iff {members : Fields} :
    value.asObject? = some members ↔ value = .object members := by
  cases value <;> simp [asObject?]

theorem asArray?_eq_some_iff {items : List Json} :
    value.asArray? = some items ↔ value = .array items := by
  cases value <;> simp [asArray?]

theorem asString?_eq_some_iff {text : String} :
    value.asString? = some text ↔ value = .string text := by
  cases value <;> simp [asString?]

theorem asStrings?_eq_some_iff {names : List String} :
    value.asStrings? = some names ↔ value = .array (names.map .string) := by
  rw [asStrings?, Option.bind_eq_some_iff]
  simp only [asArray?_eq_some_iff]
  have hitems (items : List Json) :
      items.mapM asString? = some names ↔ items = names.map .string := by
    induction items generalizing names with
    | nil => cases names <;> simp
    | cons item rest ih =>
      rw [List.mapM_cons]
      cases names <;> cases item <;>
        simp [asString?, Option.bind_eq_some_iff, ih, and_assoc, and_comm]
  constructor
  · rintro ⟨items, rfl, hstrings⟩
    rw [(hitems items).mp hstrings]
  · rintro rfl
    exact ⟨_, rfl, (hitems _).mpr rfl⟩

end EventSchema.Json
