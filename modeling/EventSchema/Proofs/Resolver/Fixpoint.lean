import EventSchema.Resolver

/-!
# Resolved fragments are fixpoints

Where no reference and no composition stands in a fragment, its expansion follows nothing and puts
everything back where it was, whatever following a reference would do (`expand_eq_pure`). So a
resolver gives such a fragment back as it is, and is itself left as it was
(`resolve_of_hasUnresolved_eq_false`). What is falsy is such a fragment
(`hasUnresolved_of_isTruthy_eq_false`), so it may be given back without a look.
-/

set_option autoImplicit false

namespace EventSchema

section Expand

variable {m : Type → Type} [Monad m] [LawfulMonad m] {follow : String → m Fragment}

mutual

theorem expandJson_eq_pure : ∀ value : Json, value.hasUnresolved = false →
    value.expand follow = pure value
  | .object members, h => by
    rw [Json.hasUnresolved, Bool.or_eq_false_iff] at h
    rw [Json.expand, dif_neg (by simp [h.1]), expandJsonMembers_eq_pure members h.2, pure_bind]
  | .array items, h => by
    rw [Json.hasUnresolved] at h
    rw [Json.expand, expandJsonItems_eq_pure items h, pure_bind]
  | .null, _ | .bool _, _ | .number _, _ | .string _, _ => by simp only [Json.expand]

theorem expandJsonItems_eq_pure : ∀ items : List Json, Json.anyUnresolvedItem items = false →
    Json.expandItems follow items = pure items
  | [], _ => by rw [Json.expandItems]
  | item :: rest, h => by
    rw [Json.anyUnresolvedItem, Bool.or_eq_false_iff] at h
    rw [Json.expandItems, expandJson_eq_pure item h.1, pure_bind,
      expandJsonItems_eq_pure rest h.2, pure_bind]

theorem expandJsonMembers_eq_pure : ∀ members : Fields,
    Json.anyUnresolvedMember members = false → Json.expandMembers follow members = pure members
  | [], _ => by rw [Json.expandMembers]
  | (key, value) :: rest, h => by
    rw [Json.anyUnresolvedMember, Bool.or_eq_false_iff] at h
    rw [Json.expandMembers, expandJson_eq_pure value h.1, pure_bind,
      expandJsonMembers_eq_pure rest h.2, pure_bind]

end

theorem expandChoices_eq_pure : ∀ choices : Option (List Json),
    Json.anyUnresolvedItem (choices.getD []) = false →
    Json.expandChoices follow choices = pure choices
  | none, _ => by rw [Json.expandChoices]
  | some choices, h => by
    rw [Option.getD_some] at h
    rw [Json.expandChoices, expandJsonItems_eq_pure choices h, pure_bind]

mutual

/-- An expansion meets the parts that the search for unresolved nodes meets; where that finds
nothing, each part is rebuilt as it was. -/
theorem expand_eq_pure : ∀ fragment : Fragment, fragment.hasUnresolved = false →
    fragment.expand follow = pure fragment
  | .any value, h => by
    rw [Fragment.hasUnresolved] at h
    rw [Fragment.expand, expandJson_eq_pure value h, pure_bind]
  | .primitive kind choices annotations, h => by
    rw [Fragment.hasUnresolved, Bool.or_eq_false_iff] at h
    rw [Fragment.expand, expandChoices_eq_pure choices h.1, pure_bind,
      expandJsonMembers_eq_pure annotations h.2, pure_bind]
  | .array items annotations, h => by
    rw [Fragment.hasUnresolved, Bool.or_eq_false_iff] at h
    rw [Fragment.expand, expandPart_eq_pure items h.1, pure_bind,
      expandJsonMembers_eq_pure annotations h.2, pure_bind]
  | .object properties required additional annotations, h => by
    rw [Fragment.hasUnresolved, Bool.or_eq_false_iff, Bool.or_eq_false_iff] at h
    obtain ⟨⟨hproperties, hadditional⟩, hannotations⟩ := h
    rw [Fragment.expand, expandProperties_eq_pure properties hproperties, pure_bind,
      expandPart_eq_pure additional hadditional, pure_bind,
      expandJsonMembers_eq_pure annotations hannotations, pure_bind]
  | .reference target, h => by
    rw [Fragment.hasUnresolved] at h
    cases h
  | .composition members, h => by
    rw [Fragment.hasUnresolved] at h
    cases h

theorem expandPart_eq_pure : ∀ part : Option Fragment, Fragment.partHasUnresolved part = false →
    Fragment.expandPart follow part = pure part
  | none, _ => by rw [Fragment.expandPart]
  | some fragment, h => by
    rw [Fragment.partHasUnresolved] at h
    rw [Fragment.expandPart, expand_eq_pure fragment h, pure_bind]

theorem expandProperties_eq_pure : ∀ properties : Option Properties,
    Fragment.anyUnresolvedProperty properties = false →
    Fragment.expandProperties follow properties = pure properties
  | none, _ => by rw [Fragment.expandProperties]
  | some properties, h => by
    rw [Fragment.anyUnresolvedProperty] at h
    rw [Fragment.expandProperties, expandMembers_eq_pure properties h, pure_bind]

theorem expandMembers_eq_pure : ∀ members : Properties,
    Fragment.anyUnresolvedFragment members = false →
    Fragment.expandMembers follow members = pure members
  | [], _ => by rw [Fragment.expandMembers]
  | (name, fragment) :: rest, h => by
    rw [Fragment.anyUnresolvedFragment, Bool.or_eq_false_iff] at h
    rw [Fragment.expandMembers, expand_eq_pure fragment h.1, pure_bind,
      expandMembers_eq_pure rest h.2, pure_bind]

end

end Expand

/-- Nothing stands in what is falsy: it is a scalar or empty. -/
theorem Fragment.hasUnresolved_of_isTruthy_eq_false {fragment : Fragment}
    (hfalsy : fragment.isTruthy = false) : fragment.hasUnresolved = false := by
  cases fragment with
  | any value =>
    rw [isTruthy] at hfalsy
    rw [hasUnresolved]
    cases value with
    | array items =>
      obtain rfl : items = [] := by simpa [Json.isTruthy] using hfalsy
      rfl
    | object members =>
      obtain rfl : members = [] := by simpa [Json.isTruthy] using hfalsy
      rfl
    | null | bool _ | number _ | string _ => rfl
  | _ => cases hfalsy

namespace Resolver

/-- A fragment in which no reference and no composition stands is resolved to itself, every key at
its place, and the resolver is left as it was: it reads nothing, keeps no document, follows no place
and notes no missing reference. -/
theorem resolve_of_hasUnresolved_eq_false (r : Resolver) (fragment : Fragment) (root : Json)
    (current : Path) (hresolved : fragment.hasUnresolved = false) :
    r.resolve fragment root current = (.ok fragment, r) := by
  rw [resolve, depthLimit, resolveWithin, expand_eq_pure fragment hresolved]
  rfl

/-- A typed object with a property that is named like a reference, choices that look like a
composition, and an annotation under which the marks hold neither a string nor an array. -/
def guardedObject : Fragment :=
  .object
    (some [("$ref", .primitive .string (some [.object [("allOf", .object [])]]) []),
      ("allOf", .array (some (.any (.bool false))) [("minItems", .ofNat 1)])])
    (some ["allOf", "$ref"]) (some .absent)
    [("x-note", .object [("$ref", .object []), ("allOf", .string "#/a")]), ("title", .string "t")]

theorem resolve_of_hasUnresolved_eq_false_guardedObject :
    guardedObject.hasUnresolved = false ∧
      ({ source := {}, active := [⟨⟨"a.json"⟩, ⟨["p"]⟩⟩] } : Resolver).resolve guardedObject .null
          ⟨"a.json"⟩ =
        (.ok guardedObject, { source := {}, active := [⟨⟨"a.json"⟩, ⟨["p"]⟩⟩] }) := by
  have hresolved : guardedObject.hasUnresolved = false := by decide +kernel
  exact ⟨hresolved, resolve_of_hasUnresolved_eq_false _ guardedObject .null ⟨"a.json"⟩ hresolved⟩

end Resolver

end EventSchema
