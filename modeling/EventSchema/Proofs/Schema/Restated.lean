import EventSchema.Proofs.Fragment.Reordered
import EventSchema.Proofs.Schema.MetaSchema

/-!
# Schemas written anew

A schema that is classified and written back holds the schemas inside it written back as well, where
classification reads them, in an order of its own (`exists_restates`). So what is written back of a
schema is a schema (`isSchema_restated`).
-/

set_option autoImplicit false

namespace EventSchema

/-- What the value is classified as, written back. -/
def Json.restated (value : Json) : Json := (Fragment.ofJson value).toJson

/-- No object in the value has a key twice, and none is a reference or a composition. -/
structure Json.Plain (value : Json) : Prop where
  distinct : value.Distinct
  unmarked : ¬value.Marked

namespace Json

theorem Plain.member {members : Fields} (hplain : (object members).Plain) {key : String}
    {value : Json} (hmem : (key, value) ∈ members) : value.Plain :=
  ⟨hplain.distinct.member hmem, fun hmarked ↦ hplain.unmarked (.member hmem hmarked)⟩

theorem Plain.item {items : List Json} (hplain : (array items).Plain) {value : Json}
    (hmem : value ∈ items) : value.Plain :=
  ⟨hplain.distinct.item hmem, fun hmarked ↦ hplain.unmarked (.item hmem hmarked)⟩

/-- A plain value of at most so many nodes. -/
structure PlainWithin (bound : Nat) (value : Json) : Prop extends Plain value where
  weight_le : value.weight ≤ bound

theorem PlainWithin.member {bound : Nat} {members : Fields}
    (hwithin : (object members).PlainWithin bound) {entry : String × Json}
    (hmem : entry ∈ members) : entry.2.PlainWithin bound :=
  ⟨hwithin.toPlain.member hmem,
    Nat.le_trans (Nat.le_of_lt (weight_lt_of_member hmem)) hwithin.weight_le⟩

theorem PlainWithin.item {bound : Nat} {items : List Json}
    (hwithin : (array items).PlainWithin bound) {value : Json} (hmem : value ∈ items) :
    value.PlainWithin bound :=
  ⟨hwithin.toPlain.item hmem,
    Nat.le_trans (Nat.le_of_lt (weight_lt_of_item hmem)) hwithin.weight_le⟩

/-- Nothing but an object is written back otherwise than it was, and that as an object. -/
theorem restated_eq_or (value : Json) : value.restated = value ∨
    ∃ members members', value = .object members ∧ value.restated = .object members' := by
  cases value with
  | object members =>
    refine .inr ⟨members, ?_⟩
    rw [restated, Fragment.ofJson]
    cases Fragment.shape members with
    | reference _ | composition | object | array | primitive _ | any =>
      exact ⟨_, rfl, by simp only [Fragment.toJson]; rfl⟩
  | _ =>
    left
    rw [restated, Fragment.ofJson]
    · rw [Fragment.toJson]
    all_goals simp

theorem restated_of_not_object {value : Json} (hvalue : value.asObject? = none) :
    value.restated = value := by
  rcases value.restated_eq_or with hrestated | ⟨members, members', rfl, -⟩
  · exact hrestated
  · cases hvalue

theorem Plain.restated {value : Json} (hplain : value.Plain) : value.restated.Plain := by
  refine ⟨(Fragment.tidy_ofJson hplain.distinct).distinct_toJson, fun hmarked ↦ ?_⟩
  exact hplain.unmarked (Fragment.marked_of_ofJson _ (Fragment.marked_of_toJson _ hmarked))

end Json

namespace Schema

/-- The second value is the first one as it stands under the keyword after writing back: with the
schemas in it restated that classification reads there. -/
inductive Restates : String → Json → Json → Prop
  | same (key : String) (argument : Json) : Restates key argument argument
  | items (schema : Json) : Restates "items" schema schema.restated
  | additional (schema : Json) : Restates "additionalProperties" schema schema.restated
  | properties (declared : Fields) :
    Restates "properties" (.object declared) (.object (Entries.mapValues Json.restated declared))

theorem restates_rewrite (shape : Fragment.Shape) (key : String) (argument : Json) :
    Restates key argument (shape.rewrite key argument) := by
  unfold Fragment.Shape.rewrite
  split
  · exact .properties _
  · exact .additional _
  · exact .items _
  · exact .same _ _

theorem exists_restates {keywords : Fields} (hplain : (Json.object keywords).Plain) :
    ∃ keywords', (Json.object keywords).restated = .object keywords' ∧
      Entries.Unique keywords' ∧
      ∀ key, Option.Rel (Restates key) (Entries.get? keywords key)
        (Entries.get? keywords' key) := by
  have hnode : Json.isUnresolvedNode keywords = false := by
    rw [← Bool.not_eq_true]
    intro hnode
    obtain ⟨key, value, hget, hmarks⟩ := isUnresolvedNode_iff.mp hnode
    exact hplain.unmarked (.entry (Entries.mem_of_get? hget) hmarks)
  rcases Fragment.typed_or_any hnode with htyped | hshape
  · obtain ⟨keywords', hwritten, hunique, hget⟩ :=
      Fragment.exists_written_ofJson hplain.distinct htyped
    refine ⟨keywords', hwritten, hunique, fun key ↦ ?_⟩
    rw [hget]
    cases Entries.get? keywords key with
    | none => exact .none
    | some argument => exact .some (restates_rewrite _ key argument)
  · refine ⟨keywords, ?_, hplain.distinct.unique, fun key ↦ ?_⟩
    · rw [Json.restated, Fragment.ofJson, hshape]
      exact Fragment.toJson.eq_1 _
    · cases Entries.get? keywords key with
      | none => exact .none
      | some argument => exact .some (.same key argument)

/-- What is restated under a keyword is an object before and after. -/
theorem Restates.eq_or {key : String} {argument argument' : Json}
    (hrestates : Restates key argument argument') : argument' = argument ∨
      ∃ members members', argument = .object members ∧ argument' = .object members' := by
  cases hrestates with
  | same => exact .inl rfl
  | items | additional => exact argument.restated_eq_or
  | properties declared => exact .inr ⟨_, _, rfl, rfl⟩

theorem Restates.properties_or {argument argument' : Json}
    (hrestates : Restates "properties" argument argument') : argument' = argument ∨
      ∃ declared, argument = .object declared ∧
        argument' = .object (Entries.mapValues Json.restated declared) := by
  generalize hkey : "properties" = key at hrestates
  cases hrestates with
  | same => exact .inl rfl
  | items | additional => exact absurd hkey (by decide)
  | properties declared => exact .inr ⟨declared, rfl, rfl⟩

theorem Restates.eq_of_ne {key : String} {argument argument' : Json}
    (hrestates : Restates key argument argument') (hitems : key ≠ "items")
    (hadditional : key ≠ "additionalProperties") (hproperties : key ≠ "properties") :
    argument' = argument := by
  cases hrestates with
  | same => rfl
  | items => exact absurd rfl hitems
  | additional => exact absurd rfl hadditional
  | properties => exact absurd rfl hproperties

/-! ### What is a schema -/

section IsSchema

variable {demand : Demand} {key : String} {argument argument' part : Json}

/-- A keyword makes one demand. -/
theorem demand_eq {other : Demand} (hdemand : (key, demand) ∈ demands)
    (hother : Entries.get? demands key = some other) : demand = other := by
  have hunique : Entries.Unique demands := by
    rw [Entries.Unique]
    decide +kernel
  exact Option.some.inj ((hunique.get?_of_mem hdemand).symm.trans hother)

theorem Restates.fits (hrestates : Restates key argument argument')
    (hdemand : (key, demand) ∈ demands) (hfits : demand.fits argument = true) :
    demand.fits argument' = true := by
  cases hrestates with
  | same => exact hfits
  | items =>
    rw [demand_eq hdemand rfl] at hfits ⊢
    rcases argument.restated_eq_or with hrestated | ⟨members, members', rfl, hrestated⟩
    · rwa [hrestated]
    · rw [hrestated]
      rfl
  | additional => rw [demand_eq hdemand rfl, Demand.fits]
  | properties declared =>
    rw [demand_eq hdemand rfl]
    rfl

/-- The schemas under a keyword are written back or stay. -/
theorem Restates.exists_part (hrestates : Restates key argument argument')
    (hdemand : (key, demand) ∈ demands) (hpart : part ∈ demand.parts argument') :
    ∃ other ∈ demand.parts argument, part = other ∨ part = other.restated := by
  cases hrestates with
  | same => exact ⟨part, hpart, .inl rfl⟩
  | items =>
    rw [demand_eq hdemand rfl] at hpart ⊢
    rcases argument.restated_eq_or with hrestated | ⟨members, members', rfl, hrestated⟩
    · exact ⟨part, hrestated ▸ hpart, .inl rfl⟩
    · rw [hrestated] at hpart
      exact ⟨_, List.mem_singleton_self _, .inr (hrestated ▸ List.mem_singleton.mp hpart)⟩
  | additional =>
    rw [demand_eq hdemand rfl] at hpart ⊢
    exact ⟨_, List.mem_singleton_self _, .inr (List.mem_singleton.mp hpart)⟩
  | properties declared =>
    rw [demand_eq hdemand rfl] at hpart ⊢
    obtain ⟨entry', hentry', rfl⟩ := List.mem_map.mp hpart
    obtain ⟨entry, hentry, rfl⟩ := List.mem_map.mp hentry'
    exact ⟨entry.2, List.mem_map_of_mem hentry, .inr rfl⟩

theorem Demand.plain_of_mem_parts (hplain : argument.Plain) (hpart : part ∈ demand.parts argument) :
    part.Plain := by
  unfold Demand.parts at hpart
  split at hpart
  · exact hplain.item hpart
  · exact hplain.item hpart
  · exact List.mem_singleton.mp hpart ▸ hplain
  · exact List.mem_singleton.mp hpart ▸ hplain
  · obtain ⟨entry, hentry, rfl⟩ := List.mem_map.mp hpart
    exact hplain.member hentry
  · obtain ⟨entry, hentry, rfl⟩ := List.mem_map.mp (List.mem_filter.mp hpart).1
    exact hplain.member hentry
  · cases hpart

theorem isSchema_restated {schema : Json} (hschema : IsSchema schema) (hplain : schema.Plain) :
    IsSchema schema.restated := by
  induction hschema with
  | bool value =>
    rw [Json.restated_of_not_object rfl]
    exact .bool value
  | @object members hfits hparts ih =>
    obtain ⟨members', hrestated, -, hrestates⟩ := exists_restates hplain
    have hargument {key : String} {argument' : Json}
        (hget' : Entries.get? members' key = some argument') :
        ∃ argument, Entries.get? members key = some argument ∧ Restates key argument argument' := by
      have hrel := hrestates key
      rw [hget'] at hrel
      cases hget : Entries.get? members key with
      | none =>
        rw [hget] at hrel
        cases hrel
      | some argument =>
        rw [hget] at hrel
        cases hrel with
        | some hargument => exact ⟨argument, rfl, hargument⟩
    rw [hrestated]
    refine .object (fun key demand argument' hdemand hget' ↦ ?_)
      fun key demand argument' part hdemand hget' hpart ↦ ?_
    · obtain ⟨argument, hget, hargument⟩ := hargument hget'
      exact hargument.fits hdemand (hfits key demand argument hdemand hget)
    · obtain ⟨argument, hget, hargument⟩ := hargument hget'
      obtain ⟨other, hother, rfl | rfl⟩ := hargument.exists_part hdemand hpart
      · exact hparts key demand argument part hdemand hget hother
      · exact ih key demand argument other hdemand hget hother
          (Demand.plain_of_mem_parts (hplain.member (Entries.mem_of_get? hget)) hother)

end IsSchema

end Schema

end EventSchema
