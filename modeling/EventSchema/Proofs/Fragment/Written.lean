import EventSchema.Proofs.Fragment.Tidy

/-!
# Looking into a written fragment

A typed fragment is written with its keywords in front of its annotations, and no annotation hides a
keyword. So whatever the fragment was made from, the schema of one of its properties stands under
that name in what it is written as (`Tidy.exists_standsFor`), and the choices of a property stand
there in the same order (`Tidy.choices_written`).
-/

set_option autoImplicit false

namespace EventSchema

namespace Fragment

variable {fragment : Fragment}

/-- A property and the value that it is written as, or that it was classified from. -/
inductive StandsFor (part : Fragment) : Json → Prop
  | written (htidy : part.Tidy) : StandsFor part part.toJson
  | classified {value : Json} (hpart : part = ofJson value) : StandsFor part value

theorem Tidy.exists_standsFor (htidy : fragment.Tidy) {name : String} {part : Fragment}
    (hmem : (name, part) ∈ fragment.properties) :
    ∃ members declared value, fragment.toJson = .object members ∧
      Entries.get? members "properties" = some (.object declared) ∧
      Entries.get? declared name = some value ∧ part.StandsFor value := by
  have hpart := htidy.of_mem_properties hmem
  cases fragment with
  | object properties required additional annotations =>
    cases properties with
    | none => exact absurd hmem List.not_mem_nil
    | some properties =>
      have hunique : Entries.Unique (toMembers properties) :=
        htidy.distinct.declared.of_keys_eq (keys_toMembers properties)
      refine ⟨_, toMembers properties, part.toJson,
        toJson_eq_written htidy.distinct.written (List.cons_ne_nil _ _), ?_, ?_, .written hpart⟩
      · exact htidy.distinct.written.get?_of_mem (properties_mem_written _ _ _ _)
      · exact hunique.get?_of_mem (toMembers_of_mem hmem)
  | any value =>
    obtain ⟨members, entries, rfl, hget, hproperties⟩ :=
      exists_object_of_properties_any (List.ne_nil_of_mem hmem)
    have hentries := (htidy.value List.mem_cons_self).member (Entries.mem_of_get? hget)
    rw [hproperties] at hmem
    obtain ⟨⟨key, inner⟩, hentry, hpair⟩ := List.mem_map.mp hmem
    obtain ⟨rfl, rfl⟩ := Prod.mk.inj hpair
    exact ⟨members, entries, inner, toJson.eq_1 _, hget, hentries.unique.get?_of_mem hentry,
      .classified rfl⟩
  | _ => exact absurd hmem List.not_mem_nil

theorem Tidy.exists_standsFor_additional (htidy : fragment.Tidy) {part : Fragment}
    (hpart : fragment.additional? = some part) :
    ∃ members value, fragment.toJson = .object members ∧
      Entries.get? members "additionalProperties" = some value ∧ part.StandsFor value := by
  have htidyPart := htidy.of_additional? hpart
  cases fragment with
  | object properties required additional annotations =>
    obtain rfl : additional = some part := hpart
    refine ⟨_, part.toJson, toJson_eq_written htidy.distinct.written (List.cons_ne_nil _ _), ?_,
      .written htidyPart⟩
    exact htidy.distinct.written.get?_of_mem (additional_mem_written _ _ _ _)
  | any value =>
    obtain ⟨inner, hget, rfl⟩ := Option.map_eq_some_iff.mp hpart
    cases value with
    | object members => exact ⟨members, inner, toJson.eq_1 _, hget, .classified rfl⟩
    | _ => cases hget
  | _ => cases hpart

theorem StandsFor.get?_enum {kind : PrimitiveKind} {choices : List Json} {annotations : Fields}
    {value : Json}
    (hstands : (primitive kind (some choices) annotations).StandsFor value) :
    ∃ members, value = .object members ∧ Entries.get? members "enum" = some (.array choices) := by
  cases hstands with
  | written htidy =>
    refine ⟨_, toJson_eq_written htidy.distinct.written (List.cons_ne_nil _ _), ?_⟩
    exact htidy.distinct.written.get?_of_mem (enum_mem_written kind choices annotations)
  | classified hpart =>
    cases value with
    | object members =>
      rw [ofJson] at hpart
      cases hshape : shape members with
      | primitive other =>
        simp only [hshape, primitive.injEq] at hpart
        obtain ⟨value, hget, hvalue⟩ := Option.bind_eq_some_iff.mp hpart.2.1.symm
        cases value with
        | array items => exact ⟨members, rfl, Option.some.inj hvalue ▸ hget⟩
        | _ => cases hvalue
      | _ => simp [hshape] at hpart
    | _ => simp [ofJson] at hpart

/-- The choices of a property stand in what the fragment is written as, in order. -/
theorem Tidy.choices_written (htidy : fragment.Tidy) {name : String} {kind : PrimitiveKind}
    {choices : List Json} {annotations : Fields}
    (hmem : (name, primitive kind (some choices) annotations) ∈ fragment.properties) :
    ∃ members declared property, fragment.toJson = .object members ∧
      Entries.get? members "properties" = some (.object declared) ∧
      Entries.get? declared name = some (.object property) ∧
      Entries.get? property "enum" = some (.array choices) := by
  obtain ⟨members, declared, value, hmembers, hdeclared, hvalue, hstands⟩ :=
    htidy.exists_standsFor hmem
  obtain ⟨property, rfl, hchoices⟩ := hstands.get?_enum
  exact ⟨members, declared, property, hmembers, hdeclared, hvalue, hchoices⟩

end Fragment

end EventSchema
