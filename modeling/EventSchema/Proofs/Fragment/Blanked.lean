import EventSchema.Proofs.Fragment.Tidy
import EventSchema.Proofs.Json.Blanked
import EventSchema.Proofs.Json.Views

/-!
# Fragments with blanks

What is written of a classified value is the value with each keyword written anew that its shape
reads (`exists_written_ofJson`), so classification keeps blanks where they are (`blanked_ofJson`).
So does every way to build a fragment from parts, and so do merges (`blanked_mergeAllOf`): a
fragment of blanked parts is written as what the fragment of the parts is written as, blanked, and a
further merge takes blanked parts from it (`Blanked`).
-/

set_option autoImplicit false

namespace EventSchema

theorem PrimitiveKind.name_of_ofName? {name : String} {kind : PrimitiveKind}
    (hkind : ofName? name = some kind) : kind.name = name := by
  unfold ofName? at hkind
  split_ifs at hkind with hname
  all_goals
    cases hkind
    symm
    assumption

namespace Fragment

/-! ### What a classified object is written with -/

/-- What an object of the shape has under `type`, if that is what gives it the shape. -/
def Shape.typeName? : Shape → Option String
  | .object => some "object"
  | .array => some "array"
  | .primitive kind => some kind.name
  | .reference _ | .composition | .any => none

/-- What an object of the shape is written with under the key, for what it has there. -/
def Shape.rewrite : Shape → String → Json → Json
  | .object, "properties", .object declared =>
    .object (Entries.mapValues (fun value ↦ (ofJson value).toJson) declared)
  | .object, "additionalProperties", value => (ofJson value).toJson
  | .array, "items", value => (ofJson value).toJson
  | _, _, value => value

section Shapes

variable {members members' : Fields} {name : String}

theorem get?_type_of_shape (hname : (shape members).typeName? = some name) :
    Entries.get? members "type" = some (.string name) := by
  have hstring {text : String}
      (htext : (Entries.get? members "type").bind Json.asString? = some text) :
      Entries.get? members "type" = some (.string text) := by
    obtain ⟨value, hget, hvalue⟩ := Option.bind_eq_some_iff.mp htext
    rw [hget, Json.asString?_eq_some_iff.mp hvalue]
  unfold shape at hname
  split at hname
  · cases hname
  split_ifs at hname
  · cases hname
  split at hname
  · rename_i htext
    cases hname
    exact hstring htext
  · rename_i htext
    cases hname
    exact hstring htext
  · rename_i htext
    split at hname
    · rename_i hkind
      cases hname
      rw [PrimitiveKind.name_of_ofName? hkind]
      exact hstring htext
    · cases hname
  · cases hname

theorem get?_toList_map {α : Type} (part : Option α) (write : α → Json) (keyword key : String) :
    Entries.get? (part.map fun value ↦ (keyword, write value)).toList key =
      if keyword = key then part.map write else none := by
  cases part with
  | none => exact (ite_self none).symm
  | some value => rfl

theorem get?_written_object (hunique : Entries.Unique members) (hshape : shape members = .object)
    (key : String) : Entries.get? (ofJson (.object members)).written key =
      (Entries.get? members key).map (Shape.object.rewrite key) := by
  have htype : Entries.get? members "type" = some (.string "object") :=
    get?_type_of_shape (by rw [hshape]; rfl)
  have hfragment : ofJson (.object members) = .object (propertiesOf members) (requiredOf members)
      (partOf "additionalProperties" members)
      (members.filter fun entry ↦ !isObjectKeyword entry) := by
    rw [ofJson]
    simp only [hshape]
  rw [hfragment, written, keywords, kept, Entries.get?_append, Entries.get?_cons,
    Entries.get?_append, Entries.get?_append, get?_toList_map, get?_toList_map, get?_toList_map,
    Entries.Unique.get?_filter hunique, propertiesOf_eq, requiredOf, partOf_eq]
  by_cases htypeKey : key = "type"
  · subst htypeKey
    rw [htype]
    rfl
  by_cases hproperties : key = "properties"
  · subst hproperties
    cases Entries.get? members "properties" with
    | none => simp
    | some value =>
      cases value <;> simp [fragmentsIn, isObjectKeyword, Json.isObject, Shape.rewrite,
        ofMembers_eq_map, toMembers_eq_map, Entries.mapValues]
  by_cases hrequired : key = "required"
  · subst hrequired
    cases Entries.get? members "required" with
    | none => simp
    | some value =>
      cases hnames : value.asStrings? with
      | none => simp [isObjectKeyword, hnames, Shape.rewrite]
      | some names =>
        obtain rfl := Json.asStrings?_eq_some_iff.mp hnames
        simp [Shape.rewrite, hnames]
  by_cases hadditional : key = "additionalProperties"
  · subst hadditional
    cases Entries.get? members "additionalProperties" <;> simp [isObjectKeyword, Shape.rewrite]
  · cases Entries.get? members key <;>
      simp [isObjectKeyword, Shape.rewrite, htypeKey, hproperties, hrequired, hadditional,
        Ne.symm htypeKey, Ne.symm hproperties, Ne.symm hrequired, Ne.symm hadditional]

theorem get?_written_array (hunique : Entries.Unique members) (hshape : shape members = .array)
    (key : String) : Entries.get? (ofJson (.object members)).written key =
      (Entries.get? members key).map (Shape.array.rewrite key) := by
  have htype : Entries.get? members "type" = some (.string "array") :=
    get?_type_of_shape (by rw [hshape]; rfl)
  have hfragment : ofJson (.object members) = .array (partOf "items" members)
      (members.filter fun entry ↦ !isArrayKeyword entry) := by
    rw [ofJson]
    simp only [hshape]
  rw [hfragment, written, keywords, kept, Entries.get?_append, Entries.get?_cons, get?_toList_map,
    Entries.Unique.get?_filter hunique, partOf_eq]
  by_cases htypeKey : key = "type"
  · subst htypeKey
    rw [htype]
    rfl
  by_cases hitems : key = "items"
  · subst hitems
    cases Entries.get? members "items" <;> simp [isArrayKeyword, Shape.rewrite]
  · cases Entries.get? members key <;>
      simp [isArrayKeyword, Shape.rewrite, htypeKey, hitems, Ne.symm htypeKey, Ne.symm hitems]

theorem get?_written_primitive {kind : PrimitiveKind} (hunique : Entries.Unique members)
    (hshape : shape members = .primitive kind)
    (key : String) : Entries.get? (ofJson (.object members)).written key =
      (Entries.get? members key).map ((Shape.primitive kind).rewrite key) := by
  have htype : Entries.get? members "type" = some (.string kind.name) :=
    get?_type_of_shape (by rw [hshape]; rfl)
  have hfragment : ofJson (.object members) = .primitive kind (choicesOf members)
      (members.filter fun entry ↦ !isPrimitiveKeyword entry) := by
    rw [ofJson]
    simp only [hshape]
  rw [hfragment, written, keywords, kept, Entries.get?_append, Entries.get?_cons, get?_toList_map,
    Entries.Unique.get?_filter hunique, choicesOf]
  by_cases htypeKey : key = "type"
  · subst htypeKey
    rw [htype]
    rfl
  by_cases hchoices : key = "enum"
  · subst hchoices
    cases Entries.get? members "enum" with
    | none => simp
    | some value => cases value <;> simp [isPrimitiveKeyword, Shape.rewrite, Json.asArray?]
  · cases Entries.get? members key <;>
      simp [isPrimitiveKeyword, Shape.rewrite, htypeKey, hchoices, Ne.symm htypeKey,
        Ne.symm hchoices]

/-- An object that says its type is written with the keywords that its shape reads written anew, and
all else as it was. -/
theorem exists_written_ofJson (hdistinct : (Json.object members).Distinct)
    (htyped : (shape members).typeName? ≠ none) :
    ∃ entries, (ofJson (.object members)).toJson = .object entries ∧ Entries.Unique entries ∧
      ∀ key, Entries.get? entries key =
        (Entries.get? members key).map ((shape members).rewrite key) := by
  have hunique : Entries.Unique members := hdistinct.unique
  have hwritten := (distinct_ofJson hdistinct).written
  refine ⟨(ofJson (.object members)).written, toJson_eq_written hwritten ?_, hwritten, ?_⟩
  · rw [ofJson]
    cases hshape : shape members with
    | object | array | primitive kind => exact List.cons_ne_nil _ _
    | reference _ | composition | any =>
      rw [hshape] at htyped
      exact absurd rfl htyped
  · intro key
    cases hshape : shape members with
    | object => exact get?_written_object hunique hshape key
    | array => exact get?_written_array hunique hshape key
    | primitive kind => exact get?_written_primitive hunique hshape key
    | reference _ | composition | any =>
      rw [hshape] at htyped
      exact absurd rfl htyped

end Shapes

/-! ### Classifying blanked values -/

section Classified

variable {value value' : Json} {members members' : Fields}

theorem shape_eq_of_blanked (halike : Entries.Alike Json.Blanked members members') :
    shape members' = shape members := by
  have hstring (key : String) : (Entries.get? members' key).bind Json.asString? =
      (Entries.get? members key).bind Json.asString? :=
    bind_eq_of_rel (halike.get? key) fun _ _ hvalue ↦ hvalue.asString?
  have harray : ((Entries.get? members' "allOf").bind Json.asArray?).isSome =
      ((Entries.get? members "allOf").bind Json.asArray?).isSome :=
    isSome_eq_of_rel (rel_bind (halike.get? "allOf") fun _ _ hvalue ↦ hvalue.asArray?)
  unfold shape
  rw [hstring, hstring, harray]

theorem blanked_singleton (key : String) (hblanked : value.Blanked value') :
    (Json.object [(key, value)]).Blanked (.object [(key, value')]) :=
  Json.blanked_object_iff.mpr (Entries.Alike.nil.insert key hblanked)

/-- Written, the second fragment is the first with blanks. -/
def WrittenBlanked (fragment fragment' : Fragment) : Prop :=
  fragment.toJson.Blanked fragment'.toJson

theorem blanked_rewrite (shape : Shape) (key : String) (hblanked : value.Blanked value')
    (hparts : ∀ part part' : Json, part.weight ≤ value.weight → part.Blanked part' →
      (ofJson part).WrittenBlanked (ofJson part')) :
    (shape.rewrite key value).Blanked (shape.rewrite key value') := by
  have hwhole := hparts value value' (Nat.le_refl _) hblanked
  cases shape with
  | object =>
    by_cases hadditional : key = "additionalProperties"
    · subst hadditional
      simp only [Shape.rewrite]
      exact hwhole
    by_cases hproperties : key = "properties"
    · subst hproperties
      cases hblanked with
      | object hleft hright hget =>
        have halike : Entries.Alike Json.Blanked _ _ := ⟨hleft, hright, hget⟩
        refine Json.blanked_object_iff.mpr (halike.mapValues fun _ part part' hpart _ hinner ↦ ?_)
        refine hparts part part' ?_ hinner
        exact Nat.le_of_lt (Json.weight_lt_of_member (Entries.mem_of_get? hpart))
      | blank => exact .blank
      | null => exact .null
      | bool value => exact .bool value
      | number value => exact .number value
      | string value => exact .string value
      | array hitems => exact .array hitems
    · simpa [Shape.rewrite, hadditional, hproperties] using hblanked
  | array =>
    by_cases hitems : key = "items"
    · subst hitems
      exact hwhole
    · simpa [Shape.rewrite, hitems] using hblanked
  | primitive _ | reference _ | composition | any => exact hblanked

theorem blanked_membersOf (halike : Entries.Alike Json.Blanked members members')
    (hparts : ∀ part part' : Json, part.weight < (Json.object members).weight →
      part.Blanked part' → (ofJson part).WrittenBlanked (ofJson part')) :
    List.Forall₂ WrittenBlanked (membersOf members) (membersOf members') := by
  rw [membersOf_eq, membersOf_eq]
  have hrel := halike.get? "allOf"
  generalize hfound : Entries.get? members "allOf" = found at hrel ⊢
  generalize Entries.get? members' "allOf" = found' at hrel ⊢
  cases hrel with
  | none => exact .nil
  | some hblanked =>
    cases hblanked with
    | @array items items' hitems =>
      have hless (item : Json) (hmem : item ∈ items) :
          item.weight < (Json.object members).weight :=
        Nat.lt_trans (Json.weight_lt_of_item hmem)
          (Json.weight_lt_of_member (Entries.mem_of_get? hfound))
      rw [Option.map_some, Option.map_some, Option.getD_some, Option.getD_some, itemsIn, itemsIn,
        ofItems_eq_map, ofItems_eq_map]
      clear hfound
      induction hitems with
      | nil => exact .nil
      | cons hfirst _ ih =>
        rw [List.forall_mem_cons] at hless
        exact .cons (hparts _ _ hless.1 hfirst) (ih hless.2)
    | _ => exact .nil

/-- What a blanked value is classified as is what the value is classified as, blanked. -/
theorem blanked_ofJson (hblanked : value.Blanked value') :
    (ofJson value).WrittenBlanked (ofJson value') := by
  induction hweight : value.weight using Nat.strongRecOn generalizing value value' with
  | ind weight ih =>
    cases hblanked with
    | blank => exact .blank
    | null => exact .null
    | bool value => exact .bool value
    | number value => exact .number value
    | string value => exact .string value
    | array hitems => exact .array hitems
    | @object members members' hleft hright hget =>
      have halike : Entries.Alike Json.Blanked members members' := ⟨hleft, hright, hget⟩
      have hparts (part part' : Json) (hless : part.weight < (Json.object members).weight)
          (hpart : part.Blanked part') : (ofJson part).WrittenBlanked (ofJson part') :=
        ih part.weight (hweight ▸ hless) hpart rfl
      obtain ⟨hdistinct, hdistinct'⟩ := (Json.blanked_object_iff.mpr halike).distinct
      have hshape' := shape_eq_of_blanked halike
      by_cases htyped : (shape members).typeName? = none
      · rw [WrittenBlanked, ofJson, ofJson, hshape']
        cases hshape : shape members with
        | reference target => exact blanked_singleton "$ref" (.string target)
        | composition =>
          refine blanked_singleton "allOf" (.array ?_)
          rw [toItems_eq_map, toItems_eq_map, List.forall₂_map_left_iff,
            List.forall₂_map_right_iff]
          exact blanked_membersOf halike hparts
        | any => exact Json.blanked_object_iff.mpr halike
        | object | array | primitive kind =>
          rw [hshape] at htyped
          cases htyped
      · obtain ⟨entries, hjson, hunique, hentries⟩ := exists_written_ofJson hdistinct htyped
        obtain ⟨entries', hjson', hunique', hentries'⟩ :=
          exists_written_ofJson hdistinct' (hshape' ▸ htyped)
        rw [WrittenBlanked, hjson, hjson']
        refine .object hunique hunique' fun key ↦ ?_
        rw [hentries, hentries', hshape']
        have hrel := halike.get? key
        generalize hfound : Entries.get? members key = found at hrel ⊢
        generalize Entries.get? members' key = found' at hrel ⊢
        cases hrel with
        | none => exact .none
        | @some value value' hblanked =>
          have hless : value.weight < (Json.object members).weight :=
            Json.weight_lt_of_member (Entries.mem_of_get? hfound)
          exact .some (blanked_rewrite _ key hblanked fun part part' hle ↦
            hparts part part' (Nat.lt_of_le_of_lt hle hless))

end Classified

/-! ### Expanding to blanked fragments -/

/-- The second fragment is the first with blanks, as it is written and in what a merge takes
from it. -/
structure Blanked (fragment fragment' : Fragment) : Prop where
  written : fragment.WrittenBlanked fragment'
  properties : Entries.Alike WrittenBlanked fragment.properties fragment'.properties
  required : fragment'.required = fragment.required
  additional : Option.Rel WrittenBlanked fragment.additional? fragment'.additional?

namespace Blanked

theorem any {value value' : Json} (hblanked : value.Blanked value') :
    Blanked (.any value) (.any value') := by
  refine ⟨hblanked, ?_, ?_, ?_⟩
  · have hrel := hblanked.get? "properties"
    rw [Fragment.properties, Fragment.properties]
    generalize value.get? "properties" = found at hrel ⊢
    generalize value'.get? "properties" = found' at hrel ⊢
    cases hrel with
    | none => exact .nil
    | some hdeclared =>
      cases hdeclared with
      | object hleft hright hget =>
        have halike : Entries.Alike Json.Blanked _ _ := ⟨hleft, hright, hget⟩
        simp only [Option.bind_some, Json.asObject?]
        rw [ofMembers_eq_map, ofMembers_eq_map]
        exact halike.mapValues fun _ _ _ _ _ ↦ blanked_ofJson
      | _ => exact .nil
  · rw [Fragment.required, Fragment.required]
    exact congrArg (Option.getD · [])
      (bind_eq_of_rel (hblanked.get? "required") fun _ _ hnames ↦ hnames.asStrings?)
  · have hrel := hblanked.get? "additionalProperties"
    rw [Fragment.additional?, Fragment.additional?]
    generalize value.get? "additionalProperties" = found at hrel ⊢
    generalize value'.get? "additionalProperties" = found' at hrel ⊢
    cases hrel with
    | none => exact .none
    | some hpart => exact .some (blanked_ofJson hpart)

theorem primitive (kind : PrimitiveKind) {choices choices' : Option (List Json)}
    {annotations annotations' : Fields}
    (hchoices : Option.Rel (List.Forall₂ Json.Blanked) choices choices')
    (hannotations : Entries.Alike Json.Blanked annotations annotations') :
    Blanked (.primitive kind choices annotations) (.primitive kind choices' annotations') := by
  refine ⟨Json.blanked_object_iff.mpr ?_, .nil, rfl, .none⟩
  refine .extend (.insertSome (.insert .nil "type" (.string kind.name)) "enum" ?_) hannotations
  cases hchoices with
  | none => exact .none
  | some hitems => exact .some (.array hitems)

theorem array {items items' : Option Fragment} {annotations annotations' : Fields}
    (hitems : Option.Rel WrittenBlanked items items')
    (hannotations : Entries.Alike Json.Blanked annotations annotations') :
    Blanked (.array items annotations) (.array items' annotations') := by
  refine ⟨Json.blanked_object_iff.mpr ?_, .nil, rfl, .none⟩
  refine .extend (.insertSome (.insert .nil "type" (.string "array")) "items" ?_) hannotations
  cases hitems with
  | none => exact .none
  | some hitems => exact .some hitems

theorem object {properties properties' : Option Properties} (required : Option (List String))
    {additional additional' : Option Fragment} {annotations annotations' : Fields}
    (hproperties : Option.Rel (Entries.Alike WrittenBlanked) properties properties')
    (hadditional : Option.Rel WrittenBlanked additional additional')
    (hannotations : Entries.Alike Json.Blanked annotations annotations') :
    Blanked (.object properties required additional annotations)
      (.object properties' required additional' annotations') := by
  refine ⟨Json.blanked_object_iff.mpr ?_, ?_, rfl, hadditional⟩
  · refine .extend (.insertSome (.insertSome (.insertSome (.insert .nil "type" (.string "object"))
      "properties" ?_) "required" ?_) "additionalProperties" ?_) hannotations
    · cases hproperties with
      | none => exact .none
      | some hproperties =>
        refine .some (Json.blanked_object_iff.mpr ?_)
        rw [toMembers_eq_map, toMembers_eq_map]
        exact hproperties.mapValues fun _ _ _ _ _ hwritten ↦ hwritten
    · cases required with
      | none => exact .none
      | some names => exact .some (Json.blanked_strings names)
    · cases hadditional with
      | none => exact .none
      | some hadditional => exact .some hadditional
  · cases hproperties with
    | none => exact .nil
    | some hproperties => exact hproperties

end Blanked

/-- What has been merged from blanked members is what has been merged from the members, blanked. -/
structure Merged.Blanked (merged merged' : Merged) : Prop where
  properties : Entries.Alike WrittenBlanked merged.properties merged'.properties
  required : merged'.required = merged.required
  additional : Option.Rel WrittenBlanked merged.additional merged'.additional

theorem Merged.Blanked.add {merged merged' : Merged} (hmerged : merged.Blanked merged')
    {fragment fragment' : Fragment} (hfragment : fragment.Blanked fragment') :
    (merged.add fragment).Blanked (merged'.add fragment') := by
  refine ⟨hmerged.properties.extend hfragment.properties, ?_, ?_⟩
  · rw [Merged.add, Merged.add, hmerged.required, hfragment.required]
  · exact rel_or hfragment.additional hmerged.additional

theorem Merged.Blanked.foldl {members members' : List Fragment}
    (hmembers : List.Forall₂ Fragment.Blanked members members') {merged merged' : Merged}
    (hmerged : merged.Blanked merged') :
    (members.foldl Merged.add merged).Blanked (members'.foldl Merged.add merged') := by
  induction hmembers generalizing merged merged' with
  | nil => exact hmerged
  | cons hfirst _ ih => exact ih (hmerged.add hfirst)

/-- The merge of blanked members is the merge of the members, blanked. -/
theorem blanked_mergeAllOf {members members' : List Fragment}
    (hmembers : List.Forall₂ Blanked members members') :
    (mergeAllOf members).Blanked (mergeAllOf members') := by
  have hmerged : Merged.Blanked {} {} := ⟨.nil, rfl, .none⟩
  obtain ⟨hproperties, hrequired, hadditional⟩ := hmerged.foldl hmembers
  rw [mergeAllOf, mergeAllOf, Merged.toFragment, Merged.toFragment, hrequired]
  exact .object _ (.some hproperties) hadditional .nil

end Fragment

end EventSchema
