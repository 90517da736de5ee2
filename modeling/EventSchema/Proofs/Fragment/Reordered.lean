import EventSchema.Fragment.Expand
import EventSchema.Proofs.Fragment.Blanked
import EventSchema.Proofs.Fragment.References

/-!
# Values and what they are classified as

A value can be expanded as plain JSON, where every object is walked alike, or be classified first,
where the keywords that its shape reads are walked as schemas and written first. Both walks follow
the same references, up to their order (`perm_followed_ofJson`), and end in the same value, up to
the order of members (`reordered_substitute`), since what stands under a keyword is walked in the
same two ways. The one keyword that is no schema itself is `properties`: a map of properties that
has a string under `$ref`, or an array under `allOf`, is a node for the first walk alone
(`Json.Ambiguous`).
-/

set_option autoImplicit false

namespace EventSchema

namespace Json

/-! ### Reordered values -/

/-- The second value is the first with the members of some objects in another order. -/
inductive Reordered : Json → Json → Prop
  | refl (value : Json) : Reordered value value
  | array {items items' : List Json} (hitems : List.Forall₂ Reordered items items') :
    Reordered (.array items) (.array items')
  | object {keys : List String} {members middle members' : Fields}
    (horder : members.Perm middle) (hmembers : Entries.Aligned Reordered keys middle members') :
    Reordered (.object members) (.object members')

/-- Every member of the second object is one of the first, reordered. -/
theorem Reordered.exists_member {members members' : Fields}
    (hreordered : Reordered (.object members) (.object members')) {key : String} {value' : Json}
    (hmem : (key, value') ∈ members') :
    ∃ value, (key, value) ∈ members ∧ value.Reordered value' := by
  cases hreordered with
  | refl _ => exact ⟨value', hmem, .refl value'⟩
  | object horder hmembers =>
    obtain ⟨value, hvalue, hrel⟩ := hmembers.exists_left hmem
    exact ⟨value, horder.mem_iff.mpr hvalue, hrel⟩

/-- A typed object whose map of properties is a reference or a composition too, where a classified
value is walked as a schema. -/
inductive Ambiguous : Json → Prop
  | here {members declared : Fields} (hshape : Fragment.shape members = .object)
    (hdeclared : Entries.get? members "properties" = some (.object declared))
    (hnode : isUnresolvedNode declared = true) : Ambiguous (.object members)
  | property {members declared : Fields} {name : String} {value : Json}
    (hshape : Fragment.shape members = .object)
    (hdeclared : Entries.get? members "properties" = some (.object declared))
    (hmem : (name, value) ∈ declared) (hvalue : Ambiguous value) : Ambiguous (.object members)
  | additional {members : Fields} {value : Json} (hshape : Fragment.shape members = .object)
    (hget : Entries.get? members "additionalProperties" = some value)
    (hvalue : Ambiguous value) : Ambiguous (.object members)
  | items {members : Fields} {value : Json} (hshape : Fragment.shape members = .array)
    (hget : Entries.get? members "items" = some value) (hvalue : Ambiguous value) :
    Ambiguous (.object members)

end Json

/-! ### The members that a shape reads -/

namespace Fragment

/-- The members of an object that its shape reads, in the order in which they are written. -/
def Shape.interpreted : Shape → Fields → Fields
  | .object, members =>
    ("type", .string "object") ::
      ((((Entries.get? members "properties").bind Json.asObject?).map
          fun declared ↦ ("properties", .object declared)).toList ++
        ((requiredOf members).map fun names ↦ ("required", .array (names.map .string))).toList ++
        ((Entries.get? members "additionalProperties").map
          fun value ↦ ("additionalProperties", value)).toList)
  | .array, members =>
    ("type", .string "array") ::
      ((Entries.get? members "items").map fun value ↦ ("items", value)).toList
  | .primitive kind, members =>
    ("type", .string kind.name) ::
      ((choicesOf members).map fun values ↦ ("enum", .array values)).toList
  | .reference _, _ | .composition, _ | .any, _ => []

variable {members : Fields}

theorem ofJson_of_object (hshape : shape members = .object) : ofJson (.object members) =
    .object (propertiesOf members) (requiredOf members) (partOf "additionalProperties" members)
      (members.filter fun entry ↦ !isObjectKeyword entry) := by
  rw [ofJson]
  simp only [hshape]

theorem ofJson_of_array (hshape : shape members = .array) : ofJson (.object members) =
    .array (partOf "items" members) (members.filter fun entry ↦ !isArrayKeyword entry) := by
  rw [ofJson]
  simp only [hshape]

theorem ofJson_of_primitive {kind : PrimitiveKind} (hshape : shape members = .primitive kind) :
    ofJson (.object members) = .primitive kind (choicesOf members)
      (members.filter fun entry ↦ !isPrimitiveKeyword entry) := by
  rw [ofJson]
  simp only [hshape]

/-- A typed object is written with keywords: its type at least. -/
theorem keywords_ofJson_ne_nil (htyped : (shape members).typeName? ≠ none) :
    (ofJson (.object members)).keywords ≠ [] := by
  cases hshape : shape members with
  | object => rw [ofJson_of_object hshape]; exact List.cons_ne_nil _ _
  | array => rw [ofJson_of_array hshape]; exact List.cons_ne_nil _ _
  | primitive kind => rw [ofJson_of_primitive hshape]; exact List.cons_ne_nil _ _
  | reference _ | composition | any =>
    rw [hshape] at htyped
    exact absurd rfl htyped

theorem propertiesOf_eq_map (members : Fields) : propertiesOf members =
    ((Entries.get? members "properties").bind Json.asObject?).map ofMembers := by
  rw [propertiesOf_eq]
  cases Entries.get? members "properties" with
  | none => rfl
  | some value => cases value <;> rfl

theorem keys_interpreted (htyped : (shape members).typeName? ≠ none) :
    Entries.keys ((shape members).interpreted members) =
      Entries.keys (ofJson (.object members)).keywords := by
  rw [ofJson]
  cases hshape : shape members with
  | object =>
    simp only [Shape.interpreted, keywords, propertiesOf_eq_map, partOf_eq]
    cases (Entries.get? members "properties").bind Json.asObject? <;>
      cases requiredOf members <;> cases Entries.get? members "additionalProperties" <;> rfl
  | array =>
    simp only [Shape.interpreted, keywords, partOf_eq]
    cases Entries.get? members "items" <;> rfl
  | primitive kind => rfl
  | reference _ | composition | any =>
    rw [hshape] at htyped
    exact absurd rfl htyped

/-- What the shape reads are the members that classification takes for keywords. -/
theorem mem_interpreted_object {key : String} {value : Json}
    (htype : Entries.get? members "type" = some (.string "object")) :
    (key, value) ∈ Shape.object.interpreted members ↔
      Entries.get? members key = some value ∧ isObjectKeyword (key, value) = true := by
  simp only [Shape.interpreted, requiredOf, isObjectKeyword, List.mem_cons, List.mem_append,
    Option.mem_toList, Option.map_eq_some_iff, Option.bind_eq_some_iff, Prod.mk.injEq,
    Json.asObject?_eq_some_iff, Json.asStrings?_eq_some_iff, Option.isSome_iff_exists,
    Bool.or_eq_true, Bool.and_eq_true, beq_iff_eq]
  constructor
  · rintro (⟨rfl, rfl⟩ | (⟨declared, ⟨_, hget, rfl⟩, rfl, rfl⟩ |
      ⟨names, ⟨_, hget, rfl⟩, rfl, rfl⟩) | ⟨_, hget, rfl, rfl⟩)
    · exact ⟨htype, by simp⟩
    · exact ⟨hget, by simp [Json.isObject]⟩
    · exact ⟨hget, by simp⟩
    · exact ⟨hget, by simp⟩
  · rintro ⟨hget, ((rfl | ⟨rfl, hobject⟩) | ⟨rfl, names, rfl⟩) | rfl⟩
    · exact .inl ⟨rfl, by rw [htype] at hget; exact (Option.some.inj hget).symm⟩
    · cases value with
      | object declared => exact .inr (.inl (.inl ⟨declared, ⟨_, hget, rfl⟩, rfl, rfl⟩))
      | _ => cases hobject
    · exact .inr (.inl (.inr ⟨names, ⟨_, hget, rfl⟩, rfl, rfl⟩))
    · exact .inr (.inr ⟨value, hget, rfl, rfl⟩)

theorem mem_interpreted_array {key : String} {value : Json}
    (htype : Entries.get? members "type" = some (.string "array")) :
    (key, value) ∈ Shape.array.interpreted members ↔
      Entries.get? members key = some value ∧ isArrayKeyword (key, value) = true := by
  simp only [Shape.interpreted, isArrayKeyword, List.mem_cons, Option.mem_toList,
    Option.map_eq_some_iff, Prod.mk.injEq, Bool.or_eq_true, beq_iff_eq]
  constructor
  · rintro (⟨rfl, rfl⟩ | ⟨_, hget, rfl, rfl⟩)
    · exact ⟨htype, .inl rfl⟩
    · exact ⟨hget, .inr rfl⟩
  · rintro ⟨hget, rfl | rfl⟩
    · exact .inl ⟨rfl, by rw [htype] at hget; exact (Option.some.inj hget).symm⟩
    · exact .inr ⟨value, hget, rfl, rfl⟩

theorem mem_interpreted_primitive {kind : PrimitiveKind} {key : String} {value : Json}
    (htype : Entries.get? members "type" = some (.string kind.name)) :
    (key, value) ∈ (Shape.primitive kind).interpreted members ↔
      Entries.get? members key = some value ∧ isPrimitiveKeyword (key, value) = true := by
  simp only [Shape.interpreted, choicesOf, isPrimitiveKeyword, List.mem_cons, Option.mem_toList,
    Option.map_eq_some_iff, Option.bind_eq_some_iff, Prod.mk.injEq, Json.asArray?_eq_some_iff,
    Option.isSome_iff_exists, Bool.or_eq_true, Bool.and_eq_true, beq_iff_eq]
  constructor
  · rintro (⟨rfl, rfl⟩ | ⟨values, ⟨_, hget, rfl⟩, rfl, rfl⟩)
    · exact ⟨htype, .inl rfl⟩
    · exact ⟨hget, .inr ⟨rfl, values, rfl⟩⟩
  · rintro ⟨hget, rfl | ⟨rfl, values, rfl⟩⟩
    · exact .inl ⟨rfl, by rw [htype] at hget; exact (Option.some.inj hget).symm⟩
    · exact .inr ⟨values, ⟨_, hget, rfl⟩, rfl, rfl⟩

theorem mem_iff_interpreted_or_kept (hunique : Entries.Unique members)
    (htyped : (shape members).typeName? ≠ none) (entry : String × Json) :
    entry ∈ members ↔
      entry ∈ (shape members).interpreted members ++ (ofJson (.object members)).kept := by
  obtain ⟨key, value⟩ := entry
  have hmem : (key, value) ∈ members ↔ Entries.get? members key = some value :=
    ⟨hunique.get?_of_mem, Entries.mem_of_get?⟩
  have hkeyword {isKeyword : String × Json → Bool} {interpreted : Fields}
      (hinterpreted : (key, value) ∈ interpreted ↔
        Entries.get? members key = some value ∧ isKeyword (key, value) = true) :
      (key, value) ∈ members ↔
        (key, value) ∈ interpreted ++ members.filter fun entry ↦ !isKeyword entry := by
    rw [List.mem_append, hinterpreted, List.mem_filter, ← hmem]
    cases isKeyword (key, value) <;> simp
  obtain ⟨name, hname⟩ := Option.ne_none_iff_exists'.mp htyped
  have htype := get?_type_of_shape hname
  rw [ofJson]
  cases hshape : shape members with
  | object =>
    rw [hshape] at hname
    cases hname
    exact hkeyword (mem_interpreted_object htype)
  | array =>
    rw [hshape] at hname
    cases hname
    exact hkeyword (mem_interpreted_array htype)
  | primitive kind =>
    rw [hshape] at hname
    cases hname
    exact hkeyword (mem_interpreted_primitive htype)
  | reference _ | composition | any =>
    rw [hshape] at htyped
    exact absurd rfl htyped

/-- A typed object has the members that its shape reads and its annotations. -/
theorem perm_interpreted_append_kept (hdistinct : (Json.object members).Distinct)
    (htyped : (shape members).typeName? ≠ none) :
    members.Perm ((shape members).interpreted members ++ (ofJson (.object members)).kept) := by
  refine hdistinct.unique.perm ?_ (mem_iff_interpreted_or_kept hdistinct.unique htyped)
  refine (distinct_ofJson hdistinct).written.of_keys_eq ?_
  have hkeys := keys_interpreted htyped
  rw [Entries.keys, Entries.keys] at hkeys
  rw [written, Entries.keys, Entries.keys, List.map_append, List.map_append, hkeys]

/-! ### The references that are followed -/

/-- An object that is no reference and no composition is typed, or of no class. -/
theorem typed_or_any (hplain : Json.isUnresolvedNode members = false) :
    (shape members).typeName? ≠ none ∨ shape members = .any := by
  rw [isUnresolvedNode_eq] at hplain
  cases hshape : shape members with
  | reference _ | composition =>
    rw [hshape] at hplain
    cases hplain
  | any => exact .inr rfl
  | object | array | primitive kind => exact .inl (Option.some_ne_none _)

/-- What is asked of the values that the shape of an object reads as schemas. -/
structure ReadsAs (P : Json → Prop) (members : Fields) : Prop where
  properties (hshape : shape members = .object) (declared : Fields)
    (hget : Entries.get? members "properties" = some (.object declared)) :
    Json.isUnresolvedNode declared = false ∧ ∀ name part, (name, part) ∈ declared → P part
  additional (hshape : shape members = .object) (part : Json)
    (hget : Entries.get? members "additionalProperties" = some part) : P part
  items (hshape : shape members = .array) (part : Json)
    (hget : Entries.get? members "items" = some part) : P part

/-- The schemas that an object reads are lighter than the object, and none of them is ambiguous if
the object is not. -/
theorem readsAs_of_lighter {P : Json → Prop} (hdistinct : (Json.object members).Distinct)
    (hclear : ¬(Json.object members).Ambiguous)
    (hlighter : ∀ part : Json, part.weight < (Json.object members).weight → part.Distinct →
      ¬part.Ambiguous → P part) : ReadsAs P members where
  properties hshape declared hget := by
    have hmap := Entries.mem_of_get? hget
    refine ⟨?_, fun name part hmem ↦ ?_⟩
    · rw [← Bool.not_eq_true]
      exact fun hnode ↦ hclear (.here hshape hget hnode)
    · have hless := Nat.lt_trans (Json.weight_lt_of_member hmem) (Json.weight_lt_of_member hmap)
      exact hlighter part hless ((hdistinct.member hmap).member hmem)
        fun hambiguous ↦ hclear (.property hshape hget hmem hambiguous)
  additional hshape part hget := by
    have hmem := Entries.mem_of_get? hget
    exact hlighter part (Json.weight_lt_of_member hmem) (hdistinct.member hmem)
      fun hambiguous ↦ hclear (.additional hshape hget hambiguous)
  items hshape part hget := by
    have hmem := Entries.mem_of_get? hget
    exact hlighter part (Json.weight_lt_of_member hmem) (hdistinct.member hmem)
      fun hambiguous ↦ hclear (.items hshape hget hambiguous)

/-- Values without ambiguities are nodes, typed objects over such values, or of no class. -/
theorem unambiguous_induction {P : Json → Prop}
    (any : ∀ value, ofJson value = .any value → P value)
    (node : ∀ members, Json.isUnresolvedNode members = true → P (.object members))
    (typed : ∀ members, (Json.object members).Distinct →
      Json.isUnresolvedNode members = false → (shape members).typeName? ≠ none →
        ReadsAs P members → P (.object members))
    {value : Json} (hdistinct : value.Distinct) (hclear : ¬value.Ambiguous) : P value := by
  induction hweight : value.weight using Nat.strongRecOn generalizing value with
  | ind weight ih =>
    cases value with
    | object members =>
      by_cases hnode : Json.isUnresolvedNode members = true
      · exact node members hnode
      rw [Bool.not_eq_true] at hnode
      rcases typed_or_any hnode with htyped | hshape
      · refine typed members hdistinct hnode htyped (readsAs_of_lighter hdistinct hclear ?_)
        exact fun part hless hpart hclear ↦ ih part.weight (hweight ▸ hless) hpart hclear rfl
      · refine any _ ?_
        rw [ofJson, hshape]
    | null | bool _ | number _ | string _ | array _ => exact any _ (by simp [ofJson])

/-- What a walk of members as plain JSON follows. -/
abbrev followedIn (members : Fields) : List String := members.flatMap fun entry ↦ entry.2.followed

theorem followedIn_string (key text : String) (rest : Fields) :
    followedIn ((key, .string text) :: rest) = followedIn rest := by
  rw [followedIn, List.flatMap_cons, Json.followed, List.nil_append]
  all_goals simp

theorem followed_names (names : List String) :
    (Json.array (names.map .string)).followed = [] := by
  rw [Json.followed, Json.followedInItems_eq_flatMap, List.flatMap_map, List.flatMap_eq_nil_iff]
  intro name _
  simp only [Json.followed]

theorem followedInChoices_eq (kind : PrimitiveKind) : Json.followedInChoices (choicesOf members) =
    followedIn ((Shape.primitive kind).interpreted members) := by
  rw [Shape.interpreted, followedIn_string]
  cases choicesOf members with
  | none => rw [Json.followedInChoices]; rfl
  | some choices =>
    rw [Json.followedInChoices, Option.map_some, Option.toList_some, followedIn,
      List.flatMap_singleton, Json.followed]

theorem perm_followed_part {key : String} (hpart : ∀ part, Entries.get? members key = some part →
      (ofJson part).followed.Perm part.followed) :
    (followedInPart (partOf key members)).Perm
      (followedIn ((Entries.get? members key).map fun value ↦ (key, value)).toList) := by
  rw [partOf_eq]
  cases hget : Entries.get? members key with
  | none =>
    rw [Option.map_none, followedInPart]
    exact .refl _
  | some part =>
    rw [Option.map_some, Option.map_some, Option.toList_some, followedInPart, followedIn,
      List.flatMap_singleton]
    exact hpart part hget

theorem perm_followed_properties
    (hproperties : ∀ declared, Entries.get? members "properties" = some (.object declared) →
      Json.isUnresolvedNode declared = false ∧
        ∀ name part, (name, part) ∈ declared → (ofJson part).followed.Perm part.followed) :
    (followedInProperties (propertiesOf members)).Perm
      (followedIn (((Entries.get? members "properties").bind Json.asObject?).map
        fun declared ↦ ("properties", .object declared)).toList) := by
  rw [propertiesOf_eq_map]
  cases hget : (Entries.get? members "properties").bind Json.asObject? with
  | none =>
    rw [Option.map_none, followedInProperties]
    exact .refl _
  | some declared =>
    obtain ⟨value, hvalue, hdeclared⟩ := Option.bind_eq_some_iff.mp hget
    obtain rfl := Json.asObject?_eq_some_iff.mp hdeclared
    obtain ⟨hplain, hparts⟩ := hproperties declared hvalue
    rw [Option.map_some, Option.map_some, Option.toList_some, followedInProperties, followedIn,
      List.flatMap_singleton, followedInMembers_eq_flatMap, ofMembers_eq_map, List.flatMap_map,
      Json.followed, dif_neg (by simp [hplain]), Json.followedInMembers_eq_flatMap]
    exact .flatMap_left _ fun entry hmem ↦ hparts entry.1 entry.2 hmem

theorem followedIn_required : followedIn ((requiredOf members).map
    fun names ↦ ("required", Json.array (names.map .string))).toList = [] := by
  cases requiredOf members with
  | none => rfl
  | some names =>
    rw [Option.map_some, Option.toList_some, followedIn, List.flatMap_singleton, followed_names]

/-- A typed object follows under its keywords what a walk of the keywords follows. -/
theorem perm_followed_typed (htyped : (shape members).typeName? ≠ none)
    (hparts : ReadsAs (fun part ↦ (ofJson part).followed.Perm part.followed) members) :
    (ofJson (.object members)).followed.Perm
      (followedIn ((shape members).interpreted members) ++
        followedIn (ofJson (.object members)).kept) := by
  rw [ofJson]
  cases hshape : shape members with
  | object =>
    rw [followed, kept, Json.followedInMembers_eq_flatMap]
    refine .append_right _ ?_
    rw [Shape.interpreted, followedIn_string, followedIn, List.flatMap_append,
      List.flatMap_append, ← followedIn, ← followedIn, ← followedIn, followedIn_required,
      List.append_nil]
    exact .append (perm_followed_properties (hparts.properties hshape))
      (perm_followed_part (hparts.additional hshape))
  | array =>
    rw [followed, kept, Json.followedInMembers_eq_flatMap, Shape.interpreted, followedIn_string]
    exact .append_right _ (perm_followed_part (hparts.items hshape))
  | primitive kind =>
    rw [followed, kept, Json.followedInMembers_eq_flatMap, followedInChoices_eq]
  | reference _ | composition | any =>
    rw [hshape] at htyped
    exact absurd rfl htyped

/-- A classified value follows the references of the value, those under keywords first. -/
theorem perm_followed_ofJson {value : Json} (hdistinct : value.Distinct)
    (hclear : ¬value.Ambiguous) : (ofJson value).followed.Perm value.followed := by
  refine unambiguous_induction (P := fun value ↦ (ofJson value).followed.Perm value.followed)
    (fun value hany ↦ ?_) (fun members hnode ↦ ?_)
    (fun members hdistinct hplain htyped hparts ↦ ?_) hdistinct hclear
  · rw [hany, followed]
  · rw [Json.followed, dif_pos hnode]
  · have horder := (perm_interpreted_append_kept hdistinct htyped).flatMap_right
      fun entry ↦ entry.2.followed
    rw [Json.followed, dif_neg (by simp [hplain]), Json.followedInMembers_eq_flatMap]
    refine .trans ?_ horder.symm
    rw [List.flatMap_append]
    exact perm_followed_typed htyped hparts

end Fragment

/-! ### What the walks end in -/

section Substitute

variable (denote : String → Fragment)

/-- The fragment with what is denoted in place of every reference, and merges in place of
compositions. -/
def Fragment.substitute (fragment : Fragment) : Fragment :=
  Id.run (fragment.expand (m := Id) denote)

/-- The value with what is denoted in place of every reference, and merges in place of
compositions. -/
def Json.substitute (value : Json) : Json := Id.run (value.expand (m := Id) denote)

theorem expandMembers_eq_mapValues (members : Fields) :
    Json.expandMembers (m := Id) denote members = members.mapValues (Json.substitute denote) := by
  induction members with
  | nil => rw [Json.expandMembers]; rfl
  | cons entry rest ih => rw [Json.expandMembers, ih]; rfl

theorem expandItems_eq_map (items : List Json) :
    Json.expandItems (m := Id) denote items = items.map (Json.substitute denote) := by
  induction items with
  | nil => rw [Json.expandItems]; rfl
  | cons item rest ih => rw [Json.expandItems, ih]; rfl

theorem expandProperties_eq_mapValues (properties : Properties) :
    Fragment.expandMembers (m := Id) denote properties =
      properties.mapValues (Fragment.substitute denote) := by
  induction properties with
  | nil => rw [Fragment.expandMembers]; rfl
  | cons entry rest ih => rw [Fragment.expandMembers, ih]; rfl

theorem Json.substitute_string (text : String) :
    (Json.string text).substitute denote = .string text := by
  simp only [Json.substitute, Json.expand]
  rfl

theorem Json.substitute_array (items : List Json) :
    (Json.array items).substitute denote = .array (items.map (Json.substitute denote)) := by
  rw [Json.substitute, Json.expand, expandItems_eq_map]
  rfl

theorem Json.substitute_of_plain {members : Fields}
    (hplain : Json.isUnresolvedNode members = false) : (Json.object members).substitute denote =
      .object (Entries.mapValues (Json.substitute denote) members) := by
  rw [Json.substitute, Json.expand, dif_neg (by simp [hplain]), expandMembers_eq_mapValues]
  rfl

theorem Json.substitute_of_node {members : Fields}
    (hnode : Json.isUnresolvedNode members = true) : (Json.object members).substitute denote =
      ((Fragment.ofJson (.object members)).substitute denote).toJson := by
  rw [Json.substitute, Json.expand, dif_pos hnode]
  rfl

namespace Fragment

theorem substitute_any (value : Json) :
    (any value).substitute denote = .any (value.substitute denote) := by
  rw [substitute, expand]
  rfl

theorem substitute_primitive (kind : PrimitiveKind) (choices : Option (List Json))
    (annotations : Fields) : (primitive kind choices annotations).substitute denote =
      .primitive kind (choices.map (List.map (Json.substitute denote)))
        (Entries.mapValues (Json.substitute denote) annotations) := by
  rw [substitute, expand, expandMembers_eq_mapValues]
  cases choices with
  | none => rw [Json.expandChoices]; rfl
  | some choices => rw [Json.expandChoices, expandItems_eq_map]; rfl

theorem substitute_array (items : Option Fragment) (annotations : Fields) :
    (array items annotations).substitute denote =
      .array (items.map (substitute denote))
        (Entries.mapValues (Json.substitute denote) annotations) := by
  rw [substitute, expand, expandMembers_eq_mapValues]
  cases items with
  | none => rw [expandPart]; rfl
  | some fragment => rw [expandPart]; rfl

theorem substitute_object (properties : Option Properties) (required : Option (List String))
    (additional : Option Fragment) (annotations : Fields) :
    (object properties required additional annotations).substitute denote =
      .object (properties.map (Entries.mapValues (substitute denote))) required
        (additional.map (substitute denote))
        (Entries.mapValues (Json.substitute denote) annotations) := by
  rw [substitute, expand, expandMembers_eq_mapValues]
  cases properties with
  | none =>
    cases additional with
    | none => rw [expandProperties, expandPart]; rfl
    | some fragment => rw [expandProperties, expandPart]; rfl
  | some properties =>
    cases additional with
    | none => rw [expandProperties, expandProperties_eq_mapValues, expandPart]; rfl
    | some fragment => rw [expandProperties, expandProperties_eq_mapValues, expandPart]; rfl

variable {members : Fields}

theorem substituted_string (text : String) :
    ((Json.string text).substitute denote).Reordered (.string text) := by
  rw [Json.substitute_string]
  exact .refl _

theorem aligned_properties
    (hproperties : ∀ declared, Entries.get? members "properties" = some (.object declared) →
      Json.isUnresolvedNode declared = false ∧ ∀ name part, (name, part) ∈ declared →
        (part.substitute denote).Reordered ((ofJson part).substitute denote).toJson) :
    ∃ keys, Entries.Aligned Json.Reordered keys
      (Entries.mapValues (Json.substitute denote)
        (((Entries.get? members "properties").bind Json.asObject?).map
          fun declared ↦ ("properties", .object declared)).toList)
      (((propertiesOf members).map (Entries.mapValues (substitute denote))).map
        fun properties ↦ ("properties", .object (toMembers properties))).toList := by
  rw [propertiesOf_eq_map]
  cases hget : (Entries.get? members "properties").bind Json.asObject? with
  | none => exact ⟨_, .nil⟩
  | some declared =>
    obtain ⟨value, hvalue, hobject⟩ := Option.bind_eq_some_iff.mp hget
    obtain rfl := Json.asObject?_eq_some_iff.mp hobject
    obtain ⟨hplain, hparts⟩ := hproperties declared hvalue
    have hmembers : Entries.Aligned Json.Reordered (Entries.keys declared)
        (Entries.mapValues (Json.substitute denote) declared)
        (Entries.mapValues (fun part ↦ ((ofJson part).substitute denote).toJson) declared) :=
      .mapValues fun entry hmem ↦ hparts entry.1 entry.2 hmem
    refine ⟨_, .cons "properties" ?_ .nil⟩
    rw [Json.substitute_of_plain denote hplain, toMembers_eq_map, ofMembers_eq_map,
      Entries.mapValues, Entries.mapValues, List.map_map, List.map_map]
    exact .object (.refl _) hmembers

theorem aligned_required (members : Fields) : ∃ keys, Entries.Aligned Json.Reordered keys
    (Entries.mapValues (Json.substitute denote) ((requiredOf members).map
      fun names ↦ ("required", .array (names.map .string))).toList)
    ((requiredOf members).map
      fun names ↦ ("required", Json.array (names.map .string))).toList := by
  cases requiredOf members with
  | none => exact ⟨_, .nil⟩
  | some names =>
    refine ⟨_, .cons "required" ?_ .nil⟩
    rw [Json.substitute_array, List.map_map]
    exact .array (List.forall₂_map_left_iff.mpr (List.forall₂_map_right_iff.mpr
      (List.forall₂_same.mpr fun name _ ↦ substituted_string denote name)))

theorem aligned_part {key : String} (hpart : ∀ part, Entries.get? members key = some part →
      (part.substitute denote).Reordered ((ofJson part).substitute denote).toJson) :
    ∃ keys, Entries.Aligned Json.Reordered keys
      (Entries.mapValues (Json.substitute denote)
        ((Entries.get? members key).map fun value ↦ (key, value)).toList)
      (((partOf key members).map (substitute denote)).map
        fun fragment ↦ (key, fragment.toJson)).toList := by
  rw [partOf_eq]
  cases hget : Entries.get? members key with
  | none => exact ⟨_, .nil⟩
  | some part => exact ⟨_, .cons key (hpart part hget) .nil⟩

/-- The keywords of a classified object are the members that its shape reads, walked in the
other way. -/
theorem aligned_keywords (htyped : (shape members).typeName? ≠ none)
    (hparts : ReadsAs (fun part ↦
      (part.substitute denote).Reordered ((ofJson part).substitute denote).toJson) members) :
    ∃ keys, Entries.Aligned Json.Reordered keys
      (Entries.mapValues (Json.substitute denote) ((shape members).interpreted members))
      ((ofJson (.object members)).substitute denote).keywords := by
  rw [ofJson]
  cases hshape : shape members with
  | object =>
    obtain ⟨_, hproperties⟩ := aligned_properties denote (hparts.properties hshape)
    obtain ⟨_, hrequired⟩ := aligned_required denote members
    obtain ⟨_, hadditional⟩ := aligned_part denote (hparts.additional hshape)
    rw [substitute_object, Shape.interpreted, keywords]
    have hkeywords := (hproperties.append hrequired).append hadditional
    rw [Entries.mapValues, Entries.mapValues, Entries.mapValues, ← List.map_append,
      ← List.map_append] at hkeywords
    exact ⟨_, .cons "type" (substituted_string denote _) hkeywords⟩
  | array =>
    obtain ⟨_, hitems⟩ := aligned_part denote (hparts.items hshape)
    rw [substitute_array, Shape.interpreted, keywords]
    exact ⟨_, .cons "type" (substituted_string denote _) hitems⟩
  | primitive kind =>
    rw [substitute_primitive, Shape.interpreted, keywords]
    cases choicesOf members with
    | none => exact ⟨_, .cons "type" (substituted_string denote _) .nil⟩
    | some choices =>
      refine ⟨_, .cons "type" (substituted_string denote _) (.cons "enum" ?_ .nil)⟩
      rw [Json.substitute_array]
      exact .refl _
  | reference _ | composition | any =>
    rw [hshape] at htyped
    exact absurd rfl htyped

/-- A fragment with keywords is one of the typed ones, and it keeps them and its annotations. -/
theorem substitute_typed {fragment : Fragment} (htyped : fragment.keywords ≠ []) :
    (fragment.substitute denote).kept =
        Entries.mapValues (Json.substitute denote) fragment.kept ∧
      Entries.keys (fragment.substitute denote).keywords = Entries.keys fragment.keywords := by
  cases fragment with
  | primitive kind choices annotations =>
    rw [substitute_primitive]
    exact ⟨rfl, by cases choices <;> rfl⟩
  | array items annotations =>
    rw [substitute_array]
    exact ⟨rfl, by cases items <;> rfl⟩
  | object properties required additional annotations =>
    rw [substitute_object]
    exact ⟨rfl, by cases properties <;> cases required <;> cases additional <;> rfl⟩
  | any _ | reference _ | composition _ => exact absurd rfl htyped

/-- The two walks of a typed object differ in the keywords alone. -/
theorem reordered_of_aligned {keys : List String} (hdistinct : (Json.object members).Distinct)
    (hplain : Json.isUnresolvedNode members = false) (htyped : (shape members).typeName? ≠ none)
    (haligned : Entries.Aligned Json.Reordered keys
      (Entries.mapValues (Json.substitute denote) ((shape members).interpreted members))
      ((ofJson (.object members)).substitute denote).keywords) :
    ((Json.object members).substitute denote).Reordered
      ((ofJson (.object members)).substitute denote).toJson := by
  have hkeywords := keywords_ofJson_ne_nil htyped
  obtain ⟨hkept, hkeys⟩ := substitute_typed denote hkeywords
  have hunique : Entries.Unique ((ofJson (.object members)).substitute denote).written := by
    refine (distinct_ofJson hdistinct).written.of_keys_eq ?_
    rw [written, written, hkept, Entries.keys_append, Entries.keys_append, hkeys,
      Entries.keys_mapValues]
  have hsubstituted : ((ofJson (.object members)).substitute denote).keywords ≠ [] := by
    intro hnil
    rw [hnil] at hkeys
    exact hkeywords (List.map_eq_nil_iff.mp hkeys.symm)
  have hannotations : Entries.Aligned Json.Reordered (Entries.keys (ofJson (.object members)).kept)
      (Entries.mapValues (Json.substitute denote) (ofJson (.object members)).kept)
      (Entries.mapValues (Json.substitute denote) (ofJson (.object members)).kept) :=
    .mapValues fun entry _ ↦ .refl _
  have horder := (perm_interpreted_append_kept hdistinct htyped).map
    fun entry ↦ (entry.1, entry.2.substitute denote)
  rw [List.map_append] at horder
  rw [Json.substitute_of_plain denote hplain, toJson_eq_written hunique hsubstituted, written,
    hkept]
  exact .object horder (haligned.append hannotations)

theorem reordered_substitute {value : Json} (hdistinct : value.Distinct)
    (hclear : ¬value.Ambiguous) :
    (value.substitute denote).Reordered ((ofJson value).substitute denote).toJson := by
  refine unambiguous_induction (P := fun value ↦
      (value.substitute denote).Reordered ((ofJson value).substitute denote).toJson)
    (fun value hany ↦ ?_) (fun members hnode ↦ ?_)
    (fun members hdistinct hplain htyped hparts ↦ ?_) hdistinct hclear
  · rw [hany, substitute_any, toJson]
    exact .refl _
  · rw [Json.substitute_of_node denote hnode]
    exact .refl _
  · obtain ⟨keys, haligned⟩ := aligned_keywords denote htyped hparts
    exact reordered_of_aligned denote hdistinct hplain htyped haligned

end Fragment

end Substitute

end EventSchema
