import EventSchema.Proofs.Fragment.Marked
import EventSchema.Proofs.Json.Distinct

/-!
# How fragments of distinct keys are written

Where no key is written twice, a typed fragment is written as its keywords followed by its
annotations (`toJson_eq_written`). What a value of distinct keys is classified as is written so
(`distinct_ofJson`).
-/

set_option autoImplicit false

namespace EventSchema

namespace Fragment

/-- The keywords that a typed fragment is written with. -/
def keywords : Fragment → Fields
  | .primitive kind choices _ =>
    ("type", .string kind.name) :: (choices.map fun values ↦ ("enum", .array values)).toList
  | .array items _ =>
    ("type", .string "array") :: (items.map fun fragment ↦ ("items", fragment.toJson)).toList
  | .object properties required additional _ =>
    ("type", .string "object") ::
      ((properties.map fun entries ↦ ("properties", .object (toMembers entries))).toList ++
        (required.map fun names ↦ ("required", .array (names.map .string))).toList ++
        (additional.map fun fragment ↦ ("additionalProperties", fragment.toJson)).toList)
  | .any _ | .reference _ | .composition _ => []

def written (fragment : Fragment) : Fields := fragment.keywords ++ fragment.kept

section Keywords

variable {entry : String × Json} {annotations : Fields}

theorem mem_keywords_primitive {kind : PrimitiveKind} {choices : Option (List Json)} :
    entry ∈ (primitive kind choices annotations).keywords ↔
      entry = ("type", .string kind.name) ∨
        ∃ values, choices = some values ∧ ("enum", .array values) = entry := by
  simp only [keywords, List.mem_cons, Option.mem_toList, Option.map_eq_some_iff]

theorem mem_keywords_array {items : Option Fragment} :
    entry ∈ (array items annotations).keywords ↔
      entry = ("type", .string "array") ∨
        ∃ item, items = some item ∧ ("items", item.toJson) = entry := by
  simp only [keywords, List.mem_cons, Option.mem_toList, Option.map_eq_some_iff]

theorem mem_keywords_object {properties : Option Properties} {required : Option (List String)}
    {additional : Option Fragment} :
    entry ∈ (object properties required additional annotations).keywords ↔
      entry = ("type", .string "object") ∨
        (∃ entries, properties = some entries ∧
          ("properties", .object (toMembers entries)) = entry) ∨
        (∃ names, required = some names ∧ ("required", .array (names.map .string)) = entry) ∨
        ∃ part, additional = some part ∧ ("additionalProperties", part.toJson) = entry := by
  simp only [keywords, List.mem_cons, List.mem_append, Option.mem_toList, Option.map_eq_some_iff,
    or_assoc]

end Keywords

theorem enum_mem_written (kind : PrimitiveKind) (choices : List Json) (annotations : Fields) :
    ("enum", .array choices) ∈ (primitive kind (some choices) annotations).written :=
  List.mem_append_left _ (List.mem_cons_of_mem _ List.mem_cons_self)

theorem items_mem_written (fragment : Fragment) (annotations : Fields) :
    ("items", fragment.toJson) ∈ (array (some fragment) annotations).written :=
  List.mem_append_left _ (List.mem_cons_of_mem _ List.mem_cons_self)

theorem properties_mem_written (properties : Properties) (required : Option (List String))
    (additional : Option Fragment) (annotations : Fields) :
    ("properties", .object (toMembers properties)) ∈
      (object (some properties) required additional annotations).written :=
  List.mem_append_left _ (List.mem_cons_of_mem _ List.mem_cons_self)

theorem additional_mem_written (properties : Option Properties) (required : Option (List String))
    (fragment : Fragment) (annotations : Fields) :
    ("additionalProperties", fragment.toJson) ∈
      (object properties required (some fragment) annotations).written := by
  refine List.mem_append_left _ (List.mem_cons_of_mem _ ?_)
  exact List.mem_append_right _ List.mem_cons_self

/-- The entries that expansion walks as plain JSON. -/
def walked : Fragment → Fields
  | .any (.object members) => if Json.isUnresolvedNode members then [] else members
  | fragment => fragment.kept

/-- The map of the properties of a typed object. -/
def declared : Fragment → Properties
  | .object properties _ _ _ => properties.getD []
  | _ => []

/-- Nothing that is written or walked has a key twice. -/
structure Distinct (fragment : Fragment) : Prop where
  written : Entries.Unique fragment.written
  walked : Entries.Unique fragment.walked
  declared : Entries.Unique fragment.declared

theorem walked_of_plain {members : Fields} (hplain : Json.isUnresolvedNode members = false) :
    (Fragment.any (.object members)).walked = members := by
  rw [walked, hplain, if_neg Bool.false_ne_true]

/-! ### Writing -/

theorem toJson_eq_written {fragment : Fragment} (hunique : Entries.Unique fragment.written)
    (htyped : fragment.keywords ≠ []) : fragment.toJson = .object fragment.written := by
  cases fragment with
  | primitive kind choices annotations =>
    have hkeywords : (ofType kind.name).insertSome "enum" (choices.map Json.array) =
        (Fragment.primitive kind choices annotations).keywords := by cases choices <;> rfl
    rw [toJson, hkeywords]
    exact congrArg Json.object (Entries.extend_eq_append hunique)
  | array items annotations =>
    have hkeywords : (ofType "array").insertSome "items" (toPart items) =
        (Fragment.array items annotations).keywords := by cases items <;> rfl
    rw [toJson, hkeywords]
    exact congrArg Json.object (Entries.extend_eq_append hunique)
  | object properties required additional annotations =>
    have hkeywords : (((ofType "object").insertSome "properties"
        (toProperties properties)).insertSome "required"
          (required.map fun names ↦ .array (names.map Json.string))).insertSome
            "additionalProperties" (toPart additional) =
        (Fragment.object properties required additional annotations).keywords := by
      cases properties <;> cases required <;> cases additional <;> rfl
    rw [toJson, hkeywords]
    exact congrArg Json.object (Entries.extend_eq_append hunique)
  | any _ => exact absurd rfl htyped
  | reference _ => exact absurd rfl htyped
  | composition _ => exact absurd rfl htyped

theorem keywords_ne_nil {fragment : Fragment} (hkept : fragment.kept ≠ []) :
    fragment.keywords ≠ [] := by
  cases fragment with
  | primitive kind choices annotations => exact List.cons_ne_nil _ _
  | array items annotations => exact List.cons_ne_nil _ _
  | object properties required additional annotations => exact List.cons_ne_nil _ _
  | _ => exact absurd rfl hkept

theorem toMembers_of_mem {properties : Properties} {name : String} {fragment : Fragment}
    (hmem : (name, fragment) ∈ properties) : (name, fragment.toJson) ∈ toMembers properties := by
  rw [toMembers_eq_map]
  exact List.mem_map.mpr ⟨_, hmem, rfl⟩

theorem keys_toMembers (properties : Properties) :
    Entries.keys (toMembers properties) = properties.keys := by
  rw [toMembers_eq_map, Entries.keys, List.map_map]
  rfl

/-! ### Classifying -/

theorem unique_keywords (fragment : Fragment) : Entries.Unique fragment.keywords := by
  cases fragment with
  | primitive kind choices annotations =>
    cases choices <;> simp [keywords, Entries.Unique, Entries.keys]
  | array items annotations => cases items <;> simp [keywords, Entries.Unique, Entries.keys]
  | object properties required additional annotations =>
    cases properties <;> cases required <;> cases additional <;>
      simp [keywords, Entries.Unique, Entries.keys]
  | _ => exact List.nodup_nil

/-- What is neither a keyword nor under one can follow the keywords. -/
theorem unique_written {fragment : Fragment} (hkept : Entries.Unique fragment.kept)
    (hapart : ∀ keyword ∈ fragment.keywords, ∀ value, (keyword.1, value) ∉ fragment.kept) :
    Entries.Unique fragment.written := by
  rw [Entries.Unique, written, Entries.keys, List.map_append]
  refine List.nodup_append.mpr ⟨unique_keywords fragment, hkept, ?_⟩
  rintro key hkey _ hother rfl
  obtain ⟨keyword, hkeyword, rfl⟩ := List.mem_map.mp hkey
  obtain ⟨⟨other, value⟩, hmem, heq⟩ := List.mem_map.mp hother
  exact hapart keyword hkeyword value (heq ▸ hmem)

/-- Where members are kept that are no keywords, no keyword that is written can be kept. -/
theorem unique_written_of_filter {fragment : Fragment} {members : Fields}
    {isKeyword : String × Json → Bool} (hunique : Entries.Unique members)
    (hkept : fragment.kept = members.filter fun entry ↦ !isKeyword entry)
    (hread : ∀ keyword ∈ fragment.keywords, ∀ value,
      Entries.get? members keyword.1 = some value → isKeyword (keyword.1, value) = true) :
    Entries.Unique fragment.written := by
  refine unique_written (hkept ▸ hunique.filter _) fun keyword hkeyword value hmem ↦ ?_
  obtain ⟨hmem, hother⟩ := List.mem_filter.mp (hkept ▸ hmem)
  rw [hread keyword hkeyword value (hunique.get?_of_mem hmem)] at hother
  cases hother

/-- The properties of an object of distinct keys have distinct names. -/
theorem unique_of_propertiesOf {members : Fields} {properties : Properties}
    (hdistinct : (Json.object members).Distinct)
    (hproperties : propertiesOf members = some properties) : Entries.Unique properties := by
  obtain ⟨entries, hmap, rfl⟩ := exists_object_of_propertiesOf hproperties
  rw [Entries.Unique, Entries.keys, List.map_map]
  exact (hdistinct.member (Entries.mem_of_get? hmap)).unique

/-- What the shape of an object of distinct keys reads is no annotation. -/
theorem unique_written_ofJson {members : Fields} (hunique : Entries.Unique members) :
    Entries.Unique (ofJson (.object members)).written := by
  rw [ofJson]
  cases shape members with
  | reference target => exact List.nodup_nil
  | composition => exact List.nodup_nil
  | any => exact List.nodup_nil
  | primitive kind =>
    refine unique_written_of_filter hunique rfl fun keyword hkeyword value hget ↦ ?_
    obtain rfl | ⟨values, hvalues, rfl⟩ := mem_keywords_primitive.mp hkeyword
    · rfl
    · rw [choicesOf, hget, Option.bind_some] at hvalues
      simp [isPrimitiveKeyword, hvalues]
  | array =>
    refine unique_written_of_filter hunique rfl fun keyword hkeyword value _ ↦ ?_
    obtain rfl | ⟨item, -, rfl⟩ := mem_keywords_array.mp hkeyword <;> rfl
  | object =>
    refine unique_written_of_filter hunique rfl fun keyword hkeyword value hget ↦ ?_
    obtain rfl | ⟨entries, hentries, rfl⟩ | ⟨names, hnames, rfl⟩ | ⟨part, -, rfl⟩ :=
      mem_keywords_object.mp hkeyword
    · rfl
    · rw [propertiesOf_eq, hget, Option.bind_some] at hentries
      cases value <;> simp [fragmentsIn] at hentries
      rfl
    · rw [requiredOf, hget, Option.bind_some] at hnames
      simp [isObjectKeyword, hnames]
    · simp [isObjectKeyword]

theorem distinct_ofJson {value : Json} (hdistinct : value.Distinct) : (ofJson value).Distinct := by
  cases value with
  | object members =>
    have hunique := hdistinct.unique
    have hwritten := unique_written_ofJson hunique
    rw [ofJson] at hwritten ⊢
    cases hshape : shape members with
    | reference target => exact ⟨List.nodup_nil, List.nodup_nil, List.nodup_nil⟩
    | composition => exact ⟨List.nodup_nil, List.nodup_nil, List.nodup_nil⟩
    | any =>
      refine ⟨List.nodup_nil, ?_, List.nodup_nil⟩
      rw [walked_of_plain (isUnresolvedNode_of_shape hshape)]
      exact hunique
    | primitive kind => exact ⟨by rwa [hshape] at hwritten, hunique.filter _, List.nodup_nil⟩
    | array => exact ⟨by rwa [hshape] at hwritten, hunique.filter _, List.nodup_nil⟩
    | object =>
      refine ⟨by rwa [hshape] at hwritten, hunique.filter _, ?_⟩
      rw [declared]
      cases hproperties : propertiesOf members with
      | none => exact List.nodup_nil
      | some properties => exact unique_of_propertiesOf hdistinct hproperties
  | _ =>
    rw [ofJson]
    · exact ⟨List.nodup_nil, List.nodup_nil, List.nodup_nil⟩
    all_goals simp

theorem distinct_any {value : Json} (hdistinct : value.Distinct) :
    (Fragment.any value).Distinct := by
  refine ⟨List.nodup_nil, ?_, List.nodup_nil⟩
  cases value with
  | object members =>
    rw [walked]
    split_ifs
    · exact List.nodup_nil
    · exact hdistinct.unique
  | _ => exact List.nodup_nil

end Fragment

end EventSchema
