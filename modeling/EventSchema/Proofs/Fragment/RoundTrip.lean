import EventSchema.Proofs.Fragment.Reordered
import EventSchema.Proofs.Resolver.Fixpoint

/-!
# Classifying what was printed

Classification loses nothing that printing needs: what is printed of a classified value is
classified as the same fragment (`ofJson_toJson_ofJson`), whatever stands under a keyword. A value
without references and compositions is printed with the same members in every object, and only the
objects that stand for schemas change their order: `type` first, then the keywords that the type
reads, then the other members in the order in which they stood (`toJson_ofJson_eq_arranged`). A
keyword that does not hold what it is read with stays among the others (`Json.arranged`).
-/

set_option autoImplicit false

namespace EventSchema

namespace Fragment

/-! ### Classifying again -/

section Typed

variable {members : Fields}

theorem toJson_of_typed (hdistinct : (Json.object members).Distinct)
    (htyped : (shape members).typeName? ≠ none) :
    (ofJson (.object members)).toJson = .object (ofJson (.object members)).written :=
  toJson_eq_written (distinct_ofJson hdistinct).written (keywords_ofJson_ne_nil htyped)

end Typed

section Keywords

variable {entry : String × Json}

theorem isPrimitiveKeyword_of_mem_keywords {kind : PrimitiveKind} {choices : Option (List Json)}
    {annotations : Fields} (hmem : entry ∈ (primitive kind choices annotations).keywords) :
    isPrimitiveKeyword entry = true := by
  obtain rfl | ⟨values, -, rfl⟩ := mem_keywords_primitive.mp hmem <;> rfl

theorem isArrayKeyword_of_mem_keywords {items : Option Fragment} {annotations : Fields}
    (hmem : entry ∈ (array items annotations).keywords) : isArrayKeyword entry = true := by
  obtain rfl | ⟨item, -, rfl⟩ := mem_keywords_array.mp hmem <;> rfl

theorem isObjectKeyword_of_mem_keywords {properties : Option Properties}
    {required : Option (List String)} {additional : Option Fragment} {annotations : Fields}
    (hmem : entry ∈ (object properties required additional annotations).keywords) :
    isObjectKeyword entry = true := by
  obtain rfl | ⟨declared, -, rfl⟩ | ⟨names, -, rfl⟩ | ⟨part, -, rfl⟩ := mem_keywords_object.mp hmem
  · rfl
  · rfl
  · have hnames := Json.asStrings?_eq_some_iff.mpr (Eq.refl (Json.array (names.map .string)))
    simp [isObjectKeyword, hnames]
  · rfl

/-- What was written among the keywords is taken for a keyword again, and the rest is kept. -/
theorem filter_written {fragment : Fragment} {isKeyword : String × Json → Bool} {members : Fields}
    (hkeywords : ∀ entry ∈ fragment.keywords, isKeyword entry = true)
    (hkept : fragment.kept = members.filter fun entry ↦ !isKeyword entry) :
    (fragment.written.filter fun entry ↦ !isKeyword entry) = fragment.kept := by
  have hnone : (fragment.keywords.filter fun entry ↦ !isKeyword entry) = [] :=
    List.filter_eq_nil_iff.mpr fun entry hentry ↦ by simp [hkeywords entry hentry]
  rw [written, List.filter_append, hnone, List.nil_append, hkept, List.filter_filter]
  exact List.filter_congr fun entry _ ↦ Bool.and_self _

end Keywords

section Rewritten

/-- Only keywords that hold schemas are written anew. -/
theorem rewrite_of_ne (shape : Shape) {key : String} (hproperties : key ≠ "properties")
    (hadditional : key ≠ "additionalProperties") (hitems : key ≠ "items") (value : Json) :
    shape.rewrite key value = value := by
  cases shape <;> simp [Shape.rewrite, hproperties, hadditional, hitems]

/-- The second object has what the first is written with under each key. -/
def Rewritten (members members' : Fields) : Prop :=
  ∀ key, Entries.get? members' key = (Entries.get? members key).map ((shape members).rewrite key)

variable {members members' : Fields}

theorem Rewritten.get?_of_ne (hrewritten : Rewritten members members') {key : String}
    (hproperties : key ≠ "properties") (hadditional : key ≠ "additionalProperties")
    (hitems : key ≠ "items") : Entries.get? members' key = Entries.get? members key := by
  rw [hrewritten key, Option.map_congr fun value _ ↦
    rewrite_of_ne (shape members) hproperties hadditional hitems value, Option.map_id']

/-- The shape of an object is read off three keys, and none of them is written anew. -/
theorem Rewritten.shape_eq (hrewritten : Rewritten members members') :
    shape members' = shape members := by
  have hreference : Entries.get? members' "$ref" = Entries.get? members "$ref" :=
    hrewritten.get?_of_ne (by decide) (by decide) (by decide)
  have hallOf : Entries.get? members' "allOf" = Entries.get? members "allOf" :=
    hrewritten.get?_of_ne (by decide) (by decide) (by decide)
  have htype : Entries.get? members' "type" = Entries.get? members "type" :=
    hrewritten.get?_of_ne (by decide) (by decide) (by decide)
  rw [shape, shape, hreference, hallOf, htype]

theorem Rewritten.choicesOf_eq (hrewritten : Rewritten members members') :
    choicesOf members' = choicesOf members := by
  rw [choicesOf, choicesOf, hrewritten.get?_of_ne (by decide) (by decide) (by decide)]

theorem Rewritten.requiredOf_eq (hrewritten : Rewritten members members') :
    requiredOf members' = requiredOf members := by
  rw [requiredOf, requiredOf, hrewritten.get?_of_ne (by decide) (by decide) (by decide)]

variable (hdistinct : (Json.object members).Distinct)
  (hparts : ∀ part : Json, part.weight < (Json.object members).weight → part.Distinct →
    ofJson (ofJson part).toJson = ofJson part)

include hdistinct hparts

theorem Rewritten.partOf_eq_of (hrewritten : Rewritten members members') {key : String}
    (hkey : ∀ value, (shape members).rewrite key value = (ofJson value).toJson) :
    partOf key members' = partOf key members := by
  rw [partOf_eq, partOf_eq, hrewritten key]
  cases hget : Entries.get? members key with
  | none => rfl
  | some part =>
    have hmem := Entries.mem_of_get? hget
    rw [Option.map_some, Option.map_some, Option.map_some, hkey,
      hparts part (Json.weight_lt_of_member hmem) (hdistinct.member hmem)]

theorem Rewritten.propertiesOf_eq_of (hrewritten : Rewritten members members')
    (hshape : shape members = .object) : propertiesOf members' = propertiesOf members := by
  rw [propertiesOf_eq, propertiesOf_eq, hrewritten "properties", hshape]
  cases hget : Entries.get? members "properties" with
  | none => rfl
  | some value =>
    cases value with
    | object declared =>
      have hmem := Entries.mem_of_get? hget
      rw [Option.map_some, Option.bind_some, Option.bind_some, Shape.rewrite, fragmentsIn,
        fragmentsIn, ofMembers_eq_map, ofMembers_eq_map, Entries.mapValues, List.map_map]
      refine congrArg some (List.map_congr_left fun entry hentry ↦ ?_)
      have hless := Nat.lt_trans (Json.weight_lt_of_member hentry) (Json.weight_lt_of_member hmem)
      exact congrArg (entry.1, ·)
        (hparts entry.2 hless ((hdistinct.member hmem).member hentry))
    | null | bool _ | number _ | string _ | array _ => rfl

/-- A typed object is classified again from what it was written as. -/
theorem ofJson_written (htyped : (shape members).typeName? ≠ none) :
    ofJson (.object (ofJson (.object members)).written) = ofJson (.object members) := by
  cases hshape : shape members with
  | object =>
    have hrewritten : Rewritten members (ofJson (.object members)).written := by
      rw [Rewritten, hshape]
      exact get?_written_object hdistinct.unique hshape
    have hadditional : partOf "additionalProperties" (ofJson (.object members)).written =
        partOf "additionalProperties" members :=
      hrewritten.partOf_eq_of hdistinct hparts fun value ↦ by rw [hshape]; rfl
    rw [ofJson_of_object (hrewritten.shape_eq.trans hshape), hadditional, hrewritten.requiredOf_eq,
      hrewritten.propertiesOf_eq_of hdistinct hparts hshape, ofJson_of_object hshape]
    exact congrArg _ (filter_written (fun _ ↦ isObjectKeyword_of_mem_keywords) rfl)
  | array =>
    have hrewritten : Rewritten members (ofJson (.object members)).written := by
      rw [Rewritten, hshape]
      exact get?_written_array hdistinct.unique hshape
    have hitems : partOf "items" (ofJson (.object members)).written = partOf "items" members :=
      hrewritten.partOf_eq_of hdistinct hparts fun value ↦ by rw [hshape]; rfl
    rw [ofJson_of_array (hrewritten.shape_eq.trans hshape), hitems, ofJson_of_array hshape]
    exact congrArg _ (filter_written (fun _ ↦ isArrayKeyword_of_mem_keywords) rfl)
  | primitive kind =>
    have hrewritten : Rewritten members (ofJson (.object members)).written := by
      rw [Rewritten, hshape]
      exact get?_written_primitive hdistinct.unique hshape
    rw [ofJson_of_primitive (hrewritten.shape_eq.trans hshape), hrewritten.choicesOf_eq,
      ofJson_of_primitive hshape]
    exact congrArg _ (filter_written (fun _ ↦ isPrimitiveKeyword_of_mem_keywords) rfl)
  | reference _ | composition | any =>
    rw [hshape] at htyped
    exact absurd rfl htyped

end Rewritten

theorem toJson_composition (items : List Json) : (composition (items.map ofJson)).toJson =
    .object [("allOf", .array (items.map fun item ↦ (ofJson item).toJson))] := by
  rw [toJson, toItems_eq_map, List.map_map]
  rfl

/-- What is printed of a classified value is classified as the same fragment. The induction is on
the weight of the value, since its parts are classified values from deep inside it. -/
theorem ofJson_toJson_ofJson {value : Json} (hdistinct : value.Distinct) :
    ofJson (ofJson value).toJson = ofJson value := by
  induction hweight : value.weight using Nat.strongRecOn generalizing value with
  | ind weight ih =>
    have hparts (part : Json) (hless : part.weight < value.weight)
        (hpart : part.Distinct) : ofJson (ofJson part).toJson = ofJson part :=
      ih part.weight (hweight ▸ hless) hpart rfl
    cases hreference : value.reference? with
    | some target =>
      rw [ofJson_eq_reference_iff.mpr hreference, toJson]
      exact ofJson_eq_reference_iff.mpr rfl
    | none =>
      cases value with
      | object members =>
        cases hallOf : (Json.object members).allOf? with
        | some items =>
          obtain ⟨whole, hget, hwhole⟩ := Option.bind_eq_some_iff.mp hallOf
          obtain rfl := Json.asArray?_eq_some_iff.mp hwhole
          have hmember := Entries.mem_of_get? hget
          have hitem (item : Json) (hitem : item ∈ items) :
              ofJson (ofJson item).toJson = ofJson item :=
            hparts item
              (Nat.lt_trans (Json.weight_lt_of_item hitem) (Json.weight_lt_of_member hmember))
              ((hdistinct.member hmember).item hitem)
          rw [ofJson_eq_composition hreference hallOf, toJson_composition,
            ofJson_eq_composition rfl rfl, List.map_map]
          exact congrArg _ (List.map_congr_left hitem)
        | none =>
          have hplain : Json.isUnresolvedNode members = false := by
            rw [Json.reference?, Json.get?] at hreference
            rw [Json.allOf?, Json.get?] at hallOf
            rw [Json.isUnresolvedNode, hreference, hallOf]
            rfl
          rcases typed_or_any hplain with htyped | hshape
          · rw [toJson_of_typed hdistinct htyped]
            exact ofJson_written hdistinct hparts htyped
          · have hany : ofJson (.object members) = .any (.object members) := by
              rw [ofJson, hshape]
            rw [hany, toJson, hany]
      | null | bool _ | number _ | string _ | array _ => simp [ofJson, toJson]

end Fragment

/-! ### The printed order -/

namespace Json

/-- The keywords of a typed object that are printed right after its type, in this order. -/
def structuralKeywords? : String → Option (List String)
  | "object" => some ["properties", "required", "additionalProperties"]
  | "array" => some ["items"]
  | "string" | "number" | "integer" | "boolean" => some ["enum"]
  | _ => none

/-- Whether the keyword is read from the value: it stays among the other members where it is not
what the keyword stands for. -/
def isReadUnder (key : String) (value : Json) : Bool :=
  if key = "properties" then value.isObject
  else if key = "required" then value.asStrings?.isSome
  else if key = "enum" then value.asArray?.isSome
  else true

/-- The type of an object, with the keywords that are printed after it. -/
def typed? (members : Fields) : Option (String × List String) := do
  let name ← (Entries.get? members "type").bind asString?
  let keywords ← structuralKeywords? name
  return (name, keywords)

/-- Whether a member of a typed object is printed after the keywords, with those of no meaning. -/
def isOther (keywords : List String) : String × Json → Bool
  | (key, value) => key != "type" && !(keywords.contains key && value.isReadUnder key)

/-- The keywords that are read from the members, in the order in which they are printed. -/
def structural (keywords : List String) (members : Fields) : Fields :=
  keywords.filterMap fun key ↦
    ((Entries.get? members key).filter (isReadUnder key)).map fun value ↦ (key, value)

mutual

/-- The value with the members of its typed objects in the order in which they are printed: the
type, the structural keywords, and the others in the order in which they stand. Only values that
stand for schemas are looked into. -/
def arranged : Json → Json
  | .object members =>
    match typed? members with
    | some (name, keywords) => .object (("type", .string name) ::
        (structural keywords (arrangedParts members) ++ members.filter (isOther keywords)))
    | none => .object members
  | value => value

/-- The members with the schemas under keywords arranged. -/
def arrangedParts : List (String × Json) → List (String × Json)
  | [] => []
  | (key, value) :: rest =>
    (key, if key = "properties" then value.arrangedProperties
      else if key = "items" ∨ key = "additionalProperties" then value.arranged
      else value) :: arrangedParts rest

/-- A map of properties with its schemas arranged. -/
def arrangedProperties : Json → Json
  | .object declared => .object (arrangedEach declared)
  | value => value

def arrangedEach : List (String × Json) → List (String × Json)
  | [] => []
  | (name, value) :: rest => (name, value.arranged) :: arrangedEach rest

end

theorem arrangedEach_eq_map (declared : Fields) :
    arrangedEach declared = declared.map fun entry ↦ (entry.1, entry.2.arranged) := by
  induction declared with
  | nil => rfl
  | cons entry rest ih => rw [arrangedEach, ih, List.map_cons]

theorem get?_arrangedParts (members : Fields) (key : String) :
    Entries.get? (arrangedParts members) key = (Entries.get? members key).map fun value ↦
      if key = "properties" then value.arrangedProperties
      else if key = "items" ∨ key = "additionalProperties" then value.arranged
      else value := by
  induction members with
  | nil => rfl
  | cons entry rest ih =>
    obtain ⟨other, value⟩ := entry
    rw [arrangedParts, Entries.get?_cons, Entries.get?_cons, ih]
    by_cases hkey : other = key
    · simp [hkey]
    · simp [hkey]

end Json

namespace Fragment

variable {members : Fields}

/-- An object of a known type is typed. -/
theorem typed?_of_typeName {name : String} {keywords : List String}
    (hname : (shape members).typeName? = some name)
    (hkeywords : Json.structuralKeywords? name = some keywords) :
    Json.typed? members = some (name, keywords) := by
  rw [Json.typed?, get?_type_of_shape hname]
  simp [Json.asString?, hkeywords]

/-- An object of no class has no known type. -/
theorem typed?_of_any (hshape : shape members = .any) : Json.typed? members = none := by
  unfold shape at hshape
  cases htype : (Entries.get? members "type").bind Json.asString? with
  | none => simp [Json.typed?, htype]
  | some name =>
    have hunknown : Json.structuralKeywords? name = none := by
      rw [htype] at hshape
      split at hshape
      · cases hshape
      split_ifs at hshape
      split at hshape
      · cases hshape
      · cases hshape
      · split at hshape
        · cases hshape
        · rename_i hobject harray hkind
          unfold PrimitiveKind.ofName? at hkind
          split_ifs at hkind
          unfold Json.structuralKeywords?
          split <;> simp_all
      · simp_all
    simp [Json.typed?, htype, hunknown]

section Printed

/-- A structural keyword is printed where it is read. -/
theorem structural_cons (key : String) (keywords : List String) (parts : Fields) :
    Json.structural (key :: keywords) parts =
      (((Entries.get? parts key).filter (Json.isReadUnder key)).map fun value ↦ (key, value)).toList
        ++ Json.structural keywords parts := by
  rw [Json.structural, List.filterMap_cons]
  cases ((Entries.get? parts key).filter (Json.isReadUnder key)).map fun value ↦ (key, value) <;>
    rfl

theorem structural_nil (parts : Fields) : Json.structural [] parts = [] := rfl

variable (hmember : ∀ key value, (key, value) ∈ members → (ofJson value).toJson = value.arranged)

include hmember in
theorem map_partOf {key : String} (hkey : key = "items" ∨ key = "additionalProperties") :
    ((partOf key members).map fun fragment ↦ (key, fragment.toJson)) =
      ((Entries.get? (Json.arrangedParts members) key).filter (Json.isReadUnder key)).map
        fun value ↦ (key, value) := by
  have hproperties : key ≠ "properties" := by rcases hkey with rfl | rfl <;> decide
  have hread (value : Json) : value.isReadUnder key = true := by
    rcases hkey with rfl | rfl <;> rfl
  rw [partOf_eq, Json.get?_arrangedParts]
  cases hget : Entries.get? members key with
  | none => rfl
  | some value =>
    simp [hproperties, hkey, hread, Option.filter, hmember key value (Entries.mem_of_get? hget)]

theorem map_propertiesOf (hdeclared : ∀ key declared, (key, .object declared) ∈ members →
      ∀ name value, (name, value) ∈ declared → (ofJson value).toJson = value.arranged) :
    ((propertiesOf members).map fun entries ↦ ("properties", Json.object (toMembers entries))) =
      ((Entries.get? (Json.arrangedParts members) "properties").filter
        (Json.isReadUnder "properties")).map fun value ↦ ("properties", value) := by
  rw [propertiesOf_eq, Json.get?_arrangedParts]
  cases hget : Entries.get? members "properties" with
  | none => rfl
  | some value =>
    cases value with
    | object declared =>
      have heach : toMembers (ofMembers declared) = Json.arrangedEach declared := by
        rw [toMembers_eq_map, ofMembers_eq_map, List.map_map, Json.arrangedEach_eq_map]
        refine List.map_congr_left fun entry hentry ↦ congrArg (entry.1, ·) ?_
        exact hdeclared _ declared (Entries.mem_of_get? hget) entry.1 entry.2 hentry
      simp [fragmentsIn, heach, Json.arrangedProperties, Json.isReadUnder, Json.isObject,
        Option.filter]
    | null | bool _ | number _ | string _ | array _ => rfl

theorem map_requiredOf :
    ((requiredOf members).map fun names ↦ ("required", Json.array (names.map .string))) =
      ((Entries.get? (Json.arrangedParts members) "required").filter
        (Json.isReadUnder "required")).map fun value ↦ ("required", value) := by
  rw [requiredOf, Json.get?_arrangedParts]
  cases hget : Entries.get? members "required" with
  | none => rfl
  | some value =>
    cases hnames : value.asStrings? with
    | none => simp [hnames, Json.isReadUnder, Option.filter]
    | some names =>
      obtain rfl := Json.asStrings?_eq_some_iff.mp hnames
      simp [hnames, Json.isReadUnder, Option.filter]

theorem map_choicesOf :
    ((choicesOf members).map fun values ↦ ("enum", Json.array values)) =
      ((Entries.get? (Json.arrangedParts members) "enum").filter
        (Json.isReadUnder "enum")).map fun value ↦ ("enum", value) := by
  rw [choicesOf, Json.get?_arrangedParts]
  cases hget : Entries.get? members "enum" with
  | none => rfl
  | some value => cases value <;> rfl

/-- What is no keyword for classification is what is printed with the others. -/
theorem filter_isOther {isKeyword : String × Json → Bool} {keywords : List String}
    (hkeyword : ∀ key value, isKeyword (key, value) =
      (key == "type" || (keywords.contains key && Json.isReadUnder key value))) :
    (members.filter fun entry ↦ !isKeyword entry) = members.filter (Json.isOther keywords) := by
  refine List.filter_congr fun entry _ ↦ ?_
  rw [← Prod.eta entry, hkeyword, Json.isOther, Bool.not_or]
  rfl

theorem isObjectKeyword_eq (key : String) (value : Json) : isObjectKeyword (key, value) =
    (key == "type" || (["properties", "required", "additionalProperties"].contains key &&
      Json.isReadUnder key value)) := by
  by_cases hproperties : key = "properties"
  · simp [isObjectKeyword, Json.isReadUnder, hproperties]
  by_cases hrequired : key = "required"
  · simp [isObjectKeyword, Json.isReadUnder, hrequired]
  by_cases hadditional : key = "additionalProperties"
  · simp [isObjectKeyword, Json.isReadUnder, hadditional]
  · have hother : ["properties", "required", "additionalProperties"].contains key = false := by
      simp [hproperties, hrequired, hadditional]
    rw [hother, Bool.false_and, Bool.or_false, isObjectKeyword, beq_false_of_ne hproperties,
      beq_false_of_ne hrequired, beq_false_of_ne hadditional]
    simp

theorem isArrayKeyword_eq (key : String) (value : Json) : isArrayKeyword (key, value) =
    (key == "type" || (["items"].contains key && Json.isReadUnder key value)) := by
  by_cases hitems : key = "items"
  · simp [isArrayKeyword, Json.isReadUnder, hitems]
  · simp [isArrayKeyword, hitems]

theorem isPrimitiveKeyword_eq (key : String) (value : Json) : isPrimitiveKeyword (key, value) =
    (key == "type" || (["enum"].contains key && Json.isReadUnder key value)) := by
  by_cases henum : key = "enum"
  · simp [isPrimitiveKeyword, Json.isReadUnder, henum]
  · simp [isPrimitiveKeyword, henum]

/-- A typed object is written in the printed order, if its schemas are. -/
theorem arranged_of_typed (htyped : (shape members).typeName? ≠ none)
    (hmember : ∀ key value, (key, value) ∈ members → (ofJson value).toJson = value.arranged)
    (hdeclared : ∀ key declared, (key, .object declared) ∈ members →
      ∀ name value, (name, value) ∈ declared → (ofJson value).toJson = value.arranged) :
    (Json.object members).arranged = .object (ofJson (.object members)).written := by
  cases hshape : shape members with
  | object =>
    have htype : Json.typed? members = _ := typed?_of_typeName (by rw [hshape]; rfl) rfl
    rw [Json.arranged, htype, ofJson_of_object hshape, written, keywords, kept,
      map_propertiesOf hdeclared, map_requiredOf, map_partOf hmember (.inr rfl),
      filter_isOther isObjectKeyword_eq]
    simp only [structural_cons, structural_nil, List.append_assoc, List.cons_append,
      List.append_nil]
  | array =>
    have htype : Json.typed? members = _ := typed?_of_typeName (by rw [hshape]; rfl) rfl
    rw [Json.arranged, htype, ofJson_of_array hshape, written, keywords, kept,
      map_partOf hmember (.inl rfl), filter_isOther isArrayKeyword_eq]
    simp only [structural_cons, structural_nil, List.cons_append, List.append_nil]
  | primitive kind =>
    have hkeywords : Json.structuralKeywords? kind.name = some ["enum"] := by cases kind <;> rfl
    have htype : Json.typed? members = _ := typed?_of_typeName (by rw [hshape]; rfl) hkeywords
    rw [Json.arranged, htype, ofJson_of_primitive hshape, written, keywords, kept,
      map_choicesOf, filter_isOther isPrimitiveKeyword_eq]
    simp only [structural_cons, structural_nil, List.cons_append, List.append_nil]
  | reference _ | composition | any =>
    rw [hshape] at htyped
    exact absurd rfl htyped

end Printed

/-- A value without references and compositions is printed in the printed order. -/
theorem toJson_ofJson_eq_arranged {value : Json} (hdistinct : value.Distinct)
    (hresolved : value.hasUnresolved = false) : (ofJson value).toJson = value.arranged := by
  induction hweight : value.weight using Nat.strongRecOn generalizing value with
  | ind weight ih =>
    cases value with
    | object members =>
      have hclear {members : Fields} (hmembers : (Json.object members).hasUnresolved = false)
          {key : String} {value : Json} (hmem : (key, value) ∈ members) :
          value.hasUnresolved = false := by
        rw [← Bool.not_eq_true] at hmembers ⊢
        exact fun hvalue ↦ hmembers (Json.hasUnresolved_of_mem hmem hvalue)
      have hmember (key : String) (value : Json) (hmem : (key, value) ∈ members) :
          (ofJson value).toJson = value.arranged :=
        ih value.weight (hweight ▸ Json.weight_lt_of_member hmem) (hdistinct.member hmem)
          (hclear hresolved hmem) rfl
      have hdeclared (key : String) (declared : Fields)
          (hmap : (key, .object declared) ∈ members) (name : String) (value : Json)
          (hmem : (name, value) ∈ declared) : (ofJson value).toJson = value.arranged := by
        have hless := Nat.lt_trans (Json.weight_lt_of_member hmem) (Json.weight_lt_of_member hmap)
        exact ih value.weight (hweight ▸ hless) ((hdistinct.member hmap).member hmem)
          (hclear (hclear hresolved hmap) hmem) rfl
      have hplain : Json.isUnresolvedNode members = false := by
        rw [Json.hasUnresolved, Bool.or_eq_false_iff] at hresolved
        exact hresolved.1
      rcases typed_or_any hplain with htyped | hshape
      · rw [toJson_of_typed hdistinct htyped, arranged_of_typed htyped hmember hdeclared]
      · rw [ofJson, hshape, Json.arranged, typed?_of_any hshape]
        exact toJson.eq_1 _
    | null | bool _ | number _ | string _ | array _ => simp [ofJson, toJson, Json.arranged]

theorem hasUnresolved_of_ambiguous {value : Json} (hambiguous : value.Ambiguous) :
    value.hasUnresolved = true := by
  induction hambiguous with
  | here _ hdeclared hnode =>
    refine Json.hasUnresolved_of_mem (Entries.mem_of_get? hdeclared) ?_
    rw [Json.hasUnresolved, hnode, Bool.true_or]
  | property _ hdeclared hmem _ ih =>
    exact Json.hasUnresolved_of_mem (Entries.mem_of_get? hdeclared)
      (Json.hasUnresolved_of_mem hmem ih)
  | additional _ hget _ ih | items _ hget _ ih =>
    exact Json.hasUnresolved_of_mem (Entries.mem_of_get? hget) ih

/-- Classification makes no reference and no composition. -/
theorem hasUnresolved_ofJson {value : Json} (hdistinct : value.Distinct)
    (hresolved : value.hasUnresolved = false) : (ofJson value).hasUnresolved = false := by
  rw [← Bool.not_eq_true] at hresolved ⊢
  intro hfragment
  have hmarked := marked_of_ofJson value (marked_of_hasUnresolved _ hfragment)
  exact hresolved (hdistinct.hasUnresolved_of_marked hmarked)

/-- Nothing is lost, doubled or changed in the printed order: expanding a value of no references,
as it is and once classified, gives both back. -/
theorem reordered_arranged {value : Json} (hdistinct : value.Distinct)
    (hresolved : value.hasUnresolved = false) : value.Reordered value.arranged := by
  have hclear : ¬value.Ambiguous := by
    rw [← Bool.not_eq_true] at hresolved
    exact fun hambiguous ↦ hresolved (hasUnresolved_of_ambiguous hambiguous)
  have hvalue : value.substitute (fun _ ↦ absent) = value := by
    rw [Json.substitute, expandJson_eq_pure value hresolved]
    rfl
  have hfragment : (ofJson value).substitute (fun _ ↦ absent) = ofJson value := by
    rw [substitute, expand_eq_pure (ofJson value) (hasUnresolved_ofJson hdistinct hresolved)]
    rfl
  have hreordered := reordered_substitute (fun _ ↦ absent) hdistinct hclear
  rw [hvalue, hfragment, toJson_ofJson_eq_arranged hdistinct hresolved] at hreordered
  exact hreordered

/-- Classifying and printing are inverse: what is printed of a classified value is classified as
the same fragment, and a value without references and compositions is printed as it was, up to the
order of members in the objects that stand for typed schemas. -/
theorem ofJson_toJson {value : Json} (hdistinct : value.Distinct) :
    ofJson (ofJson value).toJson = ofJson value ∧
      (value.hasUnresolved = false →
        (ofJson value).toJson = value.arranged ∧ value.Reordered value.arranged) :=
  ⟨ofJson_toJson_ofJson hdistinct, fun hresolved ↦
    ⟨toJson_ofJson_eq_arranged hdistinct hresolved, reordered_arranged hdistinct hresolved⟩⟩

/-- A typed object that lists its type last. One name of what it requires is a number, so that
member keeps its place; the choices of one property do too, since they are no array, and the
property that is named as a keyword is a schema like the others. -/
def listedLast : Json :=
  .object [("title", .string "t"), ("required", .array [.string "id", .ofNat 1]),
    ("additionalProperties", .object [("enum", .string "red"), ("type", .string "string")]),
    ("properties", .object [
      ("required", .object [("x-note", .object [("enum", .array []), ("type", .string "string")]),
        ("enum", .array [.ofNat 2, .ofNat 1]), ("type", .string "integer")]),
      ("id", .object [("items", .object [("type", .string "null")]), ("type", .string "array")])]),
    ("type", .string "object")]

theorem ofJson_toJson_listedLast :
    listedLast.Distinct ∧ listedLast.hasUnresolved = false ∧
      ofJson (ofJson listedLast).toJson = ofJson listedLast ∧
      (ofJson listedLast).toJson = .object [("type", .string "object"),
        ("properties", .object [
          ("required", .object [("type", .string "integer"),
            ("enum", .array [.ofNat 2, .ofNat 1]),
            ("x-note", .object [("enum", .array []), ("type", .string "string")])]),
          ("id", .object [("type", .string "array"),
            ("items", .object [("type", .string "null")])])]),
        ("additionalProperties", .object [("type", .string "string"), ("enum", .string "red")]),
        ("title", .string "t"), ("required", .array [.string "id", .ofNat 1])] := by
  have hdistinct : listedLast.Distinct := by decide +kernel
  have hresolved : listedLast.hasUnresolved = false := by decide +kernel
  obtain ⟨hagain, hprinted⟩ := ofJson_toJson hdistinct
  exact ⟨hdistinct, hresolved, hagain, (hprinted hresolved).1.trans (by decide +kernel)⟩

end Fragment

end EventSchema
