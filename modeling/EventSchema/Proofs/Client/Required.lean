import EventSchema.Proofs.Client.Protocol
import EventSchema.Proofs.Fragment.Written
import EventSchema.Proofs.Resolver.Objects
import EventSchema.Proofs.Resolver.Resolved

/-!
# Required names, read twice

The fields of an event take its required names from the classified schema, where a list of names is
recognised or is none; a client takes them from the schema as it is written, where it reads every
string of an array. A name that the fields know is one that the client knows. The reverse fails for
the names that are overlooked (`Overlooked`): a schema that says it is an object is classified
before its `required` is expanded, and in any other schema a single item that is no string keeps all
names out. There are no other differences (`Expands.mem_required_iff_of_isOpen`).
-/

set_option autoImplicit false

namespace EventSchema

open Client (requiredNames)

/-- A client reads the name in the `required` of what the value expands to, and no field is required
for it. -/
inductive Overlooked (library : Library) (name : String) : Json → Path → Json → Prop
  | typed {root : Json} {current : Path} {members : Fields} {written : Json} {items : List Json}
    (hshape : Fragment.shape members = .object)
    (hwritten : Entries.get? members "required" = some written)
    (hnames : written.asStrings? = none)
    (hexpands : ExpandsJson library root current written (.array items))
    (hmem : .string name ∈ items) : Overlooked library name root current (.object members)
  | untyped {root : Json} {current : Path} {members : Fields} {written : Json} {items : List Json}
    (hshape : Fragment.shape members = .any)
    (hwritten : Entries.get? members "required" = some written)
    (hexpands : ExpandsJson library root current written (.array items))
    (hnames : (Json.array items).asStrings? = none)
    (hmem : .string name ∈ items) : Overlooked library name root current (.object members)
  | through {root : Json} {current : Path} {value : Json} {text : String} {reference : Reference}
    {found : Target} (hvalue : value.reference? = some text)
    (hparse : Reference.parse? text = some reference)
    (hfind : reference.find? library root current = .ok (some found))
    (hfound : Overlooked library name found.document found.path found.value) :
    Overlooked library name root current value

/-- The fragment is an object schema or of no known type: only these have properties and required
names. -/
def Fragment.isOpen : Fragment → Bool
  | .any _ | .object .. => true
  | .primitive .. | .array .. | .reference _ | .composition _ => false

theorem Fragment.isOpen_of_properties {fragment : Fragment}
    (hproperties : fragment.properties ≠ []) : fragment.isOpen = true := by
  cases fragment with
  | any _ | object _ _ _ _ => rfl
  | _ => exact absurd rfl hproperties

theorem Fragment.isOpen_of_mem_required {fragment : Fragment} {name : String}
    (hrequired : name ∈ fragment.required) : fragment.isOpen = true := by
  cases fragment with
  | any _ | object _ _ _ _ => rfl
  | _ => exact absurd hrequired List.not_mem_nil

/-! ### Lists of names -/

section Names

variable {name : String}

theorem string_mem_map_iff {names : List String} :
    Json.string name ∈ names.map Json.string ↔ name ∈ names := by
  simp

theorem mem_requiredNames_iff {members : Fields} : name ∈ requiredNames (.object members) ↔
    ∃ items, Entries.get? members "required" = some (.array items) ∧ .string name ∈ items := by
  rw [requiredNames]
  have hmem (items : List Json) :
      name ∈ items.filterMap Json.asString? ↔ .string name ∈ items := by
    rw [List.mem_filterMap]
    constructor
    · rintro ⟨item, hitem, hstring⟩
      cases item <;> cases hstring
      exact hitem
    · exact fun hitem ↦ ⟨_, hitem, rfl⟩
  split
  · rename_i items hget
    simp [hget, hmem]
  · rename_i hother
    refine iff_of_false List.not_mem_nil ?_
    rintro ⟨items, hget, -⟩
    exact hother items hget

/-- The required names of an untyped schema are those that a client reads, if all are names. -/
theorem mem_required_any_iff {members : Fields} :
    name ∈ (Fragment.any (.object members)).required ↔ ∃ items,
      Entries.get? members "required" = some (.array items) ∧ .string name ∈ items ∧
        (Json.array items).asStrings? ≠ none := by
  rw [Fragment.required, Json.get?]
  constructor
  · intro hmem
    cases hnames : (Entries.get? members "required").bind Json.asStrings? with
    | none =>
      rw [hnames] at hmem
      exact absurd hmem List.not_mem_nil
    | some names =>
      rw [hnames, Option.getD_some] at hmem
      obtain ⟨value, hget, hvalue⟩ := Option.bind_eq_some_iff.mp hnames
      obtain rfl := Json.asStrings?_eq_some_iff.mp hvalue
      exact ⟨_, hget, string_mem_map_iff.mpr hmem, Option.ne_none_iff_exists'.mpr ⟨_, hvalue⟩⟩
  · rintro ⟨items, hget, hmem, hsome⟩
    obtain ⟨names, hnames⟩ := Option.ne_none_iff_exists'.mp hsome
    rw [hget, Option.bind_some, hnames, Option.getD_some]
    rw [Json.array.inj (Json.asStrings?_eq_some_iff.mp hnames)] at hmem
    exact string_mem_map_iff.mp hmem

end Names

/-! ### What the `required` of a schema expands to -/

section Expansion

variable {library : Library} {name : String} {root : Json} {current : Path}

theorem ExpandsJson.unique {value result other : Json}
    (hresult : ExpandsJson library root current value result)
    (hother : ExpandsJson library root current value other) : result = other :=
  Fragment.any.inj (Expands.unique (.any hresult) (.any hother))

theorem ExpandsFields.rel_get? {members result : Fields}
    (hexpands : ExpandsFields library root current members result) (key : String) :
    Option.Rel (ExpandsJson library root current) (Entries.get? members key)
      (Entries.get? result key) := by
  induction members generalizing result with
  | nil =>
    cases hexpands
    exact .none
  | cons entry rest ih =>
    cases hexpands with
    | cons hvalue hrest =>
      rw [Entries.get?_cons, Entries.get?_cons]
      split_ifs
      · exact .some hvalue
      · exact ih hrest

/-- What a look-up finds after the expansion it found before. -/
theorem ExpandsFields.exists_of_get? {members result : Fields}
    (hexpands : ExpandsFields library root current members result) {key : String} {value' : Json}
    (hget : Entries.get? result key = some value') :
    ∃ value, Entries.get? members key = some value ∧
      ExpandsJson library root current value value' := by
  have hrel := hexpands.rel_get? key
  rw [hget] at hrel
  generalize hbefore : Entries.get? members key = before at hrel
  cases hrel with
  | some hvalue => exact ⟨_, rfl, hvalue⟩

theorem ExpandsFields.get?_of_get? {members result : Fields}
    (hexpands : ExpandsFields library root current members result) {key : String}
    {value value' : Json} (hget : Entries.get? members key = some value)
    (hvalue : ExpandsJson library root current value value') :
    Entries.get? result key = some value' := by
  have hrel := hexpands.rel_get? key
  rw [hget] at hrel
  generalize hafter : Entries.get? result key = after at hrel
  cases hrel with
  | some hother => rw [hother.unique hvalue]

theorem exists_members_of_object {value : Json} {properties : Option Properties}
    {required : Option (List String)} {additional : Option Fragment} {annotations : Fields}
    (hvalue : Fragment.object properties required additional annotations = .ofJson value) :
    ∃ members, value = .object members ∧ Fragment.shape members = .object ∧
      required = Fragment.requiredOf members ∧
      annotations = members.filter fun entry ↦ !Fragment.isObjectKeyword entry := by
  cases value with
  | object members =>
    rw [Fragment.ofJson] at hvalue
    cases hshape : Fragment.shape members with
    | object =>
      simp only [hshape, Fragment.object.injEq] at hvalue
      exact ⟨members, rfl, hshape, hvalue.2.1, hvalue.2.2.2⟩
    | _ => simp [hshape] at hvalue
  | _ => simp [Fragment.ofJson] at hvalue

theorem overlooked_iff_of_found {value : Json} {text : String} {reference : Reference}
    {found : Target} (hvalue : value.reference? = some text)
    (hparse : Reference.parse? text = some reference)
    (hfind : reference.find? library root current = .ok (some found)) :
    Overlooked library name root current value ↔
      Overlooked library name found.document found.path found.value := by
  refine ⟨fun hover ↦ ?_, .through hvalue hparse hfind⟩
  have hshape {members : Fields} (htext : (Json.object members).reference? = some text) :
      Fragment.shape members = .reference text := by
    unfold Fragment.shape
    rw [show (Entries.get? members "$ref").bind Json.asString? = some text from htext]
  cases hover with
  | typed hother => cases (hshape hvalue).symm.trans hother
  | untyped hother => cases (hshape hvalue).symm.trans hother
  | through hvalue' hparse' hfind' hfound =>
    obtain rfl := Option.some.inj (hvalue.symm.trans hvalue')
    obtain rfl := Option.some.inj (hparse.symm.trans hparse')
    obtain rfl := Option.some.inj (Except.ok.inj (hfind.symm.trans hfind'))
    exact hfound

theorem mem_required_iff_of_any {inner value value' : Json}
    (hvalue : Fragment.any inner = .ofJson value)
    (hexpands : ExpandsJson library root current inner value') :
    name ∈ (Fragment.any value').required ↔
      name ∈ requiredNames value' ∧ ¬Overlooked library name root current value := by
  have hreference := reference?_eq_none_of_ofJson hvalue (by simp)
  obtain ⟨rfl, hplain⟩ := Fragment.ofJson_eq_any hvalue.symm
  cases hexpands with
  | node hnode _ => exact absurd hnode (by simp [hplain _ rfl])
  | @object _ _ members members' _ hmembers =>
    have hshape : Fragment.shape members = .any := by
      rw [Fragment.ofJson] at hvalue
      cases hshape : Fragment.shape members with
      | any => rfl
      | _ => simp [hshape] at hvalue
    rw [mem_required_any_iff, mem_requiredNames_iff]
    constructor
    · rintro ⟨items, hget, hmem, hsome⟩
      refine ⟨⟨items, hget, hmem⟩, fun hover ↦ ?_⟩
      cases hover with
      | typed hother => cases hshape.symm.trans hother
      | untyped _ hwritten hitems hnames _ =>
        obtain ⟨_⟩ := (hmembers.get?_of_get? hwritten hitems).symm.trans hget
        exact hsome hnames
      | through htext _ _ _ => cases hreference.symm.trans htext
    · rintro ⟨⟨items, hget, hmem⟩, hseen⟩
      obtain ⟨written, hwritten, hitems⟩ := hmembers.exists_of_get? hget
      exact ⟨items, hget, hmem, fun hnames ↦ hseen (.untyped hshape hwritten hitems hnames hmem)⟩
  | _ => simp [Fragment.required, requiredNames, Json.get?]

/-- A list of names is written as what a client reads. -/
theorem mem_requiredNames_toJson {properties : Option Properties} {names : List String}
    {additional : Option Fragment} {annotations : Fields}
    (htidy : (Fragment.object properties (some names) additional annotations).Tidy) :
    name ∈ requiredNames (Fragment.object properties (some names) additional annotations).toJson ↔
      name ∈ names := by
  have hkeyword : Entries.get? (Fragment.object properties (some names) additional
      annotations).written "required" = some (.array (names.map .string)) :=
    htidy.distinct.written.get?_of_mem (List.mem_append_left _ (List.mem_cons_of_mem _
      (List.mem_append_left _ (List.mem_append_right _ List.mem_cons_self))))
  rw [Fragment.toJson_eq_written htidy.distinct.written (List.cons_ne_nil _ _),
    mem_requiredNames_iff, hkeyword, ← string_mem_map_iff]
  constructor
  · rintro ⟨items, hitems, hmem⟩
    obtain rfl := Json.array.inj (Option.some.inj hitems)
    exact hmem
  · exact fun hmem ↦ ⟨_, rfl, hmem⟩

theorem get?_filter_required {members : Fields} (hrequired : Fragment.requiredOf members = none) :
    Entries.get? (members.filter fun entry ↦ !Fragment.isObjectKeyword entry) "required" =
      Entries.get? members "required" := by
  apply Entries.get?_filter
  intro value hvalue
  rw [Fragment.requiredOf, hvalue, Option.bind_some] at hrequired
  simp [Fragment.isObjectKeyword, hrequired]

/-- A client reads the annotation of a typed schema that has no list of names. -/
theorem requiredNames_of_none {properties : Option Properties} {additional : Option Fragment}
    {annotations : Fields} (htidy : (Fragment.object properties none additional annotations).Tidy) :
    requiredNames (Fragment.object properties none additional annotations).toJson =
      requiredNames (.object annotations) := by
  have hkeyword : Entries.get? (Fragment.object properties none additional annotations).keywords
      "required" = none := by
    cases properties <;> cases additional <;> rfl
  rw [Fragment.toJson_eq_written htidy.distinct.written (List.cons_ne_nil _ _), requiredNames,
    Fragment.written, Entries.get?_append, hkeyword, Option.none_or]
  rfl

/-- The required names of a typed schema that lists none are what its annotation expands to. -/
theorem exists_of_mem_annotations {members annotations : Fields}
    (hrequired : Fragment.requiredOf members = none)
    (hannotations : ExpandsFields library root current
      (members.filter fun entry ↦ !Fragment.isObjectKeyword entry) annotations)
    (hmem : name ∈ requiredNames (.object annotations)) :
    ∃ written items, Entries.get? members "required" = some written ∧
      written.asStrings? = none ∧ ExpandsJson library root current written (.array items) ∧
      .string name ∈ items := by
  obtain ⟨items, hget, hitem⟩ := mem_requiredNames_iff.mp hmem
  obtain ⟨written, hwritten, hexpands⟩ := hannotations.exists_of_get? hget
  rw [get?_filter_required hrequired] at hwritten
  refine ⟨written, items, hwritten, ?_, hexpands, hitem⟩
  rwa [Fragment.requiredOf, hwritten, Option.bind_some] at hrequired

theorem mem_required_iff_of_object {members : Fields} {properties : Option Properties}
    {additional : Option Fragment} {annotations : Fields}
    (hshape : Fragment.shape members = .object)
    (hannotations : ExpandsFields library root current
      (members.filter fun entry ↦ !Fragment.isObjectKeyword entry) annotations)
    (htidy : (Fragment.object properties (Fragment.requiredOf members) additional
      annotations).Tidy) :
    name ∈ (Fragment.requiredOf members).getD [] ↔
      name ∈ requiredNames (Fragment.object properties (Fragment.requiredOf members) additional
        annotations).toJson ∧ ¬Overlooked library name root current (.object members) := by
  have hreference : (Json.object members).reference? = none := by
    refine reference?_eq_none_of_ofJson rfl ?_
    simp [Fragment.ofJson, hshape]
  cases hrequired : Fragment.requiredOf members with
  | some names =>
    rw [hrequired] at htidy
    rw [mem_requiredNames_toJson htidy, Option.getD_some]
    refine ⟨fun hmem ↦ ⟨hmem, fun hover ↦ ?_⟩, And.left⟩
    obtain ⟨value, hget, hvalue⟩ := Option.bind_eq_some_iff.mp hrequired
    cases hover with
    | typed _ hwritten hnames _ _ =>
      obtain rfl := Option.some.inj (hget.symm.trans hwritten)
      cases hnames.symm.trans hvalue
    | untyped hother => cases hshape.symm.trans hother
    | through htext _ _ _ => cases hreference.symm.trans htext
  | none =>
    rw [hrequired] at htidy
    rw [requiredNames_of_none htidy, Option.getD_none]
    refine iff_of_false List.not_mem_nil ?_
    rintro ⟨hmem, hseen⟩
    obtain ⟨written, items, hwritten, hnames, hitems, hitem⟩ :=
      exists_of_mem_annotations hrequired hannotations hmem
    exact hseen (.typed hshape hwritten hnames hitems hitem)

theorem mem_required_iff_of_composition {parts parts' : List Fragment} {value : Json}
    (hvalue : Fragment.composition parts = .ofJson value)
    (htidy : (Fragment.mergeAllOf parts').Tidy) :
    name ∈ (Fragment.mergeAllOf parts').required ↔
      name ∈ requiredNames (Fragment.mergeAllOf parts').toJson ∧
        ¬Overlooked library name root current value := by
  have hreference := reference?_eq_none_of_ofJson hvalue (by simp)
  have hseen : ¬Overlooked library name root current value := by
    intro hover
    cases hover with
    | typed hshape => simp [Fragment.ofJson, hshape] at hvalue
    | untyped hshape => simp [Fragment.ofJson, hshape] at hvalue
    | through htext _ _ _ => cases hreference.symm.trans htext
  rw [and_iff_left hseen]
  exact (mem_requiredNames_toJson htidy).symm

end Expansion

/-- The required names of what a value expands to are those that a client reads in it, except those
that are overlooked, unless it is of a type that has none. -/
theorem Expands.mem_required_iff_of_isOpen {library : Library} {name : String} :
    ∀ {root current fragment result}, Expands library root current fragment result →
      result.Tidy → result.isOpen = true → ∀ {value}, fragment = .ofJson value →
        (name ∈ result.required ↔ name ∈ requiredNames result.toJson ∧
          ¬Overlooked library name root current value)
  | _, _, _, _, .any hexpands, _, _, _, hvalue => by
    rw [Fragment.toJson]
    exact mem_required_iff_of_any hvalue hexpands
  | _, _, _, _, .object _ _ hannotations, htidy, _, _, hvalue => by
    obtain ⟨members, rfl, hshape, rfl, rfl⟩ := exists_members_of_object hvalue
    exact mem_required_iff_of_object hshape hannotations htidy
  | _, _, _, _, .dangling _ _, _, _, _, _ =>
    iff_of_false List.not_mem_nil fun hread ↦ List.not_mem_nil hread.1
  | _, _, _, _, .reference hparse hfind htarget, htidy, hopen, _, hvalue => by
    rw [overlooked_iff_of_found (Fragment.ofJson_eq_reference_iff.mp hvalue.symm) hparse hfind]
    exact htarget.mem_required_iff_of_isOpen htidy hopen rfl
  | _, _, _, _, .composition _, htidy, _, _, hvalue =>
    mem_required_iff_of_composition hvalue htidy

/-- So if it has properties. -/
theorem Expands.mem_required_iff {library : Library} {name : String} {root : Json} {current : Path}
    {fragment result : Fragment} (hexpands : Expands library root current fragment result)
    (htidy : result.Tidy) (hproperties : result.properties ≠ []) {value : Json}
    (hvalue : fragment = .ofJson value) :
    name ∈ result.required ↔ name ∈ requiredNames result.toJson ∧
      ¬Overlooked library name root current value :=
  hexpands.mem_required_iff_of_isOpen htidy (Fragment.isOpen_of_properties hproperties) hvalue

/-- An overlooked name is one that a client reads. -/
theorem Overlooked.mem_requiredNames {library : Library} {name : String} {root value : Json}
    {current : Path} {result : Fragment} (hover : Overlooked library name root current value)
    (hexpands : Expands library root current (.ofJson value) result) (htidy : result.Tidy) :
    name ∈ requiredNames result.toJson := by
  induction hover with
  | @typed root current members written items hshape hwritten hnames hitems hmem =>
    have hrequired : Fragment.requiredOf members = none := by
      rw [Fragment.requiredOf, hwritten, Option.bind_some, hnames]
    rw [Fragment.ofJson, hshape] at hexpands
    cases hexpands with
    | object _ _ hannotations =>
      rw [hrequired] at htidy ⊢
      have hget := get?_filter_required hrequired
      rw [hwritten] at hget
      rw [requiredNames_of_none htidy, mem_requiredNames_iff]
      exact ⟨items, hannotations.get?_of_get? hget hitems, hmem⟩
  | @untyped root current members written items hshape hwritten hitems _ hmem =>
    rw [Fragment.ofJson, hshape] at hexpands
    cases hexpands with
    | any hvalue =>
      cases hvalue with
      | node hnode _ => exact absurd hnode (by simp [Fragment.isUnresolvedNode_of_shape hshape])
      | object _ hmembers =>
        rw [Fragment.toJson, mem_requiredNames_iff]
        exact ⟨items, hmembers.get?_of_get? hwritten hitems, hmem⟩
  | @through root current value text reference found htext hparse hfind _ ih =>
    rw [Fragment.ofJson_eq_reference_iff.mpr htext] at hexpands
    cases hexpands with
    | dangling hparse' hfind' =>
      obtain rfl := Option.some.inj (hparse.symm.trans hparse')
      cases hfind.symm.trans hfind'
    | reference hparse' hfind' htarget =>
      obtain rfl := Option.some.inj (hparse.symm.trans hparse')
      obtain rfl := Option.some.inj (Except.ok.inj (hfind.symm.trans hfind'))
      exact ih htarget

end EventSchema
