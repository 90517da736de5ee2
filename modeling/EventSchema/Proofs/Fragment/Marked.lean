import EventSchema.Proofs.Fragment.Classification
import EventSchema.Proofs.Fragment.Merge

/-!
# Marked fragments

An entry that holds a string under `$ref` or an array under `allOf` makes its object a reference or
a composition. A value or fragment is marked if there is such an entry in it, counting the names
of a property map and the keys of annotations (`Fragment.Marked`). What is not marked holds no
unresolved node (`marked_of_hasUnresolved`), written back neither (`marked_of_toJson`), and
classifying a value (`marked_of_ofJson`) or merging a composition (`marked_of_mergeAllOf`) brings
no mark in.
-/

set_option autoImplicit false

namespace EventSchema

/-- The entry makes its object a reference or a composition. -/
def Marks (key : String) (value : Json) : Prop :=
  (key = "$ref" ∧ value.asString?.isSome) ∨ (key = "allOf" ∧ value.asArray?.isSome)

/-- Such an entry is somewhere in the value. -/
inductive Json.Marked : Json → Prop
  | entry {members : Fields} {key : String} {value : Json} (hmem : (key, value) ∈ members)
    (hmarks : Marks key value) : Marked (.object members)
  | member {members : Fields} {key : String} {value : Json} (hmem : (key, value) ∈ members)
    (hmarked : Marked value) : Marked (.object members)
  | item {items : List Json} {value : Json} (hmem : value ∈ items) (hmarked : Marked value) :
    Marked (.array items)

/-- The annotations of a typed fragment. -/
def Fragment.kept : Fragment → Fields
  | .primitive _ _ annotations | .array _ annotations | .object _ _ _ annotations => annotations
  | .any _ | .reference _ | .composition _ => []

/-- A reference, a composition or an entry that makes its object one is somewhere in the
fragment. -/
inductive Fragment.Marked : Fragment → Prop
  | reference (target : String) : Marked (.reference target)
  | composition (members : List Fragment) : Marked (.composition members)
  | any {value : Json} (hmarked : value.Marked) : Marked (.any value)
  | choice {kind : PrimitiveKind} {choices : List Json} {annotations : Fields} {value : Json}
    (hmem : value ∈ choices) (hmarked : value.Marked) :
    Marked (.primitive kind (some choices) annotations)
  | items {fragment : Fragment} {annotations : Fields} (hmarked : Marked fragment) :
    Marked (.array (some fragment) annotations)
  | property {properties : Properties} {required : Option (List String)}
    {additional : Option Fragment} {annotations : Fields} {name : String} {fragment : Fragment}
    (hmem : (name, fragment) ∈ properties) (hmarked : Marked fragment) :
    Marked (.object (some properties) required additional annotations)
  | name {properties : Properties} {required : Option (List String)}
    {additional : Option Fragment} {annotations : Fields} {name : String} {fragment : Fragment}
    (hmem : (name, fragment) ∈ properties) (hmarks : Marks name fragment.toJson) :
    Marked (.object (some properties) required additional annotations)
  | additional {properties : Option Properties} {required : Option (List String)}
    {fragment : Fragment} {annotations : Fields} (hmarked : Marked fragment) :
    Marked (.object properties required (some fragment) annotations)
  | keptValue {fragment : Fragment} {key : String} {value : Json}
    (hmem : (key, value) ∈ fragment.kept) (hmarked : value.Marked) : Marked fragment
  | keptEntry {fragment : Fragment} {key : String} {value : Json}
    (hmem : (key, value) ∈ fragment.kept) (hmarks : Marks key value) : Marked fragment

/-! ### Unresolved nodes are marked -/

theorem isUnresolvedNode_iff {members : Fields} : Json.isUnresolvedNode members = true ↔
    ∃ key value, Entries.get? members key = some value ∧ Marks key value := by
  rw [Json.isUnresolvedNode, Bool.or_eq_true]
  constructor
  · rintro (href | hall)
    · obtain ⟨text, htext⟩ := Option.isSome_iff_exists.mp href
      obtain ⟨value, hget, hvalue⟩ := Option.bind_eq_some_iff.mp htext
      exact ⟨"$ref", value, hget, .inl ⟨rfl, by rw [hvalue]; rfl⟩⟩
    · obtain ⟨items, hitems⟩ := Option.isSome_iff_exists.mp hall
      obtain ⟨value, hget, hvalue⟩ := Option.bind_eq_some_iff.mp hitems
      exact ⟨"allOf", value, hget, .inr ⟨rfl, by rw [hvalue]; rfl⟩⟩
  · rintro ⟨key, value, hget, ⟨rfl, hstring⟩ | ⟨rfl, harray⟩⟩
    · exact .inl (by rw [hget]; exact hstring)
    · exact .inr (by rw [hget]; exact harray)

mutual

theorem Json.marked_of_hasUnresolved : ∀ value : Json, value.hasUnresolved = true → value.Marked
  | .object members, hunresolved => by
    rw [Json.hasUnresolved, Bool.or_eq_true] at hunresolved
    rcases hunresolved with hnode | hmember
    · obtain ⟨key, value, hget, hmarks⟩ := isUnresolvedNode_iff.mp hnode
      exact .entry (Entries.mem_of_get? hget) hmarks
    · obtain ⟨⟨key, value⟩, hmem, hmarked⟩ := Json.exists_marked_member members hmember
      exact .member hmem hmarked
  | .array items, hunresolved => by
    rw [Json.hasUnresolved] at hunresolved
    obtain ⟨value, hmem, hmarked⟩ := Json.exists_marked_item items hunresolved
    exact .item hmem hmarked
  | .null, hunresolved | .bool _, hunresolved | .number _, hunresolved
  | .string _, hunresolved => by
    rw [Json.hasUnresolved] at hunresolved
    · cases hunresolved
    all_goals simp

theorem Json.exists_marked_item : ∀ items : List Json, Json.anyUnresolvedItem items = true →
    ∃ item ∈ items, item.Marked
  | [], hunresolved => by
    rw [Json.anyUnresolvedItem] at hunresolved
    cases hunresolved
  | item :: rest, hunresolved => by
    rw [Json.anyUnresolvedItem, Bool.or_eq_true] at hunresolved
    rcases hunresolved with hitem | hrest
    · exact ⟨item, List.mem_cons_self, Json.marked_of_hasUnresolved item hitem⟩
    · obtain ⟨other, hmem, hmarked⟩ := Json.exists_marked_item rest hrest
      exact ⟨other, List.mem_cons_of_mem _ hmem, hmarked⟩

theorem Json.exists_marked_member : ∀ members : Fields,
    Json.anyUnresolvedMember members = true → ∃ entry ∈ members, entry.2.Marked
  | [], hunresolved => by
    rw [Json.anyUnresolvedMember] at hunresolved
    cases hunresolved
  | (key, value) :: rest, hunresolved => by
    rw [Json.anyUnresolvedMember, Bool.or_eq_true] at hunresolved
    rcases hunresolved with hvalue | hrest
    · exact ⟨(key, value), List.mem_cons_self, Json.marked_of_hasUnresolved value hvalue⟩
    · obtain ⟨other, hmem, hmarked⟩ := Json.exists_marked_member rest hrest
      exact ⟨other, List.mem_cons_of_mem _ hmem, hmarked⟩

end

namespace Fragment

theorem marked_of_any {value : Json} (hmarked : (any value).Marked) : value.Marked := by
  cases hmarked with
  | any hmarked => exact hmarked
  | keptValue hmem hmarked => exact absurd hmem List.not_mem_nil
  | keptEntry hmem hmarks => exact absurd hmem List.not_mem_nil

theorem marked_of_anyUnresolvedMember {fragment : Fragment}
    (hunresolved : Json.anyUnresolvedMember fragment.kept = true) : fragment.Marked := by
  obtain ⟨⟨key, value⟩, hmem, hmarked⟩ := Json.exists_marked_member _ hunresolved
  exact .keptValue hmem hmarked

mutual

theorem marked_of_hasUnresolved : ∀ fragment : Fragment,
    fragment.hasUnresolved = true → fragment.Marked
  | .reference target, _ => .reference target
  | .composition members, _ => .composition members
  | .any value, hunresolved => by
    rw [Fragment.hasUnresolved] at hunresolved
    exact .any (Json.marked_of_hasUnresolved value hunresolved)
  | .primitive kind choices annotations, hunresolved => by
    rw [Fragment.hasUnresolved, Bool.or_eq_true] at hunresolved
    rcases hunresolved with hchoices | hannotations
    · obtain ⟨value, hmem, hmarked⟩ := Json.exists_marked_item _ hchoices
      cases choices with
      | none => exact absurd hmem List.not_mem_nil
      | some choices => exact .choice hmem hmarked
    · exact marked_of_anyUnresolvedMember hannotations
  | .array items annotations, hunresolved => by
    rw [Fragment.hasUnresolved, Bool.or_eq_true] at hunresolved
    rcases hunresolved with hitems | hannotations
    · obtain ⟨fragment, rfl, hmarked⟩ := exists_marked_part items hitems
      exact .items hmarked
    · exact marked_of_anyUnresolvedMember hannotations
  | .object properties required additional annotations, hunresolved => by
    rw [Fragment.hasUnresolved, Bool.or_eq_true, Bool.or_eq_true] at hunresolved
    rcases hunresolved with (hproperties | hadditional) | hannotations
    · obtain ⟨properties, rfl, ⟨name, fragment⟩, hmem, hmarked⟩ :=
        exists_marked_property properties hproperties
      exact .property hmem hmarked
    · obtain ⟨fragment, rfl, hmarked⟩ := exists_marked_part additional hadditional
      exact .additional hmarked
    · exact marked_of_anyUnresolvedMember hannotations

theorem exists_marked_part : ∀ part : Option Fragment, partHasUnresolved part = true →
    ∃ fragment, part = some fragment ∧ fragment.Marked
  | none, hunresolved => by
    rw [partHasUnresolved] at hunresolved
    cases hunresolved
  | some fragment, hunresolved => by
    rw [partHasUnresolved] at hunresolved
    exact ⟨fragment, rfl, marked_of_hasUnresolved fragment hunresolved⟩

theorem exists_marked_property : ∀ properties : Option Properties,
    anyUnresolvedProperty properties = true →
      ∃ entries, properties = some entries ∧ ∃ entry ∈ entries, entry.2.Marked
  | none, hunresolved => by
    rw [anyUnresolvedProperty] at hunresolved
    cases hunresolved
  | some properties, hunresolved => by
    rw [anyUnresolvedProperty] at hunresolved
    exact ⟨properties, rfl, exists_marked_fragment properties hunresolved⟩

theorem exists_marked_fragment : ∀ properties : Properties,
    anyUnresolvedFragment properties = true → ∃ entry ∈ properties, entry.2.Marked
  | [], hunresolved => by
    rw [anyUnresolvedFragment] at hunresolved
    cases hunresolved
  | (name, fragment) :: rest, hunresolved => by
    rw [anyUnresolvedFragment, Bool.or_eq_true] at hunresolved
    rcases hunresolved with hfragment | hrest
    · exact ⟨(name, fragment), List.mem_cons_self, marked_of_hasUnresolved fragment hfragment⟩
    · obtain ⟨other, hmem, hmarked⟩ := exists_marked_fragment rest hrest
      exact ⟨other, List.mem_cons_of_mem _ hmem, hmarked⟩

end

end Fragment

/-! ### Writing back -/

namespace Fragment

theorem mem_ofType {name : String} {entry : String × Json} (hmem : entry ∈ ofType name) :
    entry = ("type", .string name) := List.mem_singleton.mp hmem

theorem not_marked_string (text : String) : ¬(Json.string text).Marked := by
  rintro ⟨⟩

/-- A mark of a typed fragment that is written back is in its keywords or its annotations. -/
theorem Marked.of_extend {fragment : Fragment} {keywords : Fields}
    (hmarked : (Json.object (Entries.extend keywords fragment.kept)).Marked) :
    fragment.Marked ∨
      ∃ key value, (key, value) ∈ keywords ∧ (Marks key value ∨ Json.Marked value) := by
  cases hmarked with
  | @entry _ key value hmem hmarks =>
    rcases Entries.mem_extend hmem with hmem | hmem
    · exact .inr ⟨key, value, hmem, .inl hmarks⟩
    · exact .inl (.keptEntry hmem hmarks)
  | @member _ key value hmem hmarked =>
    rcases Entries.mem_extend hmem with hmem | hmem
    · exact .inr ⟨key, value, hmem, .inr hmarked⟩
    · exact .inl (.keptValue hmem hmarked)

theorem toMembers_eq_map (properties : Properties) :
    toMembers properties = properties.map fun entry ↦ (entry.1, entry.2.toJson) := by
  induction properties with
  | nil => rfl
  | cons first rest ih => rw [toMembers, ih, List.map_cons]

theorem mem_toMembers {properties : Properties} {name : String} {value : Json}
    (hmem : (name, value) ∈ toMembers properties) :
    ∃ fragment, (name, fragment) ∈ properties ∧ value = fragment.toJson := by
  rw [toMembers_eq_map] at hmem
  obtain ⟨⟨other, fragment⟩, hentry, hpair⟩ := List.mem_map.mp hmem
  obtain ⟨rfl, rfl⟩ := Prod.mk.inj hpair
  exact ⟨fragment, hentry, rfl⟩

theorem not_marked_names (names : List String) :
    ¬(Json.array (names.map Json.string)).Marked := by
  rintro (_ | _ | ⟨hmem, hmarked⟩)
  obtain ⟨name, -, rfl⟩ := List.mem_map.mp hmem
  exact not_marked_string name hmarked

/-- The keywords that a typed object is written back with. -/
theorem mem_objectKeywords {properties : Option Properties} {required : Option (List String)}
    {additional : Option Fragment} {key : String} {value : Json}
    (hmem : (key, value) ∈ (((ofType "object").insertSome "properties"
      (toProperties properties)).insertSome "required"
        (required.map fun names ↦ .array (names.map Json.string))).insertSome
          "additionalProperties" (toPart additional)) :
    (key = "type" ∧ value = .string "object") ∨
      (key = "properties" ∧ ∃ entries, properties = some entries ∧
        value = .object (toMembers entries)) ∨
      (key = "required" ∧ ∃ names : List String, value = .array (names.map Json.string)) ∨
      (key = "additionalProperties" ∧ ∃ fragment, additional = some fragment ∧
        value = fragment.toJson) := by
  rcases Entries.mem_insertSome hmem with hmem | ⟨inner, hinner, hentry⟩
  · rcases Entries.mem_insertSome hmem with hmem | ⟨inner, hinner, hentry⟩
    · rcases Entries.mem_insertSome hmem with hmem | ⟨inner, hinner, hentry⟩
      · exact .inl (Prod.mk.inj (mem_ofType hmem))
      · obtain ⟨rfl, rfl⟩ := Prod.mk.inj hentry
        cases properties with
        | none => exact absurd hinner (by simp [toProperties])
        | some entries => exact .inr (.inl ⟨rfl, entries, rfl, (Option.some_inj.mp hinner).symm⟩)
    · obtain ⟨rfl, rfl⟩ := Prod.mk.inj hentry
      obtain ⟨names, -, rfl⟩ := Option.map_eq_some_iff.mp hinner
      exact .inr (.inr (.inl ⟨rfl, names, rfl⟩))
  · obtain ⟨rfl, rfl⟩ := Prod.mk.inj hentry
    cases additional with
    | none => exact absurd hinner (by simp [toPart])
    | some fragment =>
      exact .inr (.inr (.inr ⟨rfl, fragment, rfl, (Option.some_inj.mp hinner).symm⟩))

mutual

theorem marked_of_toJson : ∀ fragment : Fragment, fragment.toJson.Marked → fragment.Marked
  | .reference target, _ => .reference target
  | .composition members, _ => .composition members
  | .any value, hmarked => .any (by rwa [toJson] at hmarked)
  | .primitive kind choices annotations, hmarked => by
    rw [toJson] at hmarked
    obtain hdone | ⟨key, value, hmem, hvalue⟩ :=
      @Marked.of_extend (.primitive kind choices annotations) _ hmarked
    · exact hdone
    rcases Entries.mem_insertSome hmem with hmem | ⟨inner, hchoices, hentry⟩
    · obtain ⟨rfl, rfl⟩ := Prod.mk.inj (mem_ofType hmem)
      exact absurd hvalue (by simp [Marks, not_marked_string])
    · obtain ⟨rfl, rfl⟩ := Prod.mk.inj hentry
      obtain ⟨values, rfl, rfl⟩ := Option.map_eq_some_iff.mp hchoices
      cases hvalue.resolve_left (by simp [Marks]) with
      | item hmem hmarked => exact .choice hmem hmarked
  | .array items annotations, hmarked => by
    rw [toJson] at hmarked
    obtain hdone | ⟨key, value, hmem, hvalue⟩ :=
      @Marked.of_extend (.array items annotations) _ hmarked
    · exact hdone
    rcases Entries.mem_insertSome hmem with hmem | ⟨inner, hitems, hentry⟩
    · obtain ⟨rfl, rfl⟩ := Prod.mk.inj (mem_ofType hmem)
      exact absurd hvalue (by simp [Marks, not_marked_string])
    · obtain ⟨rfl, rfl⟩ := Prod.mk.inj hentry
      obtain ⟨fragment, rfl, hfragment⟩ :=
        marked_of_toPart items ⟨_, hitems, hvalue.resolve_left (by simp [Marks])⟩
      exact .items hfragment
  | .object properties required additional annotations, hmarked => by
    rw [toJson] at hmarked
    obtain hdone | ⟨key, value, hmem, hvalue⟩ :=
      @Marked.of_extend (.object properties required additional annotations) _ hmarked
    · exact hdone
    obtain ⟨rfl, rfl⟩ | ⟨rfl, entries, rfl, rfl⟩ | ⟨rfl, names, rfl⟩ | ⟨rfl, fragment, rfl, rfl⟩ :=
      mem_objectKeywords hmem
    · exact absurd hvalue (by simp [Marks, not_marked_string])
    · cases hvalue.resolve_left (by simp [Marks]) with
      | entry hmem hmarks =>
        obtain ⟨fragment, hfragment, rfl⟩ := mem_toMembers hmem
        exact .name hfragment hmarks
      | member hmem hmarked =>
        obtain ⟨⟨name, fragment⟩, hmem, hfragment⟩ := marked_of_toMembers entries ⟨_, hmem, hmarked⟩
        exact .property hmem hfragment
    · exact absurd hvalue (by simp [Marks, not_marked_names])
    · exact .additional (marked_of_toJson fragment (hvalue.resolve_left (by simp [Marks])))

theorem marked_of_toPart : ∀ part : Option Fragment,
    (∃ value, toPart part = some value ∧ value.Marked) →
      ∃ fragment, part = some fragment ∧ fragment.Marked
  | none, hpart => by
    obtain ⟨value, hvalue, -⟩ := hpart
    rw [toPart] at hvalue
    cases hvalue
  | some fragment, hpart => by
    obtain ⟨value, hvalue, hmarked⟩ := hpart
    rw [toPart, Option.some_inj] at hvalue
    exact ⟨fragment, rfl, marked_of_toJson fragment (hvalue ▸ hmarked)⟩

theorem marked_of_toMembers : ∀ properties : Properties,
    (∃ entry ∈ toMembers properties, entry.2.Marked) → ∃ entry ∈ properties, entry.2.Marked
  | [], hmembers => by
    obtain ⟨entry, hmem, -⟩ := hmembers
    rw [toMembers] at hmem
    exact absurd hmem List.not_mem_nil
  | (name, fragment) :: rest, hmembers => by
    obtain ⟨entry, hmem, hmarked⟩ := hmembers
    rw [toMembers] at hmem
    rcases List.mem_cons.mp hmem with rfl | hmem
    · exact ⟨(name, fragment), List.mem_cons_self, marked_of_toJson fragment hmarked⟩
    · obtain ⟨other, hother, hrest⟩ := marked_of_toMembers rest ⟨entry, hmem, hmarked⟩
      exact ⟨other, List.mem_cons_of_mem _ hother, hrest⟩

end

/-! ### Classification and merging -/

theorem asString?_toJson_ofJson (value : Json) :
    (ofJson value).toJson.asString? = value.asString? := by
  cases value with
  | object members =>
    rw [ofJson]
    split <;> rfl
  | _ => simp [ofJson, toJson]

theorem asArray?_toJson_ofJson (value : Json) :
    (ofJson value).toJson.asArray? = value.asArray? := by
  cases value with
  | object members =>
    rw [ofJson]
    split <;> rfl
  | _ => simp [ofJson, toJson]

theorem marks_of_toJson_ofJson {key : String} {value : Json}
    (hmarks : Marks key (ofJson value).toJson) : Marks key value := by
  rwa [Marks, asString?_toJson_ofJson, asArray?_toJson_ofJson] at hmarks

theorem marked_of_isUnresolvedNode {members : Fields}
    (hnode : Json.isUnresolvedNode members = true) : (Json.object members).Marked := by
  obtain ⟨key, value, hget, hmarks⟩ := isUnresolvedNode_iff.mp hnode
  exact .entry (Entries.mem_of_get? hget) hmarks

section Object

variable {members : Fields} (hparts : ∀ part : Json, part.weight < (Json.object members).weight →
  (ofJson part).Marked → part.Marked)

include hparts

theorem marked_of_partOf {wanted : String} {fragment : Fragment}
    (hpart : partOf wanted members = some fragment) (hmarked : fragment.Marked) :
    (Json.object members).Marked := by
  obtain ⟨inner, hmem, rfl⟩ := exists_of_partOf hpart
  exact .member hmem (hparts inner (Json.weight_lt_of_member hmem) hmarked)

theorem marked_of_propertiesOf {properties : Properties}
    (hproperties : propertiesOf members = some properties) {name : String} {fragment : Fragment}
    (hmem : (name, fragment) ∈ properties) (hmarked : fragment.Marked) :
    (Json.object members).Marked := by
  obtain ⟨entries, inner, hmap, hentry, rfl⟩ := exists_of_propertiesOf hproperties hmem
  have hless := Nat.lt_trans (Json.weight_lt_of_member hentry) (Json.weight_lt_of_member hmap)
  exact .member hmap (.member hentry (hparts inner hless hmarked))

/-- Whatever an object is classified as, its marks are those of the object. -/
theorem marked_of_ofJson_object (hmarked : (ofJson (.object members)).Marked) :
    (Json.object members).Marked := by
  rw [ofJson] at hmarked
  cases hshape : shape members with
  | reference target =>
    exact .entry (Entries.mem_of_get? (get?_of_shape hshape)) (.inl ⟨rfl, rfl⟩)
  | composition => exact marked_of_isUnresolvedNode (isUnresolvedNode_of_composition hshape)
  | any =>
    simp only [hshape] at hmarked
    exact marked_of_any hmarked
  | primitive kind =>
    simp only [hshape] at hmarked
    generalize hchoices : choicesOf members = choices at hmarked
    cases hmarked with
    | choice hmem hmarked => exact .member (exists_of_choicesOf hchoices) (.item hmem hmarked)
    | keptValue hmem hmarked => exact .member (List.mem_filter.mp hmem).1 hmarked
    | keptEntry hmem hmarks => exact .entry (List.mem_filter.mp hmem).1 hmarks
  | array =>
    simp only [hshape] at hmarked
    generalize hpart : partOf "items" members = part at hmarked
    cases hmarked with
    | items hmarked => exact marked_of_partOf hparts hpart hmarked
    | keptValue hmem hmarked => exact .member (List.mem_filter.mp hmem).1 hmarked
    | keptEntry hmem hmarks => exact .entry (List.mem_filter.mp hmem).1 hmarks
  | object =>
    simp only [hshape] at hmarked
    generalize hproperties : propertiesOf members = properties at hmarked
    generalize hpart : partOf "additionalProperties" members = part at hmarked
    cases hmarked with
    | property hmem hmarked => exact marked_of_propertiesOf hparts hproperties hmem hmarked
    | name hmem hmarks =>
      obtain ⟨entries, inner, hmap, hentry, rfl⟩ := exists_of_propertiesOf hproperties hmem
      exact .member hmap (.entry hentry (marks_of_toJson_ofJson hmarks))
    | additional hmarked => exact marked_of_partOf hparts hpart hmarked
    | keptValue hmem hmarked => exact .member (List.mem_filter.mp hmem).1 hmarked
    | keptEntry hmem hmarks => exact .entry (List.mem_filter.mp hmem).1 hmarks

end Object

/-- The marks of a classified value are those of the value. The induction is on its weight, since
the parts of a typed object are classified values from deep inside it. -/
theorem marked_of_ofJson (value : Json) (hmarked : (ofJson value).Marked) : value.Marked := by
  induction hweight : value.weight using Nat.strongRecOn generalizing value with
  | ind weight ih =>
    cases value with
    | object members =>
      refine marked_of_ofJson_object (fun part hless hmarked ↦ ?_) hmarked
      exact ih part.weight (hweight ▸ hless) part hmarked rfl
    | _ => exact marked_of_any (by simpa only [ofJson] using hmarked)

theorem marked_of_mem_properties {fragment part : Fragment} {name : String}
    (hmem : (name, part) ∈ fragment.properties) (hpart : part.Marked ∨ Marks name part.toJson) :
    fragment.Marked := by
  cases fragment with
  | object properties required additional annotations =>
    cases properties with
    | none => exact absurd hmem List.not_mem_nil
    | some properties => exact hpart.elim (.property hmem) (.name hmem)
  | any value =>
    rw [properties] at hmem
    split at hmem
    · rename_i entries hentries
      obtain ⟨map, hget, hmap⟩ := Option.bind_eq_some_iff.mp hentries
      rw [ofMembers_eq_map] at hmem
      obtain ⟨⟨key, inner⟩, hentry, hpair⟩ := List.mem_map.mp hmem
      obtain ⟨rfl, rfl⟩ := Prod.mk.inj hpair
      cases value <;> simp [Json.get?] at hget
      cases map <;> simp [Json.asObject?] at hmap
      subst hmap
      refine .any (.member (Entries.mem_of_get? hget) ?_)
      rcases hpart with hmarked | hmarks
      · exact .member hentry (marked_of_ofJson inner hmarked)
      · exact .entry hentry (marks_of_toJson_ofJson hmarks)
    · exact absurd hmem List.not_mem_nil
  | _ => exact absurd hmem List.not_mem_nil

theorem marked_of_additional? {fragment part : Fragment} (hpart : fragment.additional? = some part)
    (hmarked : part.Marked) : fragment.Marked := by
  cases fragment with
  | object properties required additional annotations =>
    rw [additional?] at hpart
    exact hpart ▸ .additional hmarked
  | any value =>
    rw [additional?] at hpart
    obtain ⟨inner, hget, rfl⟩ := Option.map_eq_some_iff.mp hpart
    cases value <;> simp [Json.get?] at hget
    exact .any (.member (Entries.mem_of_get? hget) (marked_of_ofJson inner hmarked))
  | _ => cases hpart

theorem marked_of_mergeAllOf {members : List Fragment} (hmarked : (mergeAllOf members).Marked) :
    ∃ member ∈ members, member.Marked := by
  have hfrom := Merged.From.foldl members
  rw [mergeAllOf, Merged.toFragment] at hmarked
  generalize members.foldl Merged.add {} = merged at hfrom hmarked
  obtain ⟨properties, required, additional⟩ := merged
  cases hmarked with
  | property hmem hmarked =>
    obtain ⟨member, hmember, hproperty⟩ := hfrom.properties _ hmem
    exact ⟨member, hmember, marked_of_mem_properties hproperty (.inl hmarked)⟩
  | name hmem hmarks =>
    obtain ⟨member, hmember, hproperty⟩ := hfrom.properties _ hmem
    exact ⟨member, hmember, marked_of_mem_properties hproperty (.inr hmarks)⟩
  | additional hmarked =>
    obtain ⟨member, hmember, hadditional⟩ := hfrom.additional _ rfl
    exact ⟨member, hmember, marked_of_additional? hadditional hmarked⟩
  | keptValue hmem hmarked => exact absurd hmem List.not_mem_nil
  | keptEntry hmem hmarks => exact absurd hmem List.not_mem_nil

/-! ### Resolved fragments -/

/-- Neither the fragment nor the JSON that it is written as holds a reference or a composition. -/
def IsResolved (fragment : Fragment) : Prop :=
  fragment.hasUnresolved = false ∧ fragment.toJson.hasUnresolved = false

theorem isResolved_of_not_marked {fragment : Fragment} (hclean : ¬fragment.Marked) :
    fragment.IsResolved := by
  constructor
  · exact Bool.not_eq_true _ ▸ fun h ↦ hclean (marked_of_hasUnresolved fragment h)
  · refine Bool.not_eq_true _ ▸ fun h ↦ hclean (marked_of_toJson fragment ?_)
    exact Json.marked_of_hasUnresolved _ h

end Fragment

end EventSchema
