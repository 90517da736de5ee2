import EventSchema.Proofs.Fragment.Distinct
import EventSchema.Proofs.Resolver.Expands
import Mathlib.Logic.Relation

/-!
# Exposed entries

Expanding leaves no reference and no composition of the fragment in place, but it can make new ones:
an object whose `$ref` is no string is plain, and if that entry expands to a string the object is a
reference afterwards; likewise an `allOf` that expands to an array. Such entries (`Exposed`) are the
only cause of what is left, and it is left if no merge drops it (`Leaks`, `Expands.leaks`). Where no
exposed entry is met, what a fragment expands to is resolved (`isResolved_of_expands`).
-/

set_option autoImplicit false

namespace EventSchema

/-- A fragment, the document that it belongs to, and the path from which that is seen. -/
structure Site where
  document : Json
  path : Path
  fragment : Fragment

/-- What is expanded in the course of expanding a fragment, one step inwards, where its result is
part of the whole. -/
inductive Inner (library : Library) : Site → Site → Prop
  | entry {root : Json} {current : Path} {fragment : Fragment} {key : String} {value : Json}
    (hmem : (key, value) ∈ fragment.walked) :
    Inner library ⟨root, current, fragment⟩ ⟨root, current, .any value⟩
  | node {root : Json} {current : Path} {members : Fields}
    (hnode : Json.isUnresolvedNode members = true) :
    Inner library ⟨root, current, .any (.object members)⟩
      ⟨root, current, .ofJson (.object members)⟩
  | item {root : Json} {current : Path} {items : List Json} {value : Json} (hmem : value ∈ items) :
    Inner library ⟨root, current, .any (.array items)⟩ ⟨root, current, .any value⟩
  | choice {root : Json} {current : Path} {kind : PrimitiveKind} {choices : List Json}
    {annotations : Fields} {value : Json} (hmem : value ∈ choices) :
    Inner library ⟨root, current, .primitive kind (some choices) annotations⟩
      ⟨root, current, .any value⟩
  | items {root : Json} {current : Path} {fragment : Fragment} {annotations : Fields} :
    Inner library ⟨root, current, .array (some fragment) annotations⟩ ⟨root, current, fragment⟩
  | property {root : Json} {current : Path} {properties : Properties}
    {required : Option (List String)} {additional : Option Fragment} {annotations : Fields}
    {name : String} {fragment : Fragment} (hmem : (name, fragment) ∈ properties) :
    Inner library ⟨root, current, .object (some properties) required additional annotations⟩
      ⟨root, current, fragment⟩
  | additional {root : Json} {current : Path} {properties : Option Properties}
    {required : Option (List String)} {fragment : Fragment} {annotations : Fields} :
    Inner library ⟨root, current, .object properties required (some fragment) annotations⟩
      ⟨root, current, fragment⟩
  | target {root : Json} {current : Path} {text : String} {reference : Reference}
    {found : Target} (hparse : Reference.parse? text = some reference)
    (hfind : reference.find? library root current = .ok (some found)) :
    Inner library ⟨root, current, .reference text⟩
      ⟨found.document, found.path, .ofJson found.value⟩

/-- What is expanded in the course of expanding a fragment, one step inwards: an inner fragment, or
a member of a composition, of which the merge may keep only some. -/
inductive Part (library : Library) : Site → Site → Prop
  | inner {site other : Site} (hinner : Inner library site other) : Part library site other
  | member {root : Json} {current : Path} {members : List Fragment} {fragment : Fragment}
    (hmem : fragment ∈ members) :
    Part library ⟨root, current, .composition members⟩ ⟨root, current, fragment⟩

/-- What is expanded in the course of expanding a fragment, itself included. -/
abbrev Visits (library : Library) : Site → Site → Prop := Relation.ReflTransGen (Part library)

/-- Expansion makes a reference or a composition of an object that is none, or of the map of the
properties. -/
inductive Exposed (library : Library) : Site → Prop
  | entry {root : Json} {current : Path} {fragment : Fragment} {key : String}
    {value value' : Json} (hmem : (key, value) ∈ fragment.walked)
    (hexpands : Expands library root current (.any value) (.any value'))
    (hmarks : Marks key value') : Exposed library ⟨root, current, fragment⟩
  | name {root : Json} {current : Path} {properties : Properties}
    {required : Option (List String)} {additional : Option Fragment} {annotations : Fields}
    {name : String} {fragment result : Fragment} (hmem : (name, fragment) ∈ properties)
    (hexpands : Expands library root current fragment result)
    (hmarks : Marks name result.toJson) :
    Exposed library ⟨root, current, .object (some properties) required additional annotations⟩

/-! ### Every mark has a cause -/

/-- No exposed entry is met in expanding the fragment. -/
def Safe (library : Library) (site : Site) : Prop :=
  ∀ other, Visits library site other → ¬Exposed library other

/-- An exposed entry is met whose mark stays: it is in a fragment that is not inside a composition,
or inside one whose merge keeps a mark. -/
inductive Leaks (library : Library) : Site → Prop
  | exposed {site : Site} (hexposed : Exposed library site) : Leaks library site
  | inner {site other : Site} (hinner : Inner library site other) (hleaks : Leaks library other) :
    Leaks library site
  | member {root : Json} {current : Path} {members results : List Fragment} {fragment : Fragment}
    (hmem : fragment ∈ members) (hleaks : Leaks library ⟨root, current, fragment⟩)
    (hmembers : ExpandsItems library root current members results)
    (hkept : (Fragment.mergeAllOf results).Marked) :
    Leaks library ⟨root, current, .composition members⟩

section Causes

variable {library : Library}

/-- The cause of a mark that stays is an exposed entry. -/
theorem Leaks.exists_exposed {site : Site} (hleaks : Leaks library site) :
    ∃ other, Visits library site other ∧ Exposed library other := by
  induction hleaks with
  | @exposed site hexposed => exact ⟨site, .refl, hexposed⟩
  | inner hinner _ ih =>
    obtain ⟨other, hvisits, hexposed⟩ := ih
    exact ⟨other, .head (.inner hinner) hvisits, hexposed⟩
  | member hmem _ _ _ ih =>
    obtain ⟨other, hvisits, hexposed⟩ := ih
    exact ⟨other, .head (.member hmem) hvisits, hexposed⟩

/-- The marks of walked entries, as values or as entries. -/
theorem leaks_of_walked {root : Json} {current : Path} {fragment : Fragment}
    (hentry : ∃ key value, (key, value) ∈ fragment.walked ∧
      (Leaks library ⟨root, current, .any value⟩ ∨
        ∃ value', ExpandsJson library root current value value' ∧ Marks key value')) :
    Leaks library ⟨root, current, fragment⟩ := by
  obtain ⟨key, value, hmem, hleaks | ⟨value', hexpands, hmarks⟩⟩ := hentry
  · exact .inner (.entry hmem) hleaks
  · exact .exposed (.entry hmem (.any hexpands) hmarks)

theorem leaks_of_properties {root : Json} {current : Path} {properties : Properties}
    {required : Option (List String)} {additional : Option Fragment} {annotations : Fields}
    (hentry : ∃ name fragment, (name, fragment) ∈ properties ∧
      (Leaks library ⟨root, current, fragment⟩ ∨
        ∃ result, Expands library root current fragment result ∧ Marks name result.toJson)) :
    Leaks library
      ⟨root, current, .object (some properties) required additional annotations⟩ := by
  obtain ⟨name, fragment, hmem, hleaks | ⟨result, hexpands, hmarks⟩⟩ := hentry
  · exact .inner (.property hmem) hleaks
  · exact .exposed (.name hmem hexpands hmarks)

mutual

theorem Expands.leaks {root : Json} {current : Path} : ∀ {fragment result : Fragment},
    Expands library root current fragment result → result.Marked →
      Leaks library ⟨root, current, fragment⟩
  | _, _, .any hvalue, hmarked => hvalue.leaks (Fragment.marked_of_any hmarked)
  | _, _, .primitive hchoices hannotations, hmarked => by
    have hinner := hchoices.leaks
    have hwalked := hannotations.leaks
    cases hmarked with
    | choice hmem hmarked =>
      obtain ⟨choices, rfl, value, hvalue, hleaks⟩ := hinner ⟨_, rfl, _, hmem, hmarked⟩
      exact .inner (.choice hvalue) hleaks
    | keptValue hmem hmarked => exact leaks_of_walked (hwalked ⟨_, _, hmem, .inl hmarked⟩)
    | keptEntry hmem hmarks => exact leaks_of_walked (hwalked ⟨_, _, hmem, .inr hmarks⟩)
  | _, _, .array hitems hannotations, hmarked => by
    have hinner := hitems.leaks
    have hwalked := hannotations.leaks
    cases hmarked with
    | items hmarked =>
      obtain ⟨fragment, rfl, hleaks⟩ := hinner ⟨_, rfl, hmarked⟩
      exact .inner .items hleaks
    | keptValue hmem hmarked => exact leaks_of_walked (hwalked ⟨_, _, hmem, .inl hmarked⟩)
    | keptEntry hmem hmarks => exact leaks_of_walked (hwalked ⟨_, _, hmem, .inr hmarks⟩)
  | _, _, .object hproperties hadditional hannotations, hmarked => by
    have hmap := hproperties.leaks
    have hinner := hadditional.leaks
    have hwalked := hannotations.leaks
    cases hmarked with
    | property hmem hmarked =>
      obtain ⟨properties, rfl, hfound⟩ := hmap ⟨_, rfl, _, _, hmem, .inl hmarked⟩
      exact leaks_of_properties hfound
    | name hmem hmarks =>
      obtain ⟨properties, rfl, hfound⟩ := hmap ⟨_, rfl, _, _, hmem, .inr hmarks⟩
      exact leaks_of_properties hfound
    | additional hmarked =>
      obtain ⟨fragment, rfl, hleaks⟩ := hinner ⟨_, rfl, hmarked⟩
      exact .inner .additional hleaks
    | keptValue hmem hmarked => exact leaks_of_walked (hwalked ⟨_, _, hmem, .inl hmarked⟩)
    | keptEntry hmem hmarks => exact leaks_of_walked (hwalked ⟨_, _, hmem, .inr hmarks⟩)
  | _, _, .dangling hparse hfind, hmarked => nomatch Fragment.marked_of_any hmarked
  | _, _, .reference hparse hfind htarget, hmarked =>
    .inner (.target hparse hfind) (htarget.leaks hmarked)
  | _, _, .composition hmembers, hmarked => by
    obtain ⟨member, hmem, hleaks⟩ := hmembers.leaks (Fragment.marked_of_mergeAllOf hmarked)
    exact .member hmem hleaks hmembers hmarked

theorem ExpandsPart.leaks {root : Json} {current : Path} : ∀ {part result : Option Fragment},
    ExpandsPart library root current part result →
      (∃ fragment, result = some fragment ∧ fragment.Marked) →
        ∃ fragment, part = some fragment ∧ Leaks library ⟨root, current, fragment⟩
  | _, _, .none, hmarked => by
    obtain ⟨fragment, hsome, -⟩ := hmarked
    cases hsome
  | _, _, .some hfragment, hmarked => by
    obtain ⟨fragment, hsome, hmarked⟩ := hmarked
    exact ⟨_, rfl, hfragment.leaks (Option.some_inj.mp hsome ▸ hmarked)⟩

theorem ExpandsProperties.leaks {root : Json} {current : Path} :
    ∀ {properties result : Option Properties},
      ExpandsProperties library root current properties result →
        (∃ entries, result = some entries ∧ ∃ name fragment, (name, fragment) ∈ entries ∧
          (fragment.Marked ∨ Marks name fragment.toJson)) →
        ∃ entries, properties = some entries ∧ ∃ name fragment, (name, fragment) ∈ entries ∧
          (Leaks library ⟨root, current, fragment⟩ ∨
            ∃ result, Expands library root current fragment result ∧ Marks name result.toJson)
  | _, _, .none, hmarked => by
    obtain ⟨entries, hsome, -⟩ := hmarked
    cases hsome
  | _, _, .some hproperties, hmarked => by
    obtain ⟨entries, hsome, hmarked⟩ := hmarked
    exact ⟨_, rfl, hproperties.leaks (Option.some_inj.mp hsome ▸ hmarked)⟩

theorem ExpandsItems.leaks {root : Json} {current : Path} : ∀ {items result : List Fragment},
    ExpandsItems library root current items result → (∃ item ∈ result, item.Marked) →
      ∃ item ∈ items, Leaks library ⟨root, current, item⟩
  | _, _, .nil, hmarked => by
    obtain ⟨item, hmem, -⟩ := hmarked
    exact absurd hmem List.not_mem_nil
  | _, _, .cons hfragment hrest, hmarked => by
    obtain ⟨item, hmem, hmarked⟩ := hmarked
    rcases List.mem_cons.mp hmem with hfirst | hmem
    · exact ⟨_, List.mem_cons_self, hfragment.leaks (hfirst ▸ hmarked)⟩
    · obtain ⟨other, hother, hleaks⟩ := hrest.leaks ⟨item, hmem, hmarked⟩
      exact ⟨other, List.mem_cons_of_mem _ hother, hleaks⟩

theorem ExpandsMembers.leaks {root : Json} {current : Path} : ∀ {members result : Properties},
    ExpandsMembers library root current members result →
      (∃ name fragment, (name, fragment) ∈ result ∧
        (fragment.Marked ∨ Marks name fragment.toJson)) →
      ∃ name fragment, (name, fragment) ∈ members ∧
        (Leaks library ⟨root, current, fragment⟩ ∨
          ∃ result, Expands library root current fragment result ∧ Marks name result.toJson)
  | _, _, .nil, hmarked => by
    obtain ⟨name, fragment, hmem, -⟩ := hmarked
    exact absurd hmem List.not_mem_nil
  | _, _, .cons hfragment hrest, hmarked => by
    obtain ⟨name, fragment, hmem, hmarked⟩ := hmarked
    have hinner := hfragment.leaks
    rcases List.mem_cons.mp hmem with hfirst | hmem
    · obtain ⟨rfl, rfl⟩ := Prod.mk.inj hfirst
      exact ⟨_, _, List.mem_cons_self, hmarked.imp hinner fun hmarks ↦ ⟨_, hfragment, hmarks⟩⟩
    · obtain ⟨other, part, hother, hleaks⟩ := hrest.leaks ⟨name, fragment, hmem, hmarked⟩
      exact ⟨other, part, List.mem_cons_of_mem _ hother, hleaks⟩

theorem ExpandsJson.leaks {root : Json} {current : Path} : ∀ {value result : Json},
    ExpandsJson library root current value result → result.Marked →
      Leaks library ⟨root, current, .any value⟩
  | _, _, .node hnode hfragment, hmarked =>
    .inner (.node hnode) (hfragment.leaks (Fragment.marked_of_toJson _ hmarked))
  | _, _, .object hplain hmembers, hmarked => by
    have hwalked := hmembers.leaks
    refine leaks_of_walked ?_
    rw [Fragment.walked_of_plain hplain]
    cases hmarked with
    | entry hmem hmarks => exact hwalked ⟨_, _, hmem, .inr hmarks⟩
    | member hmem hmarked => exact hwalked ⟨_, _, hmem, .inl hmarked⟩
  | _, _, .array hitems, hmarked => by
    have hinner := hitems.leaks
    cases hmarked with
    | item hmem hmarked =>
      obtain ⟨value, hvalue, hleaks⟩ := hinner ⟨_, hmem, hmarked⟩
      exact .inner (.item hvalue) hleaks
  | _, _, .null, hmarked => by cases hmarked
  | _, _, .bool _, hmarked => by cases hmarked
  | _, _, .number _, hmarked => by cases hmarked
  | _, _, .string _, hmarked => by cases hmarked

theorem ExpandsValues.leaks {root : Json} {current : Path} : ∀ {items result : List Json},
    ExpandsValues library root current items result → (∃ value ∈ result, value.Marked) →
      ∃ value ∈ items, Leaks library ⟨root, current, .any value⟩
  | _, _, .nil, hmarked => by
    obtain ⟨value, hmem, -⟩ := hmarked
    exact absurd hmem List.not_mem_nil
  | _, _, .cons hvalue hrest, hmarked => by
    obtain ⟨value, hmem, hmarked⟩ := hmarked
    rcases List.mem_cons.mp hmem with hfirst | hmem
    · exact ⟨_, List.mem_cons_self, hvalue.leaks (hfirst ▸ hmarked)⟩
    · obtain ⟨other, hother, hleaks⟩ := hrest.leaks ⟨value, hmem, hmarked⟩
      exact ⟨other, List.mem_cons_of_mem _ hother, hleaks⟩

theorem ExpandsFields.leaks {root : Json} {current : Path} : ∀ {members result : Fields},
    ExpandsFields library root current members result →
      (∃ key value, (key, value) ∈ result ∧ (value.Marked ∨ Marks key value)) →
      ∃ key value, (key, value) ∈ members ∧
        (Leaks library ⟨root, current, .any value⟩ ∨
          ∃ value', ExpandsJson library root current value value' ∧ Marks key value')
  | _, _, .nil, hmarked => by
    obtain ⟨key, value, hmem, -⟩ := hmarked
    exact absurd hmem List.not_mem_nil
  | _, _, .cons hvalue hrest, hmarked => by
    obtain ⟨key, value, hmem, hmarked⟩ := hmarked
    have hinner := hvalue.leaks
    rcases List.mem_cons.mp hmem with hfirst | hmem
    · obtain ⟨rfl, rfl⟩ := Prod.mk.inj hfirst
      exact ⟨_, _, List.mem_cons_self, hmarked.imp hinner fun hmarks ↦ ⟨_, hvalue, hmarks⟩⟩
    · obtain ⟨other, inner, hother, hleaks⟩ := hrest.leaks ⟨key, value, hmem, hmarked⟩
      exact ⟨other, inner, List.mem_cons_of_mem _ hother, hleaks⟩

theorem ExpandsChoices.leaks {root : Json} {current : Path} :
    ∀ {choices result : Option (List Json)},
      ExpandsChoices library root current choices result →
        (∃ values, result = some values ∧ ∃ value ∈ values, value.Marked) →
        ∃ values, choices = some values ∧ ∃ value ∈ values,
          Leaks library ⟨root, current, .any value⟩
  | _, _, .none, hmarked => by
    obtain ⟨values, hsome, -⟩ := hmarked
    cases hsome
  | _, _, .some hchoices, hmarked => by
    obtain ⟨values, hsome, hmarked⟩ := hmarked
    exact ⟨_, rfl, hchoices.leaks (Option.some_inj.mp hsome ▸ hmarked)⟩

end

/-- Where no exposed entry is met, what a fragment expands to is resolved. -/
theorem isResolved_of_expands {root : Json} {current : Path} {fragment result : Fragment}
    (hexpands : Expands library root current fragment result)
    (hsafe : Safe library ⟨root, current, fragment⟩) : result.IsResolved := by
  apply Fragment.isResolved_of_not_marked
  intro hmarked
  obtain ⟨site, hvisits, hexposed⟩ := (hexpands.leaks hmarked).exists_exposed
  exact hsafe site hvisits hexposed

end Causes

end EventSchema
