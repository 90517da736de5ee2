import EventSchema.Fragment.Weight
import EventSchema.Proofs.Fragment.Distinct

/-!
# Tidy fragments

A fragment is tidy if nothing in it has a key twice. Values of distinct keys are classified as tidy
fragments (`tidy_ofJson`), and tidy fragments are written as values of distinct keys
(`Tidy.distinct_toJson`) in which every mark shows, so a tidy fragment is resolved exactly if it is
not marked (`Tidy.isResolved_iff`). Merges of tidy fragments are tidy (`tidy_mergeAllOf`).
-/

set_option autoImplicit false

namespace EventSchema

namespace Json

theorem hasUnresolved_of_mem_items {items : List Json} {value : Json} (hmem : value ∈ items)
    (hunresolved : value.hasUnresolved = true) : (Json.array items).hasUnresolved = true := by
  rw [hasUnresolved]
  induction items with
  | nil => exact absurd hmem List.not_mem_nil
  | cons first rest ih =>
    rw [anyUnresolvedItem]
    rcases List.mem_cons.mp hmem with rfl | hmem
    · rw [hunresolved, Bool.true_or]
    · rw [ih hmem, Bool.or_true]

theorem hasUnresolved_of_mem {members : Fields} {key : String} {value : Json}
    (hmem : (key, value) ∈ members) (hunresolved : value.hasUnresolved = true) :
    (Json.object members).hasUnresolved = true := by
  have hany : anyUnresolvedMember members = true := by
    induction members with
    | nil => exact absurd hmem List.not_mem_nil
    | cons first rest ih =>
      rw [anyUnresolvedMember]
      rcases List.mem_cons.mp hmem with rfl | hmem
      · rw [hunresolved, Bool.true_or]
      · rw [ih hmem, Bool.or_true]
  rw [hasUnresolved, hany, Bool.or_true]

/-- Where keys are distinct, every mark is one of the entries that a look-up finds. -/
theorem Distinct.hasUnresolved_of_marked {value : Json} (hdistinct : value.Distinct)
    (hmarked : value.Marked) : value.hasUnresolved = true := by
  induction hmarked with
  | @entry members key value hmem hmarks =>
    have hnode := isUnresolvedNode_iff.mpr ⟨key, value, hdistinct.unique.get?_of_mem hmem, hmarks⟩
    rw [hasUnresolved, hnode, Bool.true_or]
  | member hmem _ ih => exact hasUnresolved_of_mem hmem (ih (hdistinct.member hmem))
  | item hmem _ ih => exact hasUnresolved_of_mem_items hmem (ih (hdistinct.item hmem))

end Json

namespace Fragment

/-- The fragments that a fragment is made of. -/
def parts : Fragment → List Fragment
  | .array items _ => items.toList
  | .object properties _ additional _ => Entries.values (properties.getD []) ++ additional.toList
  | .composition members => members
  | .any _ | .primitive .. | .reference _ => []

/-- The values that a fragment holds as they are. -/
def values : Fragment → List Json
  | .any value => [value]
  | .primitive _ choices annotations => choices.getD [] ++ Entries.values annotations
  | .array _ annotations | .object _ _ _ annotations => Entries.values annotations
  | .reference _ | .composition _ => []

/-- Nothing in the fragment has a key twice. -/
inductive Tidy : Fragment → Prop
  | intro {fragment : Fragment} (hdistinct : fragment.Distinct)
    (hvalues : ∀ value ∈ fragment.values, value.Distinct)
    (hparts : ∀ part ∈ fragment.parts, Tidy part) : Tidy fragment

namespace Tidy

variable {fragment : Fragment}

theorem distinct (htidy : fragment.Tidy) : fragment.Distinct := by
  cases htidy with
  | intro hdistinct _ _ => exact hdistinct

theorem value (htidy : fragment.Tidy) {value : Json} (hmem : value ∈ fragment.values) :
    value.Distinct := by
  cases htidy with
  | intro _ hvalues _ => exact hvalues value hmem

theorem part (htidy : fragment.Tidy) {part : Fragment} (hmem : part ∈ fragment.parts) :
    part.Tidy := by
  cases htidy with
  | intro _ _ hparts => exact hparts part hmem

theorem any {value : Json} (hdistinct : value.Distinct) : (Fragment.any value).Tidy := by
  refine .intro (distinct_any hdistinct) (fun other hother ↦ ?_) fun part hpart ↦ ?_
  · exact List.mem_singleton.mp hother ▸ hdistinct
  · exact absurd hpart List.not_mem_nil

theorem walked (htidy : fragment.Tidy) {key : String} {value : Json}
    (hmem : (key, value) ∈ fragment.walked) : value.Distinct := by
  have hvalue : value ∈ Entries.values fragment.walked := List.mem_map.mpr ⟨_, hmem, rfl⟩
  cases fragment with
  | any whole =>
    have hwhole := htidy.value List.mem_cons_self
    cases whole with
    | object members =>
      rw [Fragment.walked] at hmem
      split_ifs at hmem
      · exact absurd hmem List.not_mem_nil
      · exact hwhole.member hmem
    | _ => exact absurd hmem List.not_mem_nil
  | primitive kind choices annotations => exact htidy.value (List.mem_append_right _ hvalue)
  | array items annotations => exact htidy.value hvalue
  | object properties required additional annotations => exact htidy.value hvalue
  | reference target => exact absurd hmem List.not_mem_nil
  | composition members => exact absurd hmem List.not_mem_nil

end Tidy

theorem distinct_of_mem_values {value inner : Json} (hdistinct : value.Distinct)
    (hmem : inner ∈ (ofJson value).values) : inner.Distinct := by
  cases value with
  | object members =>
    have hkept {keep : String × Json → Bool}
        (hmem : inner ∈ Entries.values (members.filter keep)) : inner.Distinct := by
      obtain ⟨⟨key, _⟩, hentry, rfl⟩ := List.mem_map.mp hmem
      exact hdistinct.member (List.mem_filter.mp hentry).1
    rw [ofJson] at hmem
    cases hshape : shape members with
    | reference target => exact absurd hmem (by simp [hshape, values])
    | composition => exact absurd hmem (by simp [hshape, values])
    | any =>
      simp only [hshape, values] at hmem
      exact List.mem_singleton.mp hmem ▸ hdistinct
    | primitive kind =>
      simp only [hshape, values] at hmem
      rcases List.mem_append.mp hmem with hchoice | hmem
      · cases hchoices : choicesOf members with
        | none =>
          rw [hchoices] at hchoice
          exact absurd hchoice List.not_mem_nil
        | some choices =>
          rw [hchoices] at hchoice
          exact (hdistinct.member (exists_of_choicesOf hchoices)).item hchoice
      · exact hkept hmem
    | array =>
      simp only [hshape, values] at hmem
      exact hkept hmem
    | object =>
      simp only [hshape, values] at hmem
      exact hkept hmem
  | _ =>
    simp only [ofJson, values] at hmem
    exact List.mem_singleton.mp hmem ▸ hdistinct

/-- The parts of a classified value are classified values from inside it. -/
theorem exists_of_mem_parts {value : Json} (hdistinct : value.Distinct) {part : Fragment}
    (hmem : part ∈ (ofJson value).parts) :
    ∃ inner : Json, inner.Distinct ∧ inner.weight < value.weight ∧ part = ofJson inner := by
  cases value with
  | object members =>
    have hmember {key : String} {inner : Json} (hinner : (key, inner) ∈ members) :
        inner.Distinct ∧ inner.weight < (Json.object members).weight :=
      ⟨hdistinct.member hinner, Json.weight_lt_of_member hinner⟩
    have hpart {wanted : String} (hmem : part ∈ (partOf wanted members).toList) :
        ∃ inner : Json, inner.Distinct ∧ inner.weight < (Json.object members).weight ∧
          part = ofJson inner := by
      obtain ⟨inner, hinner, rfl⟩ := exists_of_partOf (Option.mem_toList.mp hmem)
      exact ⟨inner, (hmember hinner).1, (hmember hinner).2, rfl⟩
    rw [ofJson] at hmem
    cases hshape : shape members with
    | reference target => exact absurd hmem (by simp [hshape, parts])
    | any => exact absurd hmem (by simp [hshape, parts])
    | primitive kind => exact absurd hmem (by simp [hshape, parts])
    | array =>
      simp only [hshape, parts] at hmem
      exact hpart hmem
    | object =>
      simp only [hshape, parts] at hmem
      rcases List.mem_append.mp hmem with hmem | hmem
      · obtain ⟨⟨name, _⟩, hentry, rfl⟩ := List.mem_map.mp hmem
        cases hproperties : propertiesOf members with
        | none =>
          rw [hproperties] at hentry
          exact absurd hentry List.not_mem_nil
        | some properties =>
          rw [hproperties] at hentry
          obtain ⟨entries, inner, hmap, hinner, rfl⟩ := exists_of_propertiesOf hproperties hentry
          obtain ⟨hentries, hless⟩ := hmember hmap
          have hlight := Nat.lt_trans (Json.weight_lt_of_member hinner) hless
          exact ⟨inner, hentries.member hinner, hlight, rfl⟩
      · exact hpart hmem
    | composition =>
      simp only [hshape, parts] at hmem
      obtain ⟨items, inner, hitems, hinner, rfl⟩ := exists_of_mem_membersOf hmem
      obtain ⟨hvalues, hless⟩ := hmember hitems
      have hlight := Nat.lt_trans (Json.weight_lt_of_item hinner) hless
      exact ⟨inner, hvalues.item hinner, hlight, rfl⟩
  | _ => exact absurd hmem (by simp [ofJson, parts])

/-- What a value of distinct keys is classified as is tidy. The induction is on its weight, since
the parts come from deep inside it. -/
theorem tidy_ofJson {value : Json} (hdistinct : value.Distinct) : (ofJson value).Tidy := by
  induction hweight : value.weight using Nat.strongRecOn generalizing value with
  | ind weight ih =>
    refine .intro (distinct_ofJson hdistinct) (fun inner hinner ↦ ?_) fun part hpart ↦ ?_
    · exact distinct_of_mem_values hdistinct hinner
    · obtain ⟨inner, hinner, hless, rfl⟩ := exists_of_mem_parts hdistinct hpart
      exact ih inner.weight (hweight ▸ hless) hinner rfl

/-! ### Marks of tidy fragments -/

theorem toItems_eq_map (items : List Fragment) : toItems items = items.map toJson := by
  induction items with
  | nil => rfl
  | cons item rest ih => rw [toItems, ih, List.map_cons]

theorem distinct_strings (names : List String) :
    (Json.array (names.map Json.string)).Distinct := by
  refine .array ?_
  intro item hitem
  obtain ⟨name, -, rfl⟩ := List.mem_map.mp hitem
  exact .string name

theorem distinct_toMembers {properties : Properties} (hunique : Entries.Unique properties)
    (hparts : ∀ entry ∈ properties, entry.2.toJson.Distinct) :
    (Json.object (toMembers properties)).Distinct := by
  refine .object (by rwa [Entries.Unique, keys_toMembers]) ?_
  rintro ⟨name, _⟩ hmember
  obtain ⟨part, hpart, rfl⟩ := mem_toMembers hmember
  exact hparts (name, part) hpart

theorem distinct_object_singleton {key : String} {value : Json} (hdistinct : value.Distinct) :
    (Json.object [(key, value)]).Distinct :=
  .object (List.nodup_singleton key) fun _ hentry ↦ List.mem_singleton.mp hentry ▸ hdistinct

namespace Tidy

variable {fragment : Fragment}

/-- The annotations of a tidy fragment are values of distinct keys. -/
theorem kept (htidy : fragment.Tidy) {entry : String × Json} (hmem : entry ∈ fragment.kept) :
    entry.2.Distinct := by
  have hvalue : entry.2 ∈ Entries.values fragment.kept := List.mem_map.mpr ⟨entry, hmem, rfl⟩
  cases fragment with
  | primitive kind choices annotations => exact htidy.value (List.mem_append_right _ hvalue)
  | array items annotations => exact htidy.value hvalue
  | object properties required additional annotations => exact htidy.value hvalue
  | _ => exact absurd hmem List.not_mem_nil

theorem distinct_toJson (htidy : fragment.Tidy) : fragment.toJson.Distinct := by
  induction htidy with
  | @intro fragment hdistinct hvalues hparts ih =>
    have hkept {entry : String × Json} (hmem : entry ∈ fragment.kept) : entry.2.Distinct :=
      kept (.intro hdistinct hvalues hparts) hmem
    have htyped (hkeywords : fragment.keywords ≠ [])
        (hdistinctKeywords : ∀ entry ∈ fragment.keywords, entry.2.Distinct) :
        fragment.toJson.Distinct := by
      rw [toJson_eq_written hdistinct.written hkeywords]
      refine .object hdistinct.written ?_
      intro entry hentry
      rcases List.mem_append.mp hentry with hentry | hentry
      · exact hdistinctKeywords entry hentry
      · exact hkept hentry
    cases fragment with
    | any value =>
      rw [toJson]
      exact hvalues value List.mem_cons_self
    | reference target =>
      rw [toJson]
      exact distinct_object_singleton (.string target)
    | composition members =>
      rw [toJson, toItems_eq_map]
      refine distinct_object_singleton (.array fun item hitem ↦ ?_)
      obtain ⟨member, hmember, rfl⟩ := List.mem_map.mp hitem
      exact ih member hmember
    | primitive kind choices annotations =>
      refine htyped (List.cons_ne_nil _ _) fun entry hentry ↦ ?_
      obtain rfl | ⟨items, rfl, rfl⟩ := mem_keywords_primitive.mp hentry
      · exact .string _
      · exact .array fun item hitem ↦ hvalues item (List.mem_append_left _ hitem)
    | array items annotations =>
      refine htyped (List.cons_ne_nil _ _) fun entry hentry ↦ ?_
      obtain rfl | ⟨item, rfl, rfl⟩ := mem_keywords_array.mp hentry
      · exact .string _
      · exact ih item List.mem_cons_self
    | object properties required additional annotations =>
      refine htyped (List.cons_ne_nil _ _) fun entry hentry ↦ ?_
      obtain rfl | ⟨entries, rfl, rfl⟩ | ⟨names, -, rfl⟩ | ⟨part, rfl, rfl⟩ :=
        mem_keywords_object.mp hentry
      · exact .string _
      · refine distinct_toMembers hdistinct.declared fun entry hmem ↦ ?_
        exact ih entry.2 (List.mem_append_left _ (List.mem_map.mpr ⟨entry, hmem, rfl⟩))
      · exact distinct_strings names
      · exact ih part (List.mem_append_right _ List.mem_cons_self)

/-- Every mark of a tidy fragment is written. -/
theorem marked_toJson (htidy : fragment.Tidy) (hmarked : fragment.Marked) :
    fragment.toJson.Marked := by
  induction hmarked with
  | reference target =>
    rw [toJson]
    exact .entry List.mem_cons_self (.inl ⟨rfl, rfl⟩)
  | composition members =>
    rw [toJson]
    exact .entry List.mem_cons_self (.inr ⟨rfl, rfl⟩)
  | any hmarked =>
    rw [toJson]
    exact hmarked
  | choice hmem hmarked =>
    rw [toJson_eq_written htidy.distinct.written (List.cons_ne_nil _ _)]
    exact .member (enum_mem_written _ _ _) (.item hmem hmarked)
  | items _ ih =>
    rw [toJson_eq_written htidy.distinct.written (List.cons_ne_nil _ _)]
    exact .member (items_mem_written _ _) (ih (htidy.part List.mem_cons_self))
  | property hmem _ ih =>
    have hpart := htidy.part (List.mem_append_left _ (List.mem_map.mpr ⟨_, hmem, rfl⟩))
    rw [toJson_eq_written htidy.distinct.written (List.cons_ne_nil _ _)]
    exact .member (properties_mem_written _ _ _ _) (.member (toMembers_of_mem hmem) (ih hpart))
  | name hmem hmarks =>
    rw [toJson_eq_written htidy.distinct.written (List.cons_ne_nil _ _)]
    exact .member (properties_mem_written _ _ _ _) (.entry (toMembers_of_mem hmem) hmarks)
  | additional _ ih =>
    have hpart := htidy.part (List.mem_append_right _ List.mem_cons_self)
    rw [toJson_eq_written htidy.distinct.written (List.cons_ne_nil _ _)]
    exact .member (additional_mem_written _ _ _ _) (ih hpart)
  | keptValue hmem hmarked =>
    rw [toJson_eq_written htidy.distinct.written (keywords_ne_nil (List.ne_nil_of_mem hmem))]
    exact .member (List.mem_append_right _ hmem) hmarked
  | keptEntry hmem hmarks =>
    rw [toJson_eq_written htidy.distinct.written (keywords_ne_nil (List.ne_nil_of_mem hmem))]
    exact .entry (List.mem_append_right _ hmem) hmarks

theorem isResolved_iff (htidy : fragment.Tidy) : fragment.IsResolved ↔ ¬fragment.Marked := by
  constructor
  · rintro ⟨-, hresolved⟩ hmarked
    have hunresolved := htidy.distinct_toJson.hasUnresolved_of_marked (htidy.marked_toJson hmarked)
    rw [hresolved] at hunresolved
    cases hunresolved
  · exact isResolved_of_not_marked

end Tidy

/-! ### Merges -/

/-- The properties of an untyped fragment are classified from the object under the keyword. -/
theorem exists_object_of_properties_any {value : Json} (hproperties : (any value).properties ≠ []) :
    ∃ members entries, value = .object members ∧
      Entries.get? members "properties" = some (.object entries) ∧
      (any value).properties = entries.map fun entry ↦ (entry.1, ofJson entry.2) := by
  rw [properties] at hproperties ⊢
  split at hproperties
  · rename_i entries hentries
    obtain ⟨map, hget, hmap⟩ := Option.bind_eq_some_iff.mp hentries
    cases value with
    | object members =>
      cases map with
      | object inner =>
        obtain rfl : inner = entries := Option.some.inj hmap
        exact ⟨members, inner, rfl, hget, ofMembers_eq_map inner⟩
      | _ => cases hmap
    | _ => cases hget
  · exact absurd rfl hproperties

namespace Tidy

variable {fragment : Fragment}

theorem unique_properties (htidy : fragment.Tidy) : fragment.properties.Unique := by
  cases fragment with
  | object properties required additional annotations => exact htidy.distinct.declared
  | any value =>
    by_cases hnone : (Fragment.any value).properties = []
    · rw [hnone]
      exact List.nodup_nil
    · obtain ⟨members, entries, rfl, hget, hproperties⟩ := exists_object_of_properties_any hnone
      have hmembers := htidy.value List.mem_cons_self
      rw [hproperties, Entries.Unique, Entries.keys, List.map_map]
      exact (hmembers.member (Entries.mem_of_get? hget)).unique
  | _ => exact List.nodup_nil

theorem of_mem_properties (htidy : fragment.Tidy) {name : String} {part : Fragment}
    (hmem : (name, part) ∈ fragment.properties) : part.Tidy := by
  cases fragment with
  | object properties required additional annotations =>
    exact htidy.part (List.mem_append_left _ (List.mem_map.mpr ⟨_, hmem, rfl⟩))
  | any value =>
    obtain ⟨members, entries, rfl, hget, hproperties⟩ :=
      exists_object_of_properties_any (List.ne_nil_of_mem hmem)
    have hmembers := htidy.value List.mem_cons_self
    rw [hproperties] at hmem
    obtain ⟨⟨key, inner⟩, hentry, hpair⟩ := List.mem_map.mp hmem
    obtain ⟨rfl, rfl⟩ := Prod.mk.inj hpair
    exact tidy_ofJson ((hmembers.member (Entries.mem_of_get? hget)).member hentry)
  | _ => exact absurd hmem List.not_mem_nil

theorem of_additional? (htidy : fragment.Tidy) {part : Fragment}
    (hpart : fragment.additional? = some part) : part.Tidy := by
  cases fragment with
  | object properties required additional annotations =>
    rw [additional?] at hpart
    exact htidy.part (List.mem_append_right _ (Option.mem_toList.mpr hpart))
  | any value =>
    rw [additional?] at hpart
    obtain ⟨inner, hget, rfl⟩ := Option.map_eq_some_iff.mp hpart
    have hvalue := htidy.value List.mem_cons_self
    cases value <;> simp [Json.get?] at hget
    exact tidy_ofJson (hvalue.member (Entries.mem_of_get? hget))
  | _ => cases hpart

end Tidy

theorem tidy_mergeAllOf {members : List Fragment} (hmembers : ∀ member ∈ members, member.Tidy) :
    (mergeAllOf members).Tidy := by
  have hfrom := Merged.From.foldl members
  have hunique := unique_properties_mergeAllOf members
  rw [mergeAllOf, Merged.toFragment] at hunique ⊢
  generalize members.foldl Merged.add {} = merged at hfrom hunique
  refine .intro ⟨unique_written List.nodup_nil ?_, List.nodup_nil, hunique⟩ ?_ ?_
  · exact fun _ _ _ ↦ List.not_mem_nil
  · exact fun _ hvalue ↦ absurd hvalue List.not_mem_nil
  · intro part hpart
    rcases List.mem_append.mp hpart with hpart | hpart
    · obtain ⟨⟨name, _⟩, hentry, rfl⟩ := List.mem_map.mp hpart
      obtain ⟨member, hmember, hproperty⟩ := hfrom.properties _ hentry
      exact (hmembers member hmember).of_mem_properties hproperty
    · obtain ⟨member, hmember, hadditional⟩ := hfrom.additional part (Option.mem_toList.mp hpart)
      exact (hmembers member hmember).of_additional? hadditional

/-- What a merge keeps of the marks of its members is in what the last of them to declare a
property, or further properties, declares there. -/
theorem marked_mergeAllOf_iff {members : List Fragment}
    (hmembers : ∀ member ∈ members, member.Tidy) : (mergeAllOf members).Marked ↔
      (∃ name part, (members.reverse.findSome? fun member ↦ member.properties.get? name) =
        some part ∧ (part.Marked ∨ Marks name part.toJson)) ∨
      ∃ part, members.reverse.findSome? additional? = some part ∧ part.Marked := by
  have hlast := get?_properties_mergeAllOf fun member hmember ↦
    (hmembers member hmember).unique_properties
  have hget {name : String} {part : Fragment}
      (hmem : (name, part) ∈ (mergeAllOf members).properties) :
      (members.reverse.findSome? fun member ↦ member.properties.get? name) = some part :=
    (hlast name).symm.trans ((unique_properties_mergeAllOf members).get?_of_mem hmem)
  have hshape : mergeAllOf members = .object (some (mergeAllOf members).properties)
      (some (mergeAllOf members).required) (mergeAllOf members).additional? [] := rfl
  constructor
  · intro hmarked
    rw [hshape] at hmarked
    generalize hadditional : (mergeAllOf members).additional? = additional at hmarked
    cases hmarked with
    | property hmem hpart => exact .inl ⟨_, _, hget hmem, .inl hpart⟩
    | name hmem hmarks => exact .inl ⟨_, _, hget hmem, .inr hmarks⟩
    | additional hpart =>
      exact .inr ⟨_, (additional?_mergeAllOf members).symm.trans hadditional, hpart⟩
    | keptValue hmem _ => exact absurd hmem List.not_mem_nil
    | keptEntry hmem _ => exact absurd hmem List.not_mem_nil
  · rintro (⟨name, part, hpart, hmarked⟩ | ⟨part, hpart, hmarked⟩)
    · exact marked_of_mem_properties (Entries.mem_of_get? ((hlast name).trans hpart)) hmarked
    · exact marked_of_additional? ((additional?_mergeAllOf members).trans hpart) hmarked

end Fragment

end EventSchema
