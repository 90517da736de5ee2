import EventSchema.Proofs.Fragment.Blanked
import EventSchema.Proofs.Resolver.Resolved

/-!
# Filled references

Where a dangling reference stands for the empty schema, a fragment expands to a filled one
(`Fills`). What it expands to is the filled fragment with null in place of some of its empty objects
(`Fills.blanked`): the two searches follow the same references, and expansion keeps blanks where
they are (`blanked_expand`).
-/

set_option autoImplicit false

namespace EventSchema

open Fragment (WrittenBlanked)

section Expand

set_option linter.unusedSectionVars false

variable {follow follow' : String → Option Fragment}
  (hfollow : ∀ text, Option.Rel Fragment.Blanked (follow text) (follow' text))

include hfollow

mutual

/-- If each reference expands to what it expands to in another way, blanked, so does a fragment. -/
theorem blanked_expand : ∀ fragment : Fragment, fragment.Tidy →
    Option.Rel Fragment.Blanked (fragment.expand follow) (fragment.expand follow')
  | .any value, htidy => by
    rw [Fragment.expand, Fragment.expand]
    refine rel_bind (blanked_expandJson value (htidy.value List.mem_cons_self)) ?_
    exact fun _ _ hvalue ↦ .some (.any hvalue)
  | .primitive kind choices annotations, htidy => by
    rw [Fragment.expand, Fragment.expand]
    refine rel_bind (blanked_expandChoices choices fun value hmem ↦
      htidy.value (List.mem_append_left _ hmem)) fun _ _ hchoices ↦ ?_
    refine rel_bind (blanked_expandJsonMembers annotations fun entry hmem ↦
      htidy.kept hmem) fun _ _ hannotations ↦ ?_
    exact .some (.primitive kind hchoices (hannotations.alike htidy.distinct.walked))
  | .array items annotations, htidy => by
    rw [Fragment.expand, Fragment.expand]
    refine rel_bind (blanked_expandPart items fun fragment hmem ↦
      htidy.part (Option.mem_toList.mpr hmem)) fun _ _ hitems ↦ ?_
    refine rel_bind (blanked_expandJsonMembers annotations fun entry hmem ↦
      htidy.kept hmem) fun _ _ hannotations ↦ ?_
    exact .some (.array hitems (hannotations.alike htidy.distinct.walked))
  | .object properties required additional annotations, htidy => by
    rw [Fragment.expand, Fragment.expand]
    refine rel_bind (blanked_expandProperties properties htidy.distinct.declared
      fun entry hmem ↦ htidy.part (List.mem_append_left _ (List.mem_map_of_mem hmem)))
      fun _ _ hproperties ↦ ?_
    refine rel_bind (blanked_expandPart additional fun fragment hmem ↦
      htidy.part (List.mem_append_right _ (Option.mem_toList.mpr hmem))) fun _ _ hadditional ↦ ?_
    refine rel_bind (blanked_expandJsonMembers annotations fun entry hmem ↦
      htidy.kept hmem) fun _ _ hannotations ↦ ?_
    exact .some (.object required hproperties hadditional
      (hannotations.alike htidy.distinct.walked))
  | .reference target, _ => by
    rw [Fragment.expand, Fragment.expand]
    exact hfollow target
  | .composition members, htidy => by
    rw [Fragment.expand, Fragment.expand]
    refine rel_bind (blanked_expandItems members fun member hmem ↦ htidy.part hmem) ?_
    exact fun _ _ hmembers ↦ .some (Fragment.blanked_mergeAllOf hmembers)
termination_by fragment => 4 * fragment.weight + 1
decreasing_by all_goals simp only [Fragment.weight]; omega

theorem blanked_expandPart : ∀ part : Option Fragment, (∀ fragment ∈ part, fragment.Tidy) →
    Option.Rel (Option.Rel WrittenBlanked) (Fragment.expandPart follow part)
      (Fragment.expandPart follow' part)
  | none, _ => by
    rw [Fragment.expandPart, Fragment.expandPart]
    exact .some .none
  | some fragment, htidy => by
    rw [Fragment.expandPart, Fragment.expandPart]
    refine rel_bind (blanked_expand fragment (htidy fragment rfl)) ?_
    exact fun _ _ hfragment ↦ .some (.some hfragment.written)
termination_by part => 4 * Fragment.weightOfPart part + 2
decreasing_by simp only [Fragment.weightOfPart]; omega

theorem blanked_expandProperties : ∀ properties : Option Properties,
    Entries.Unique (properties.getD []) → (∀ entry ∈ properties.getD [], entry.2.Tidy) →
    Option.Rel (Option.Rel (Entries.Alike WrittenBlanked))
      (Fragment.expandProperties follow properties) (Fragment.expandProperties follow' properties)
  | none, _, _ => by
    rw [Fragment.expandProperties, Fragment.expandProperties]
    exact .some .none
  | some properties, hunique, htidy => by
    rw [Fragment.expandProperties, Fragment.expandProperties]
    refine rel_bind (blanked_expandMembers properties htidy) ?_
    exact fun _ _ hproperties ↦ .some (.some (hproperties.alike hunique))
termination_by properties => 4 * Fragment.weightOfProperties properties + 3
decreasing_by simp only [Fragment.weightOfProperties]; omega

theorem blanked_expandItems : ∀ items : List Fragment, (∀ fragment ∈ items, fragment.Tidy) →
    Option.Rel (List.Forall₂ Fragment.Blanked) (Fragment.expandItems follow items)
      (Fragment.expandItems follow' items)
  | [], _ => by
    rw [Fragment.expandItems, Fragment.expandItems]
    exact .some .nil
  | fragment :: rest, htidy => by
    rw [Fragment.expandItems, Fragment.expandItems]
    rw [List.forall_mem_cons] at htidy
    refine rel_bind (blanked_expand fragment htidy.1) fun _ _ hfragment ↦ ?_
    refine rel_bind (blanked_expandItems rest htidy.2) fun _ _ hrest ↦ ?_
    exact .some (.cons hfragment hrest)
termination_by items => 4 * Fragment.weightOfItems items + 2
decreasing_by
  all_goals
    have := fragment.weight_pos
    simp only [Fragment.weightOfItems]; omega

theorem blanked_expandMembers : ∀ members : Properties, (∀ entry ∈ members, entry.2.Tidy) →
    Option.Rel (Entries.Aligned WrittenBlanked (Entries.keys members))
      (Fragment.expandMembers follow members)
      (Fragment.expandMembers follow' members)
  | [], _ => by
    rw [Fragment.expandMembers, Fragment.expandMembers]
    exact .some .nil
  | (name, fragment) :: rest, htidy => by
    rw [Fragment.expandMembers, Fragment.expandMembers]
    rw [List.forall_mem_cons] at htidy
    refine rel_bind (blanked_expand fragment htidy.1) fun _ _ hfragment ↦ ?_
    refine rel_bind (blanked_expandMembers rest htidy.2) fun _ _ hrest ↦ ?_
    exact .some (.cons name hfragment.written hrest)
termination_by members => 4 * Fragment.weightOfMembers members + 2
decreasing_by
  all_goals
    have := fragment.weight_pos
    simp only [Fragment.weightOfMembers]; omega

theorem blanked_expandJson : ∀ value : Json, value.Distinct →
    Option.Rel Json.Blanked (value.expand follow) (value.expand follow')
  | .object members, hdistinct => by
    rw [Json.expand, Json.expand]
    by_cases h : Json.isUnresolvedNode members
    · have := Fragment.weight_ofJson_lt h
      rw [dif_pos h, dif_pos h]
      refine rel_bind (blanked_expand _ (Fragment.tidy_ofJson hdistinct)) ?_
      exact fun _ _ hfragment ↦ .some hfragment.written
    · rw [dif_neg h, dif_neg h]
      refine rel_bind (blanked_expandJsonMembers members fun entry hmem ↦
        hdistinct.member hmem) fun _ _ hmembers ↦ ?_
      exact .some (Json.blanked_object_iff.mpr (hmembers.alike hdistinct.unique))
  | .array items, hdistinct => by
    rw [Json.expand, Json.expand]
    refine rel_bind (blanked_expandJsonItems items fun item hmem ↦ hdistinct.item hmem) ?_
    exact fun _ _ hitems ↦ .some (.array hitems)
  | .null, _ => by
    rw [Json.expand, Json.expand]
    · exact .some .null
    all_goals simp
  | .bool value, _ => by
    rw [Json.expand, Json.expand]
    · exact .some (.bool value)
    all_goals simp
  | .number value, _ => by
    rw [Json.expand, Json.expand]
    · exact .some (.number value)
    all_goals simp
  | .string value, _ => by
    rw [Json.expand, Json.expand]
    · exact .some (.string value)
    all_goals simp
termination_by value => 4 * value.weight
decreasing_by all_goals simp only [Json.weight] at *; omega

theorem blanked_expandJsonItems : ∀ items : List Json, (∀ item ∈ items, item.Distinct) →
    Option.Rel (List.Forall₂ Json.Blanked) (Json.expandItems follow items)
      (Json.expandItems follow' items)
  | [], _ => by
    rw [Json.expandItems, Json.expandItems]
    exact .some .nil
  | item :: rest, hdistinct => by
    rw [Json.expandItems, Json.expandItems]
    rw [List.forall_mem_cons] at hdistinct
    refine rel_bind (blanked_expandJson item hdistinct.1) fun _ _ hitem ↦ ?_
    refine rel_bind (blanked_expandJsonItems rest hdistinct.2) fun _ _ hrest ↦ ?_
    exact .some (.cons hitem hrest)
termination_by items => 4 * Json.weightOfItems items + 1
decreasing_by
  all_goals
    have := item.weight_pos
    simp only [Json.weightOfItems]; omega

theorem blanked_expandJsonMembers : ∀ members : Fields, (∀ entry ∈ members, entry.2.Distinct) →
    Option.Rel (Entries.Aligned Json.Blanked (Entries.keys members))
      (Json.expandMembers follow members)
      (Json.expandMembers follow' members)
  | [], _ => by
    rw [Json.expandMembers, Json.expandMembers]
    exact .some .nil
  | (key, value) :: rest, hdistinct => by
    rw [Json.expandMembers, Json.expandMembers]
    rw [List.forall_mem_cons] at hdistinct
    refine rel_bind (blanked_expandJson value hdistinct.1) fun _ _ hvalue ↦ ?_
    refine rel_bind (blanked_expandJsonMembers rest hdistinct.2) fun _ _ hrest ↦ ?_
    exact .some (.cons key hvalue hrest)
termination_by members => 4 * Json.weightOfMembers members + 1
decreasing_by
  all_goals
    have := value.weight_pos
    simp only [Json.weightOfMembers]; omega

theorem blanked_expandChoices : ∀ choices : Option (List Json),
    (∀ value ∈ choices.getD [], value.Distinct) →
    Option.Rel (Option.Rel (List.Forall₂ Json.Blanked)) (Json.expandChoices follow choices)
      (Json.expandChoices follow' choices)
  | none, _ => by
    rw [Json.expandChoices, Json.expandChoices]
    exact .some .none
  | some choices, hdistinct => by
    rw [Json.expandChoices, Json.expandChoices]
    refine rel_bind (blanked_expandJsonItems choices hdistinct) ?_
    exact fun _ _ hchoices ↦ .some (.some hchoices)
termination_by choices => 4 * Json.weightOfItems (choices.getD []) + 2
decreasing_by simp only [Option.getD_some]; omega

end

end Expand

/-! ### Filling dangling references -/

section Fill

variable (library : Library)

/-- What a reference is filled to, where `next` fills what it denotes: what it unfolds to, but the
empty schema if it dangles. -/
def fillReference (next : Json → Path → Fragment → Option Fragment) (root : Json) (current : Path)
    (text : String) : Option Fragment :=
  match Reference.parse? text with
  | none => none
  | some reference =>
    match reference.find? library root current with
    | .error _ => none
    | .ok none => some (.any (.object []))
    | .ok (some found) => next found.document found.path (.ofJson found.value)

/-- What a fragment is filled to where references nest no deeper than `depth - 1`. -/
def fillWithin : Nat → Json → Path → Fragment → Option Fragment
  | 0, _, _, _ => none
  | depth + 1, root, current, fragment =>
    fragment.expand (fillReference library (fillWithin depth) root current)

/-- The fragment of the document `root` at `current` expands to the second one if every dangling
reference is taken for the empty schema. -/
def Fills (root : Json) (current : Path) (fragment filled : Fragment) : Prop :=
  ∃ depth, fillWithin library depth root current fragment = some filled

variable {library} {root : Json} {current : Path} {fragment : Fragment}

theorem fillReference_of_dangling {next : Json → Path → Fragment → Option Fragment} {text : String}
    {reference : Reference} (hparse : Reference.parse? text = some reference)
    (hfind : reference.find? library root current = .ok none) :
    fillReference library next root current text = some (.any (.object [])) := by
  rw [fillReference, hparse]
  simp only [hfind]

/-- A reference is filled exactly if it unfolds, and it unfolds to what it is filled to, blanked. -/
theorem blanked_fillReference (hlibrary : library.Distinct) (hroot : root.Distinct)
    {next next' : Json → Path → Fragment → Option Fragment}
    (hnext : ∀ (root : Json) (current : Path) (fragment : Fragment), root.Distinct →
      fragment.Tidy → Option.Rel Fragment.Blanked (next root current fragment)
        (next' root current fragment)) (text : String) :
    Option.Rel Fragment.Blanked (fillReference library next root current text)
      (unfoldReference library next' root current text) := by
  rw [fillReference, unfoldReference]
  cases Reference.parse? text with
  | none => exact .none
  | some reference =>
    cases hfind : reference.find? library root current with
    | error error =>
      simp only [hfind]
      exact .none
    | ok found? =>
      cases found? with
      | none =>
        simp only [hfind]
        exact .some (.any .blank)
      | some found =>
        simp only [hfind]
        obtain ⟨hdocument, hvalue⟩ := hlibrary.of_find? hroot hfind
        exact hnext _ _ _ hdocument (Fragment.tidy_ofJson hvalue)

theorem blanked_fillWithin (hlibrary : library.Distinct) (depth : Nat) (hroot : root.Distinct)
    (htidy : fragment.Tidy) : Option.Rel Fragment.Blanked
      (fillWithin library depth root current fragment)
      (unfoldWithin library depth root current fragment) := by
  induction depth generalizing root current fragment with
  | zero => exact .none
  | succ depth ih =>
    refine blanked_expand (blanked_fillReference hlibrary hroot ?_) fragment htidy
    exact fun _ _ _ hroot htidy ↦ ih hroot htidy

variable {result filled : Fragment}

/-- What expands is filled to something. -/
theorem Expands.exists_fills (hlibrary : library.Distinct) (hroot : root.Distinct)
    (htidy : fragment.Tidy) (hexpands : Expands library root current fragment result) :
    ∃ filled, Fills library root current fragment filled := by
  obtain ⟨depth, hunfold⟩ := expands_iff_exists_unfoldWithin.mp hexpands
  have hrel : Option.Rel Fragment.Blanked (fillWithin library depth root current fragment) _ :=
    blanked_fillWithin hlibrary depth hroot htidy
  rw [hunfold] at hrel
  generalize hfill : fillWithin library depth root current fragment = found at hrel
  cases hrel with
  | some _ => exact ⟨_, depth, hfill⟩

/-- A fragment expands to what it is filled to, blanked. -/
theorem Fills.blanked (hfills : Fills library root current fragment filled)
    (hlibrary : library.Distinct) (hroot : root.Distinct) (htidy : fragment.Tidy)
    (hexpands : Expands library root current fragment result) : filled.Blanked result := by
  obtain ⟨depth, hfill⟩ := hfills
  have hrel : Option.Rel Fragment.Blanked (fillWithin library depth root current fragment) _ :=
    blanked_fillWithin hlibrary depth hroot htidy
  rw [hfill] at hrel
  generalize hunfold : unfoldWithin library depth root current fragment = found at hrel
  cases hrel with
  | some hblanked =>
    rwa [(expands_of_unfoldWithin hunfold).unique hexpands] at hblanked

end Fill

end EventSchema
