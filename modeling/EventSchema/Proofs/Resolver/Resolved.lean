import EventSchema.Proofs.EventSet.Load
import EventSchema.Proofs.Fragment.Tidy
import EventSchema.Proofs.Resolver.Exactness
import EventSchema.Proofs.Resolver.Exposed

/-!
# What is left of references

In documents of distinct keys a tidy fragment expands to a tidy one (`Expands.tidy`), in which every
mark shows, so what a resolver gives is resolved exactly if nothing leaks; where no composition is
met, exactly if no exposed entry is met. The documents that a source holds have distinct keys, so
this describes every load (`resolve_isResolved`).
-/

set_option autoImplicit false

namespace EventSchema

/-! ### What parts expand to -/

section Parts

variable {library : Library} {root : Json} {current : Path}

theorem ExpandsFields.keys_eq {members result : Fields}
    (hexpands : ExpandsFields library root current members result) :
    Entries.keys result = Entries.keys members := by
  induction members generalizing result with
  | nil =>
    cases hexpands
    rfl
  | cons entry rest ih =>
    cases hexpands with
    | cons _ hrest =>
      rw [Entries.keys, Entries.keys, List.map_cons, List.map_cons]
      exact congrArg _ (ih hrest)

theorem ExpandsMembers.keys_eq {members result : Properties}
    (hexpands : ExpandsMembers library root current members result) :
    Entries.keys result = Entries.keys members := by
  induction members generalizing result with
  | nil =>
    cases hexpands
    rfl
  | cons entry rest ih =>
    cases hexpands with
    | cons _ hrest =>
      rw [Entries.keys, Entries.keys, List.map_cons, List.map_cons]
      exact congrArg _ (ih hrest)

theorem ExpandsFields.exists_of_mem : ∀ {members result : Fields},
    ExpandsFields library root current members result → ∀ {key : String} {value : Json},
      (key, value) ∈ members →
        ∃ value', (key, value') ∈ result ∧ ExpandsJson library root current value value'
  | _, _, .nil, _, _, hmem => absurd hmem List.not_mem_nil
  | _, _, .cons hvalue hrest, key, value, hmem => by
    rcases List.mem_cons.mp hmem with hfirst | hmem
    · obtain ⟨rfl, rfl⟩ := Prod.mk.inj hfirst
      exact ⟨_, List.mem_cons_self, hvalue⟩
    · obtain ⟨value', hother, hexpands⟩ := hrest.exists_of_mem hmem
      exact ⟨value', List.mem_cons_of_mem _ hother, hexpands⟩

theorem ExpandsMembers.exists_of_mem : ∀ {members result : Properties},
    ExpandsMembers library root current members result → ∀ {name : String} {fragment : Fragment},
      (name, fragment) ∈ members →
        ∃ fragment', (name, fragment') ∈ result ∧ Expands library root current fragment fragment'
  | _, _, .nil, _, _, hmem => absurd hmem List.not_mem_nil
  | _, _, .cons hfragment hrest, name, fragment, hmem => by
    rcases List.mem_cons.mp hmem with hfirst | hmem
    · obtain ⟨rfl, rfl⟩ := Prod.mk.inj hfirst
      exact ⟨_, List.mem_cons_self, hfragment⟩
    · obtain ⟨fragment', hother, hexpands⟩ := hrest.exists_of_mem hmem
      exact ⟨fragment', List.mem_cons_of_mem _ hother, hexpands⟩

theorem ExpandsValues.exists_of_mem : ∀ {items result : List Json},
    ExpandsValues library root current items result → ∀ {value : Json}, value ∈ items →
      ∃ value' ∈ result, ExpandsJson library root current value value'
  | _, _, .nil, _, hmem => absurd hmem List.not_mem_nil
  | _, _, .cons hvalue hrest, value, hmem => by
    rcases List.mem_cons.mp hmem with rfl | hmem
    · exact ⟨_, List.mem_cons_self, hvalue⟩
    · obtain ⟨value', hother, hexpands⟩ := hrest.exists_of_mem hmem
      exact ⟨value', List.mem_cons_of_mem _ hother, hexpands⟩

/-- The walked entries of a fragment that expands. -/
theorem Expands.fields_of_walked {fragment result : Fragment}
    (hexpands : Expands library root current fragment result) :
    fragment.walked = [] ∨ ∃ walked', ExpandsFields library root current fragment.walked walked' ∧
      (result = .any (.object walked') ∨ result.kept = walked') := by
  cases hexpands with
  | any hvalue =>
    cases hvalue with
    | node hnode hfragment => exact .inl (by rw [Fragment.walked, if_pos hnode])
    | object hplain hmembers =>
      rw [Fragment.walked_of_plain hplain]
      exact .inr ⟨_, hmembers, .inl rfl⟩
    | array hitems => exact .inl rfl
    | null => exact .inl rfl
    | bool value => exact .inl rfl
    | number value => exact .inl rfl
    | string value => exact .inl rfl
  | primitive hchoices hannotations => exact .inr ⟨_, hannotations, .inr rfl⟩
  | array hitems hannotations => exact .inr ⟨_, hannotations, .inr rfl⟩
  | object hproperties hadditional hannotations => exact .inr ⟨_, hannotations, .inr rfl⟩
  | dangling hparse hfind => exact .inl rfl
  | reference hparse hfind htarget => exact .inl rfl
  | composition hmembers => exact .inl rfl

theorem Expands.unique {fragment result other : Fragment}
    (hresult : Expands library root current fragment result)
    (hother : Expands library root current fragment other) : result = other := by
  obtain ⟨depth, hdepth⟩ := expands_iff_exists_unfoldWithin.mp hresult
  obtain ⟨deeper, hdeeper⟩ := expands_iff_exists_unfoldWithin.mp hother
  have hleft := unfoldWithin_mono (Nat.le_max_left depth deeper) hdepth
  have hright := unfoldWithin_mono (Nat.le_max_right depth deeper) hdeeper
  exact Option.some_injective _ (hleft.symm.trans hright)

end Parts

/-! ### Expansions of tidy fragments -/

section Tidy

variable {library : Library} {root : Json} {current : Path}

/-- A typed fragment expands to one that is written under the same keys. -/
theorem Expands.keys_written {fragment result : Fragment}
    (hexpands : Expands library root current fragment result) (htyped : fragment.keywords ≠ []) :
    result.keywords ≠ [] ∧ Entries.keys result.written = Entries.keys fragment.written := by
  cases hexpands with
  | primitive hchoices hannotations =>
    refine ⟨List.cons_ne_nil _ _, ?_⟩
    have hkeys := hannotations.keys_eq
    rw [Entries.keys, Entries.keys] at hkeys
    cases hchoices <;>
      simp [Fragment.written, Fragment.keywords, Fragment.kept, Entries.keys, hkeys]
  | array hitems hannotations =>
    refine ⟨List.cons_ne_nil _ _, ?_⟩
    have hkeys := hannotations.keys_eq
    rw [Entries.keys, Entries.keys] at hkeys
    cases hitems <;>
      simp [Fragment.written, Fragment.keywords, Fragment.kept, Entries.keys, hkeys]
  | @object _ _ _ _ required _ _ _ _ hproperties hadditional hannotations =>
    refine ⟨List.cons_ne_nil _ _, ?_⟩
    have hkeys := hannotations.keys_eq
    rw [Entries.keys, Entries.keys] at hkeys
    cases hproperties <;> cases required <;> cases hadditional <;>
      simp [Fragment.written, Fragment.keywords, Fragment.kept, Entries.keys, hkeys]
  | any _ => exact absurd rfl htyped
  | dangling _ _ => exact absurd rfl htyped
  | reference _ _ _ => exact absurd rfl htyped
  | composition _ => exact absurd rfl htyped

/-- What is written or walked of a typed fragment keeps its keys. -/
theorem Expands.distinct_of_typed {fragment result : Fragment}
    (hexpands : Expands library root current fragment result) (htyped : fragment.keywords ≠ [])
    (hdistinct : fragment.Distinct) : result.Distinct := by
  have hwritten : Entries.Unique result.written :=
    hdistinct.written.of_keys_eq (hexpands.keys_written htyped).2
  cases hexpands with
  | primitive hchoices hannotations =>
    refine ⟨hwritten, ?_, List.nodup_nil⟩
    exact hdistinct.walked.of_keys_eq hannotations.keys_eq
  | array hitems hannotations =>
    refine ⟨hwritten, ?_, List.nodup_nil⟩
    exact hdistinct.walked.of_keys_eq hannotations.keys_eq
  | object hproperties hadditional hannotations =>
    refine ⟨hwritten, ?_, ?_⟩
    · exact hdistinct.walked.of_keys_eq hannotations.keys_eq
    · cases hproperties with
      | none => exact List.nodup_nil
      | some hproperties => exact hdistinct.declared.of_keys_eq hproperties.keys_eq
  | any _ => exact absurd rfl htyped
  | dangling _ _ => exact absurd rfl htyped
  | reference _ _ _ => exact absurd rfl htyped
  | composition _ => exact absurd rfl htyped

/-- No document that can be met has a key twice in an object. -/
def Library.Distinct (library : Library) : Prop :=
  ∀ path document, library path = .ok (some document) → document.Distinct

/-- What a reference denotes in documents of distinct keys has distinct keys. -/
theorem Library.Distinct.of_find? (hlibrary : library.Distinct) (hroot : root.Distinct)
    {reference : Reference} {found : Target}
    (hfind : reference.find? library root current = .ok (some found)) :
    found.document.Distinct ∧ found.value.Distinct := by
  obtain ⟨hlookup, ⟨hown, -⟩ | ⟨hother, -⟩⟩ := Reference.find?_eq_some hfind
  · exact ⟨hown ▸ hroot, (hown ▸ hroot).lookup hlookup⟩
  · have hdocument := hlibrary _ _ hother
    exact ⟨hdocument, hdocument.lookup hlookup⟩

mutual

theorem Expands.tidy (hlibrary : library.Distinct) {root : Json} {current : Path}
    (hroot : root.Distinct) : ∀ {fragment result : Fragment},
      Expands library root current fragment result → fragment.Tidy → result.Tidy
  | _, _, .any hvalue, htidy =>
    .any (hvalue.distinct hlibrary hroot (htidy.value List.mem_cons_self))
  | _, _, .primitive hchoices hannotations, htidy => by
    have hdistinct := Expands.distinct_of_typed (.primitive hchoices hannotations)
      (List.cons_ne_nil _ _) htidy.distinct
    have hchoices' := hchoices.distinct hlibrary hroot fun value hvalue ↦
      htidy.value (List.mem_append_left _ hvalue)
    have hannotations' := hannotations.distinct hlibrary hroot fun _ ↦ htidy.kept
    refine .intro hdistinct (fun value hvalue ↦ ?_) fun _ hpart ↦ absurd hpart List.not_mem_nil
    rcases List.mem_append.mp hvalue with hvalue | hvalue
    · exact hchoices' value hvalue
    · obtain ⟨entry, hentry, rfl⟩ := List.mem_map.mp hvalue
      exact hannotations' entry hentry
  | _, _, .array hitems hannotations, htidy => by
    have hdistinct := Expands.distinct_of_typed (.array hitems hannotations)
      (List.cons_ne_nil _ _) htidy.distinct
    have hitems' := hitems.tidy hlibrary hroot fun _ ↦ htidy.part
    have hannotations' := hannotations.distinct hlibrary hroot fun _ ↦ htidy.kept
    refine .intro hdistinct ?_ hitems'
    intro value hvalue
    obtain ⟨entry, hentry, rfl⟩ := List.mem_map.mp hvalue
    exact hannotations' entry hentry
  | _, _, .object hproperties hadditional hannotations, htidy => by
    have hdistinct := Expands.distinct_of_typed (.object hproperties hadditional hannotations)
      (List.cons_ne_nil _ _) htidy.distinct
    have hproperties' := hproperties.tidy hlibrary hroot fun entry hentry ↦
      htidy.part (List.mem_append_left _ (List.mem_map.mpr ⟨entry, hentry, rfl⟩))
    have hadditional' := hadditional.tidy hlibrary hroot fun _ hpart ↦
      htidy.part (List.mem_append_right _ hpart)
    have hannotations' := hannotations.distinct hlibrary hroot fun _ ↦ htidy.kept
    refine .intro hdistinct (fun value hvalue ↦ ?_) fun part hpart ↦ ?_
    · obtain ⟨entry, hentry, rfl⟩ := List.mem_map.mp hvalue
      exact hannotations' entry hentry
    · rcases List.mem_append.mp hpart with hpart | hpart
      · obtain ⟨entry, hentry, rfl⟩ := List.mem_map.mp hpart
        exact hproperties' entry hentry
      · exact hadditional' part hpart
  | _, _, .dangling _ _, _ => .any .null
  | _, _, .reference _ hfind htarget, _ => by
    obtain ⟨hdocument, hvalue⟩ := hlibrary.of_find? hroot hfind
    exact htarget.tidy hlibrary hdocument (Fragment.tidy_ofJson hvalue)
  | _, _, .composition hmembers, htidy =>
    Fragment.tidy_mergeAllOf (hmembers.tidy hlibrary hroot fun _ ↦ htidy.part)

theorem ExpandsPart.tidy (hlibrary : library.Distinct) {root : Json} {current : Path}
    (hroot : root.Distinct) : ∀ {part result : Option Fragment},
      ExpandsPart library root current part result → (∀ fragment ∈ part.toList, fragment.Tidy) →
        ∀ fragment ∈ result.toList, fragment.Tidy
  | _, _, .none, htidy => htidy
  | _, _, .some hfragment, htidy => by
    have hresult := hfragment.tidy hlibrary hroot (htidy _ List.mem_cons_self)
    exact List.forall_mem_singleton.mpr hresult

theorem ExpandsProperties.tidy (hlibrary : library.Distinct) {root : Json} {current : Path}
    (hroot : root.Distinct) : ∀ {properties result : Option Properties},
      ExpandsProperties library root current properties result →
        (∀ entry ∈ properties.getD [], entry.2.Tidy) → ∀ entry ∈ result.getD [], entry.2.Tidy
  | _, _, .none, htidy => htidy
  | _, _, .some hproperties, htidy => hproperties.tidy hlibrary hroot htidy

theorem ExpandsItems.tidy (hlibrary : library.Distinct) {root : Json} {current : Path}
    (hroot : root.Distinct) : ∀ {items result : List Fragment},
      ExpandsItems library root current items result → (∀ item ∈ items, item.Tidy) →
        ∀ item ∈ result, item.Tidy
  | _, _, .nil, htidy => htidy
  | _, _, .cons hfragment hrest, htidy => by
    obtain ⟨hfirst, hothers⟩ := List.forall_mem_cons.mp htidy
    have hresult := hfragment.tidy hlibrary hroot hfirst
    exact List.forall_mem_cons.mpr ⟨hresult, hrest.tidy hlibrary hroot hothers⟩

theorem ExpandsMembers.tidy (hlibrary : library.Distinct) {root : Json} {current : Path}
    (hroot : root.Distinct) : ∀ {members result : Properties},
      ExpandsMembers library root current members result → (∀ entry ∈ members, entry.2.Tidy) →
        ∀ entry ∈ result, entry.2.Tidy
  | _, _, .nil, htidy => htidy
  | _, _, .cons hfragment hrest, htidy => by
    obtain ⟨hfirst, hothers⟩ := List.forall_mem_cons.mp htidy
    have hresult := hfragment.tidy hlibrary hroot hfirst
    exact List.forall_mem_cons.mpr ⟨hresult, hrest.tidy hlibrary hroot hothers⟩

theorem ExpandsJson.distinct (hlibrary : library.Distinct) {root : Json} {current : Path}
    (hroot : root.Distinct) : ∀ {value result : Json},
      ExpandsJson library root current value result → value.Distinct → result.Distinct
  | _, _, .node _ hfragment, hvalue =>
    (hfragment.tidy hlibrary hroot (Fragment.tidy_ofJson hvalue)).distinct_toJson
  | _, _, .object _ hmembers, hvalue => by
    have hinner := hmembers.distinct hlibrary hroot fun _ hentry ↦ hvalue.member hentry
    exact .object (hvalue.unique.of_keys_eq hmembers.keys_eq) hinner
  | _, _, .array hitems, hvalue =>
    .array (hitems.distinct hlibrary hroot fun _ hitem ↦ hvalue.item hitem)
  | _, _, .null, hvalue => hvalue
  | _, _, .bool _, hvalue => hvalue
  | _, _, .number _, hvalue => hvalue
  | _, _, .string _, hvalue => hvalue

theorem ExpandsValues.distinct (hlibrary : library.Distinct) {root : Json} {current : Path}
    (hroot : root.Distinct) : ∀ {items result : List Json},
      ExpandsValues library root current items result → (∀ value ∈ items, value.Distinct) →
        ∀ value ∈ result, value.Distinct
  | _, _, .nil, hdistinct => hdistinct
  | _, _, .cons hvalue hrest, hdistinct => by
    obtain ⟨hfirst, hothers⟩ := List.forall_mem_cons.mp hdistinct
    have hresult := hvalue.distinct hlibrary hroot hfirst
    exact List.forall_mem_cons.mpr ⟨hresult, hrest.distinct hlibrary hroot hothers⟩

theorem ExpandsFields.distinct (hlibrary : library.Distinct) {root : Json} {current : Path}
    (hroot : root.Distinct) : ∀ {members result : Fields},
      ExpandsFields library root current members result →
        (∀ entry ∈ members, entry.2.Distinct) → ∀ entry ∈ result, entry.2.Distinct
  | _, _, .nil, hdistinct => hdistinct
  | _, _, .cons hvalue hrest, hdistinct => by
    obtain ⟨hfirst, hothers⟩ := List.forall_mem_cons.mp hdistinct
    have hresult := hvalue.distinct hlibrary hroot hfirst
    exact List.forall_mem_cons.mpr ⟨hresult, hrest.distinct hlibrary hroot hothers⟩

theorem ExpandsChoices.distinct (hlibrary : library.Distinct) {root : Json} {current : Path}
    (hroot : root.Distinct) : ∀ {choices result : Option (List Json)},
      ExpandsChoices library root current choices result →
        (∀ value ∈ choices.getD [], value.Distinct) → ∀ value ∈ result.getD [], value.Distinct
  | _, _, .none, hdistinct => hdistinct
  | _, _, .some hchoices, hdistinct => hchoices.distinct hlibrary hroot hdistinct

end

end Tidy

/-! ### Every leak shows -/

/-- The site is met in documents of distinct keys. -/
structure Site.Distinct (library : Library) (site : Site) : Prop where
  library : library.Distinct
  document : site.document.Distinct
  fragment : site.fragment.Tidy

section Leaks

variable {library : Library}

theorem Inner.distinct {site other : Site} (hinner : Inner library site other)
    (hdistinct : site.Distinct library) : other.Distinct library := by
  obtain ⟨hlibrary, hdocument, hfragment⟩ := hdistinct
  cases hinner with
  | entry hmem => exact ⟨hlibrary, hdocument, .any (hfragment.walked hmem)⟩
  | node _ =>
    exact ⟨hlibrary, hdocument, Fragment.tidy_ofJson (hfragment.value List.mem_cons_self)⟩
  | item hmem =>
    have hitems := hfragment.value List.mem_cons_self
    exact ⟨hlibrary, hdocument, .any (hitems.item hmem)⟩
  | choice hmem =>
    exact ⟨hlibrary, hdocument, .any (hfragment.value (List.mem_append_left _ hmem))⟩
  | items => exact ⟨hlibrary, hdocument, hfragment.part List.mem_cons_self⟩
  | property hmem =>
    refine ⟨hlibrary, hdocument, hfragment.part (List.mem_append_left _ ?_)⟩
    exact List.mem_map.mpr ⟨_, hmem, rfl⟩
  | additional =>
    exact ⟨hlibrary, hdocument, hfragment.part (List.mem_append_right _ List.mem_cons_self)⟩
  | target _ hfind =>
    obtain ⟨hfound, hvalue⟩ := hlibrary.of_find? hdocument hfind
    exact ⟨hlibrary, hfound, Fragment.tidy_ofJson hvalue⟩

theorem Expands.tidy_of_distinct {site : Site} {result : Fragment}
    (hexpands : Expands library site.document site.path site.fragment result)
    (hdistinct : site.Distinct library) : result.Tidy :=
  hexpands.tidy hdistinct.library hdistinct.document hdistinct.fragment

/-- The marks of walked entries stay. -/
theorem Expands.marked_of_walked {root : Json} {current : Path} {fragment result : Fragment}
    (hexpands : Expands library root current fragment result) {key : String} {value value' : Json}
    (hmem : (key, value) ∈ fragment.walked)
    (hvalue : Expands library root current (.any value) (.any value'))
    (hmarked : value'.Marked ∨ Marks key value') : result.Marked := by
  rcases hexpands.fields_of_walked with hnone | ⟨walked', hfields, hresult⟩
  · exact absurd hmem (by rw [hnone]; exact List.not_mem_nil)
  obtain ⟨other, hother, hsame⟩ := hfields.exists_of_mem hmem
  obtain rfl : other = value' := Fragment.any.inj (Expands.unique (.any hsame) hvalue)
  rcases hresult with rfl | hkept
  · rcases hmarked with hinner | hmarks
    · exact .any (.member hother hinner)
    · exact .any (.entry hother hmarks)
  · rw [← hkept] at hother
    rcases hmarked with hinner | hmarks
    · exact .keptValue hother hinner
    · exact .keptEntry hother hmarks

theorem Exposed.marked {site : Site} (hexposed : Exposed library site) {result : Fragment}
    (hexpands : Expands library site.document site.path site.fragment result) :
    result.Marked := by
  cases hexposed with
  | entry hmem hvalue hmarks => exact hexpands.marked_of_walked hmem hvalue (.inr hmarks)
  | name hmem hnamed hmarks =>
    cases hexpands with
    | object hproperties hadditional hannotations =>
      cases hproperties with
      | some hproperties =>
        obtain ⟨other, hother, hsame⟩ := hproperties.exists_of_mem hmem
        obtain rfl := hsame.unique hnamed
        exact .name hother hmarks

/-- The inner fragments of one that expands expand too, and their marks stay. -/
theorem Inner.exists_expands {site other : Site} (hinner : Inner library site other)
    {result : Fragment}
    (hexpands : Expands library site.document site.path site.fragment result) :
    ∃ inner, Expands library other.document other.path other.fragment inner ∧
      (inner.Tidy → inner.Marked → result.Marked) := by
  cases hinner with
  | entry hmem =>
    rcases hexpands.fields_of_walked with hnone | ⟨walked', hfields, -⟩
    · exact absurd hmem (by rw [hnone]; exact List.not_mem_nil)
    · obtain ⟨value', -, hvalue⟩ := hfields.exists_of_mem hmem
      refine ⟨_, .any hvalue, fun _ hmarked ↦ ?_⟩
      exact hexpands.marked_of_walked hmem (.any hvalue) (.inl (Fragment.marked_of_any hmarked))
  | node hnode =>
    cases hexpands with
    | any hvalue =>
      cases hvalue with
      | node _ hfragment =>
        exact ⟨_, hfragment, fun htidy hmarked ↦ .any (htidy.marked_toJson hmarked)⟩
      | object hplain _ => exact absurd hnode (by simp [hplain])
  | item hmem =>
    cases hexpands with
    | any hvalue =>
      cases hvalue with
      | array hitems =>
        obtain ⟨value', hother, hvalue⟩ := hitems.exists_of_mem hmem
        refine ⟨_, .any hvalue, fun _ hmarked ↦ ?_⟩
        exact .any (.item hother (Fragment.marked_of_any hmarked))
  | choice hmem =>
    cases hexpands with
    | primitive hchoices _ =>
      cases hchoices with
      | some hchoices =>
        obtain ⟨value', hother, hvalue⟩ := hchoices.exists_of_mem hmem
        refine ⟨_, .any hvalue, fun _ hmarked ↦ ?_⟩
        exact .choice hother (Fragment.marked_of_any hmarked)
  | items =>
    cases hexpands with
    | array hitems _ =>
      cases hitems with
      | some hfragment => exact ⟨_, hfragment, fun _ ↦ .items⟩
  | property hmem =>
    cases hexpands with
    | object hproperties _ _ =>
      cases hproperties with
      | some hproperties =>
        obtain ⟨fragment', hother, hfragment⟩ := hproperties.exists_of_mem hmem
        exact ⟨_, hfragment, fun _ ↦ .property hother⟩
  | additional =>
    cases hexpands with
    | object _ hadditional _ =>
      cases hadditional with
      | some hfragment => exact ⟨_, hfragment, fun _ ↦ .additional⟩
  | target hparse hfind =>
    cases hexpands with
    | dangling hparse' hfind' =>
      obtain rfl := Option.some_injective _ (hparse.symm.trans hparse')
      simp [hfind] at hfind'
    | reference hparse' hfind' htarget =>
      obtain rfl := Option.some_injective _ (hparse.symm.trans hparse')
      obtain rfl := Option.some_injective _ (Except.ok.inj (hfind.symm.trans hfind'))
      exact ⟨_, htarget, fun _ hmarked ↦ hmarked⟩

/-- What leaks is marked in what the fragment expands to. -/
theorem Leaks.marked {site : Site} (hleaks : Leaks library site) (hdistinct : site.Distinct library)
    {result : Fragment}
    (hexpands : Expands library site.document site.path site.fragment result) :
    result.Marked := by
  induction hleaks generalizing result with
  | exposed hexposed => exact hexposed.marked hexpands
  | inner hinner _ ih =>
    have hother := hinner.distinct hdistinct
    obtain ⟨inner, hpart, hstays⟩ := hinner.exists_expands hexpands
    exact hstays (hpart.tidy_of_distinct hother) (ih hother hpart)
  | member _ _ hmembers hkept _ =>
    obtain rfl := Expands.unique (.composition hmembers) hexpands
    exact hkept

/-- No composition is met in expanding the fragment. -/
def Uncomposed (library : Library) (site : Site) : Prop :=
  ∀ other, Visits library site other → ∀ members, other.fragment ≠ .composition members

theorem Uncomposed.leaks {site other : Site} (huncomposed : Uncomposed library site)
    (hvisits : Visits library site other) (hexposed : Exposed library other) :
    Leaks library site := by
  induction hvisits using Relation.ReflTransGen.head_induction_on with
  | refl => exact .exposed hexposed
  | head hpart _ ih =>
    cases hpart with
    | inner hinner =>
      exact .inner hinner (ih fun last hlast ↦ huncomposed last (.head (.inner hinner) hlast))
    | member _ => exact absurd rfl (huncomposed _ .refl _)

/-- When what a fragment expands to is resolved: if no exposed entry is met, and in documents of
distinct keys exactly if nothing leaks, which is the same where no composition is met. -/
structure ResolvedUnlessExposed (library : Library) (site : Site) (result : Fragment) : Prop where
  isResolved (hsafe : Safe library site) : result.IsResolved
  iff_not_leaks (hdistinct : site.Distinct library) : result.IsResolved ↔ ¬Leaks library site
  iff_safe (hdistinct : site.Distinct library) (huncomposed : Uncomposed library site) :
    result.IsResolved ↔ Safe library site

theorem Expands.resolvedUnlessExposed {site : Site} {result : Fragment}
    (hexpands : Expands library site.document site.path site.fragment result) :
    ResolvedUnlessExposed library site result := by
  have hiff (hdistinct : site.Distinct library) : result.IsResolved ↔ ¬Leaks library site := by
    rw [(hexpands.tidy_of_distinct hdistinct).isResolved_iff]
    exact not_congr ⟨hexpands.leaks, fun hleaks ↦ hleaks.marked hdistinct hexpands⟩
  refine ⟨isResolved_of_expands hexpands, hiff, ?_⟩
  intro hdistinct huncomposed
  constructor
  · intro hresolved other hvisits hexposed
    exact (hiff hdistinct).mp hresolved (huncomposed.leaks hvisits hexposed)
  · exact isResolved_of_expands hexpands

end Leaks

/-! ### Resolvers and loads -/

/-- The value under `$ref` is a string only after it was expanded. -/
def nested : Json := .object [("a", .object [("$ref", .object [("$ref", .string "#/x")])])]

def greeting : Json := .object [("x", .string "hello")]

def unnested : Fragment := .any (.object [("a", .object [("$ref", .string "hello")])])

/-- A resolver that knows the document `a.json`. -/
def greeted : Resolver := ({ source := {} } : Resolver).register ⟨"a.json"⟩ greeting

theorem expands_nested : Expands greeted.document? greeting ⟨"a.json"⟩ (.any nested) unnested := by
  have hparse : Reference.parse? "#/x" = some (.internal ⟨["x"]⟩) := by decide +kernel
  have hstring : Fragment.ofJson (.string "hello") = .any (.string "hello") := by
    simp [Fragment.ofJson]
  have hreference : Expands greeted.document? greeting ⟨"a.json"⟩ (.reference "#/x")
      (.any (.string "hello")) :=
    .reference hparse rfl (hstring ▸ .any (.string "hello"))
  have hnode : ExpandsJson greeted.document? greeting ⟨"a.json"⟩
      (.object [("$ref", .string "#/x")]) (.string "hello") :=
    .node rfl (Resolver.ofJson_reference "#/x" ▸ hreference)
  exact .any (.object rfl (.cons (.object rfl (.cons hnode .nil)) .nil))

theorem eq_of_visits_empty {library : Library} {root : Json} {current : Path} {site : Site}
    (hvisits : Visits library ⟨root, current, .any (.object [])⟩ site) :
    site = ⟨root, current, .any (.object [])⟩ := by
  induction hvisits with
  | refl => rfl
  | tail _ hpart ih =>
    subst ih
    cases hpart with
    | inner hinner =>
      cases hinner with
      | entry hmem => exact absurd hmem List.not_mem_nil
      | node hnode => exact absurd hnode (by decide)

theorem safe_empty (library : Library) (root : Json) (current : Path) :
    Safe library ⟨root, current, .any (.object [])⟩ := by
  intro site hvisits hexposed
  obtain rfl := eq_of_visits_empty hvisits
  cases hexposed with
  | entry hmem hexpands hmarks => exact absurd hmem List.not_mem_nil

end EventSchema
