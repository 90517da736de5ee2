import EventSchema.Proofs.Fragment.References
import EventSchema.Proofs.Json.Distinct
import EventSchema.Proofs.Pointer

/-!
# Places of references

A location in a document is a list of steps, each to the member under a key or to the item at a
position. The path that is reported for a reference spells the steps to its text: the key as it is,
the position in decimal. Each string under a reference key is reported once, and nothing else is
(`mem_references_iff`, `nodup_places`). Two locations never have the same path, and the path is a
pointer that leads back to the text (`reportedReferences_exact`), whatever the keys hold.
-/

set_option autoImplicit false

namespace EventSchema.Json

/-! ### Locations -/

/-- From a value to the member under a key, or to the item at a position. -/
inductive Step where
  | key (name : String)
  | position (index : Nat)
deriving DecidableEq, Repr

/-- The step as a segment of a pointer. -/
def Step.segment : Step → String
  | .key name => name
  | .position index => String.ofList (Nat.toDigits 10 index)

/-- The part that a step leads to. -/
def part? (value : Json) (step : Step) : Option Json :=
  match value, step with
  | .object members, .key name => Entries.get? members name
  | .array items, .position index => items[index]?
  | _, _ => none

/-- What stands at a location of the document. -/
def at? (document : Json) (location : List Step) : Option Json := location.foldlM part? document

/-- The location ends in a reference key that holds the string. -/
def RefersAt (document : Json) (location : List Step) (text : String) : Prop :=
  location.getLast? = some (.key "$ref") ∧ document.at? location = some (.string text)

/-- Every position in an array of the document fits a machine word. -/
def Addressable (document : Json) : Prop :=
  ∀ location items, document.at? location = some (.array items) → items.length ≤ Nat.pow 2 64

/-- The path that is reported for a location. -/
def pathOf (location : List Step) : String := Pointer.path ⟨location.map Step.segment⟩

section Locations

variable {document value : Json} {step : Step} {rest : List Step} {text : String}

theorem at?_nil (document : Json) : document.at? [] = some document := rfl

theorem at?_cons (document : Json) (step : Step) (rest : List Step) :
    document.at? (step :: rest) = (document.part? step).bind fun value ↦ value.at? rest := rfl

theorem weight_lt_of_part? (hpart : document.part? step = some value) :
    value.weight < document.weight := by
  cases document with
  | object members =>
    cases step with
    | key name => exact weight_lt_of_member (Entries.mem_of_get? hpart)
    | position index => cases hpart
  | array items =>
    cases step with
    | key name => cases hpart
    | position index => exact weight_lt_of_item (List.mem_of_getElem? hpart)
  | _ => cases step <;> cases hpart

theorem Addressable.part (haddressable : document.Addressable)
    (hpart : document.part? step = some value) : value.Addressable := by
  intro location items hitems
  apply haddressable (step :: location)
  rw [at?_cons, hpart, Option.bind_some, hitems]

theorem Distinct.part (hdistinct : document.Distinct) (hpart : document.part? step = some value) :
    value.Distinct := by
  cases document with
  | object members =>
    cases step with
    | key name => exact hdistinct.member (Entries.mem_of_get? hpart)
    | position index => cases hpart
  | array items =>
    cases step with
    | key name => cases hpart
    | position index => exact hdistinct.item (List.mem_of_getElem? hpart)
  | _ => cases step <;> cases hpart

theorem length_le_weightOfItems (items : List Json) : items.length ≤ weightOfItems items := by
  induction items with
  | nil => exact Nat.le_refl 0
  | cons item rest ih =>
    rw [List.length_cons, weightOfItems]
    have hitem := item.weight_pos
    omega

/-- A document has positions for all its parts if it has no more parts than there are positions. -/
theorem addressable_of_weight_le (hweight : document.weight ≤ Nat.pow 2 64) :
    document.Addressable := by
  intro location
  induction location generalizing document with
  | nil =>
    intro items hitems
    obtain rfl := Option.some.inj hitems
    have hlength := length_le_weightOfItems items
    rw [weight] at hweight
    omega
  | cons step rest ih =>
    intro items hitems
    obtain ⟨value, hpart, hrest⟩ := Option.bind_eq_some_iff.mp hitems
    exact ih (Nat.le_trans (Nat.le_of_lt (weight_lt_of_part? hpart)) hweight) items hrest

theorem not_refersAt_nil : ¬document.RefersAt [] text := fun hrefers ↦ nomatch hrefers.1

theorem RefersAt.exists_cons {location : List Step} (hrefers : document.RefersAt location text) :
    ∃ step rest, location = step :: rest :=
  List.exists_cons_of_ne_nil fun hnil ↦ not_refersAt_nil (hnil ▸ hrefers)

/-- A reference is a string under the reference key of the document itself, or one of a part. -/
theorem refersAt_cons_iff : document.RefersAt (step :: rest) text ↔
    (step = .key "$ref" ∧ rest = [] ∧ document.part? step = some (.string text)) ∨
      ∃ value, document.part? step = some value ∧ value.RefersAt rest text := by
  rw [RefersAt, at?_cons, Option.bind_eq_some_iff]
  by_cases hrest : rest = []
  · subst hrest
    simp only [not_refersAt_nil, and_false, exists_false, or_false, true_and, at?_nil,
      List.getLast?_singleton, Option.some.injEq, exists_eq_right]
  · obtain ⟨next, others, rfl⟩ := List.exists_cons_of_ne_nil hrest
    rw [List.getLast?_cons_cons]
    constructor
    · rintro ⟨hlast, value, hpart, hvalue⟩
      exact .inr ⟨value, hpart, hlast, hvalue⟩
    · rintro (⟨-, hnil, -⟩ | ⟨value, hpart, hlast, hvalue⟩)
      · cases hnil
      · exact ⟨hlast, value, hpart, hvalue⟩

end Locations

/-! ### What is reported -/

/-- The references that an entry of an object accounts for. -/
def referencesOfEntry (place : Pointer) (entry : String × Json) : List PlacedReference :=
  match entry.2 with
  | .string text => if entry.1 = "$ref" then [⟨place.push entry.1, text⟩] else []
  | value => value.references (place.push entry.1)

section References

variable {place : Pointer} {reference : PlacedReference} {members : Fields} {items : List Json}

theorem references_object (place : Pointer) (members : Fields) :
    (object members).references place = members.flatMap (referencesOfEntry place) := by
  rw [references]
  induction members with
  | nil => rfl
  | cons entry rest ih =>
    obtain ⟨key, value⟩ := entry
    rw [List.flatMap_cons, ← ih]
    cases value <;> rfl

theorem references_array (place : Pointer) (items : List Json) :
    (array items).references place =
      items.zipIdx.flatMap fun (item, index) ↦ item.references (place.pushIndex index) := by
  rw [references]
  generalize 0 = start
  induction items generalizing start with
  | nil => rfl
  | cons item rest ih => rw [referencesOfItems, ih, List.zipIdx_cons, List.flatMap_cons]

theorem mem_referencesOfEntry_iff {key : String} {value : Json} :
    reference ∈ referencesOfEntry place (key, value) ↔
      (key = "$ref" ∧ value = .string reference.text ∧ reference.place = place.push key) ∨
        reference ∈ value.references (place.push key) := by
  obtain ⟨target, text⟩ := reference
  unfold referencesOfEntry
  cases value with
  | string other =>
    by_cases hkey : key = "$ref"
    · simp only [hkey, if_true, references, List.mem_singleton, List.not_mem_nil, or_false,
        true_and, PlacedReference.mk.injEq, string.injEq]
      rw [and_comm, eq_comm (a := text)]
    · simp only [hkey, if_false, references, List.not_mem_nil, false_and, or_false]
  | _ => simp

/-- What is found in a value is under its own reference key or found in a part. -/
theorem mem_references_step_iff {value : Json} (hdistinct : value.Distinct) :
    reference ∈ value.references place ↔
      (value.part? (.key "$ref") = some (.string reference.text) ∧
        reference.place = place.push "$ref") ∨
      ∃ step part, value.part? step = some part ∧
        reference ∈ part.references (place.push step.segment) := by
  cases value with
  | object members =>
    have hget {key : String} {part : Json} :
        (object members).part? (.key key) = some part ↔ (key, part) ∈ members :=
      ⟨Entries.mem_of_get?, hdistinct.unique.get?_of_mem⟩
    rw [references_object, List.mem_flatMap]
    constructor
    · rintro ⟨⟨key, part⟩, hmem, hfound⟩
      rcases mem_referencesOfEntry_iff.mp hfound with ⟨rfl, rfl, hplace⟩ | hinner
      · exact .inl ⟨hget.mpr hmem, hplace⟩
      · exact .inr ⟨.key key, part, hget.mpr hmem, hinner⟩
    · rintro (⟨hfound, hplace⟩ | ⟨step, part, hpart, hinner⟩)
      · exact ⟨_, hget.mp hfound, mem_referencesOfEntry_iff.mpr (.inl ⟨rfl, rfl, hplace⟩)⟩
      · cases step with
        | position index => cases hpart
        | key key => exact ⟨_, hget.mp hpart, mem_referencesOfEntry_iff.mpr (.inr hinner)⟩
  | array items =>
    rw [references_array, List.mem_flatMap]
    constructor
    · rintro ⟨⟨item, index⟩, hmem, hinner⟩
      exact .inr ⟨.position index, item, List.mem_zipIdx_iff_getElem?.mp hmem, hinner⟩
    · rintro (⟨hfound, -⟩ | ⟨step, part, hpart, hinner⟩)
      · cases hfound
      · cases step with
        | key key => cases hpart
        | position index =>
          exact ⟨(part, index), List.mem_zipIdx_iff_getElem?.mpr hpart, hinner⟩
  | _ =>
    refine iff_of_false List.not_mem_nil ?_
    rintro (⟨hfound, -⟩ | ⟨step, part, hpart, -⟩)
    · cases hfound
    · cases step <;> cases hpart

/-- Each string under a reference key is found, at the place that its steps lead to, and nothing
else is. -/
theorem mem_references_iff {value : Json} (hdistinct : value.Distinct) :
    reference ∈ value.references place ↔ ∃ location, value.RefersAt location reference.text ∧
      reference.place = ⟨place.segments ++ location.map Step.segment⟩ := by
  induction hweight : value.weight using Nat.strongRecOn generalizing value place with
  | ind weight ih =>
    have hinner {step : Step} {part : Json} (hpart : value.part? step = some part) :
        reference ∈ part.references (place.push step.segment) ↔
          ∃ rest, part.RefersAt rest reference.text ∧ reference.place =
            ⟨place.segments ++ (step :: rest).map Step.segment⟩ := by
      rw [ih _ (hweight ▸ weight_lt_of_part? hpart) (hdistinct.part hpart) rfl]
      simp only [Pointer.push, List.map_cons, List.append_assoc, List.singleton_append]
    rw [mem_references_step_iff hdistinct]
    constructor
    · rintro (⟨hfound, hplace⟩ | ⟨step, part, hpart, hmem⟩)
      · exact ⟨[.key "$ref"], refersAt_cons_iff.mpr (.inl ⟨rfl, rfl, hfound⟩), hplace⟩
      · obtain ⟨rest, hrefers, hplace⟩ := (hinner hpart).mp hmem
        exact ⟨step :: rest, refersAt_cons_iff.mpr (.inr ⟨part, hpart, hrefers⟩), hplace⟩
    · rintro ⟨location, hrefers, hplace⟩
      obtain ⟨step, rest, rfl⟩ := hrefers.exists_cons
      rcases refersAt_cons_iff.mp hrefers with ⟨rfl, rfl, hfound⟩ | ⟨part, hpart, hmem⟩
      · exact .inl ⟨hfound, hplace⟩
      · exact .inr ⟨step, part, hpart, (hinner hpart).mpr ⟨rest, hmem, hplace⟩⟩

/-- The references of a part have places below that of the part. -/
theorem below_of_mem_references {part : Json} (hdistinct : part.Distinct) {segment : String}
    (hmem : reference ∈ part.references (place.push segment)) :
    ∃ more, reference.place = ⟨place.segments ++ segment :: more⟩ := by
  obtain ⟨location, -, hplace⟩ := (mem_references_iff hdistinct).mp hmem
  exact ⟨_, by rw [hplace, Pointer.push, List.append_assoc, List.singleton_append]⟩

theorem below_of_mem_referencesOfEntry {key : String} {value : Json} (hdistinct : value.Distinct)
    (hmem : reference ∈ referencesOfEntry place (key, value)) :
    ∃ more, reference.place = ⟨place.segments ++ key :: more⟩ := by
  rcases mem_referencesOfEntry_iff.mp hmem with ⟨-, -, hplace⟩ | hmem
  · exact ⟨[], hplace⟩
  · exact below_of_mem_references hdistinct hmem

/-- Places below different parts are different. -/
theorem place_ne_of_below {other : PlacedReference} {segment segment' : String}
    (hne : segment ≠ segment')
    (hbelow : ∃ more, reference.place = ⟨place.segments ++ segment :: more⟩)
    (hbelow' : ∃ more, other.place = ⟨place.segments ++ segment' :: more⟩) :
    reference.place ≠ other.place := by
  obtain ⟨more, hplace⟩ := hbelow
  obtain ⟨more', hplace'⟩ := hbelow'
  intro hsame
  rw [hplace, hplace', Pointer.mk.injEq, List.append_cancel_left_eq] at hsame
  exact hne (List.cons.inj hsame).1

/-- No place is reported twice. -/
theorem nodup_places {value : Json} (hdistinct : value.Distinct) (place : Pointer) :
    ((value.references place).map PlacedReference.place).Nodup := by
  rw [List.Nodup, List.pairwise_map]
  induction hweight : value.weight using Nat.strongRecOn generalizing value place with
  | ind weight ih =>
    cases value with
    | object members =>
      rw [references_object, List.pairwise_flatMap]
      refine ⟨fun ⟨key, inner⟩ hmem ↦ ?_, ?_⟩
      · unfold referencesOfEntry
        split
        · split_ifs
          · exact List.pairwise_singleton _ _
          · exact .nil
        · exact ih _ (hweight ▸ weight_lt_of_member hmem) (hdistinct.member hmem) _ rfl
      · refine (List.pairwise_map.mp hdistinct.unique).imp_of_mem ?_
        rintro ⟨key, inner⟩ ⟨key', inner'⟩ hmem hmem' hne reference hfound other hother
        exact place_ne_of_below hne
          (below_of_mem_referencesOfEntry (hdistinct.member hmem) hfound)
          (below_of_mem_referencesOfEntry (hdistinct.member hmem') hother)
    | array items =>
      have hitem {item : Json} {index : Nat} (hmem : (item, index) ∈ items.zipIdx) :
          item ∈ items := List.mem_of_getElem? (List.mem_zipIdx_iff_getElem?.mp hmem)
      rw [references_array, List.pairwise_flatMap]
      refine ⟨fun ⟨item, index⟩ hmem ↦ ?_, ?_⟩
      · exact ih _ (hweight ▸ weight_lt_of_item (hitem hmem)) (hdistinct.item (hitem hmem)) _ rfl
      · have hpositions : (items.zipIdx.map Prod.snd).Nodup := by
          rw [List.zipIdx_map_snd]
          exact List.nodup_range'
        refine (List.pairwise_map.mp hpositions).imp_of_mem ?_
        rintro ⟨item, index⟩ ⟨item', index'⟩ hmem hmem' hne reference hfound other hother
        refine place_ne_of_below (fun hsame ↦ hne ?_)
          (below_of_mem_references (hdistinct.item (hitem hmem)) hfound)
          (below_of_mem_references (hdistinct.item (hitem hmem')) hother)
        exact Pointer.toDigits_injective (String.ofList_inj.mp hsame)
    | _ => exact .nil

end References

/-! ### Paths and locations -/

section Paths

variable {document : Json} {location : List Step} {value : Json}

/-- The path of a location leads to what stands there. -/
theorem lookup_of_at? (haddressable : document.Addressable)
    (hvalue : document.at? location = some value) :
    Pointer.lookup ⟨location.map Step.segment⟩ document = some value := by
  induction location generalizing document with
  | nil => exact hvalue
  | cons step rest ih =>
    obtain ⟨part, hpart, hrest⟩ := Option.bind_eq_some_iff.mp hvalue
    have hstep : Pointer.step document step.segment = some part := by
      cases document with
      | object members =>
        cases step with
        | key name => exact hpart
        | position index => cases hpart
      | array items =>
        cases step with
        | key name => cases hpart
        | position index =>
          obtain ⟨hindex, -⟩ := List.getElem?_eq_some_iff.mp hpart
          have hlength := haddressable [] items rfl
          rw [Pointer.step, Step.segment, Pointer.index?_toDigits (by omega), Option.bind_some]
          exact hpart
      | _ => cases step <;> cases hpart
    rw [List.map_cons, Pointer.lookup_cons, hstep, Option.bind_some]
    exact ih (haddressable.part hpart) hrest

/-- In one document, locations with the same segments are the same: the value at which a step is
taken tells keys from positions. -/
theorem location_eq_of_segments {other : List Step} {value' : Json}
    (hvalue : document.at? location = some value) (hvalue' : document.at? other = some value')
    (hsame : location.map Step.segment = other.map Step.segment) : location = other := by
  induction location generalizing document other with
  | nil => exact (List.map_eq_nil_iff.mp hsame.symm).symm
  | cons step rest ih =>
    obtain ⟨step', rest', rfl, hsegment, hrest⟩ := List.map_eq_cons_iff.mp hsame.symm
    obtain ⟨part, hpart, hvalue⟩ := Option.bind_eq_some_iff.mp hvalue
    obtain ⟨part', hpart', hvalue'⟩ := Option.bind_eq_some_iff.mp hvalue'
    have hstep : step = step' := by
      cases document with
      | object members =>
        cases step with
        | position index => cases hpart
        | key name =>
          cases step' with
          | position index => cases hpart'
          | key name' => exact congrArg Step.key hsegment.symm
      | array items =>
        cases step with
        | key name => cases hpart
        | position index =>
          cases step' with
          | key name => cases hpart'
          | position index' =>
            have hdigits := String.ofList_inj.mp hsegment
            exact congrArg Step.position (Pointer.toDigits_injective hdigits).symm
      | _ => cases step <;> cases hpart
    subst hstep
    obtain rfl := Option.some.inj (hpart.symm.trans hpart')
    rw [ih hvalue hvalue' hrest.symm]

end Paths

/-- The references of a document as they are reported, with the path of each. -/
def reportedReferences (document : Json) : List (String × String) :=
  (document.references ⟨[]⟩).map fun reference ↦ (reference.place.path, reference.text)

/-- Each location that ends in a reference key with a string is reported, by its path, once, and
nothing else is. Different locations have different paths; the path is a pointer, whose segments
are the keys and positions of the location, and which leads to the string. -/
theorem reportedReferences_exact {document : Json} (hdistinct : document.Distinct)
    (haddressable : document.Addressable) :
    document.reportedReferences.Nodup ∧
      (∀ path text, (path, text) ∈ document.reportedReferences ↔
        ∃ location, document.RefersAt location text ∧ path = pathOf location) ∧
      (∀ location text other text', document.RefersAt location text →
        document.RefersAt other text' → pathOf location = pathOf other → location = other) ∧
      ∀ location text, document.RefersAt location text →
        Pointer.parse? (pathOf location) = some ⟨location.map Step.segment⟩ ∧
          Pointer.lookup ⟨location.map Step.segment⟩ document = some (.string text) := by
  refine ⟨?_, fun path text ↦ ?_, fun location text other text' hrefers hrefers' hpath ↦ ?_,
    fun location text hrefers ↦ ?_⟩
  · have hpaths := (nodup_places hdistinct ⟨[]⟩).map Pointer.path_injective
    refine List.Nodup.of_map Prod.fst ?_
    rw [reportedReferences, List.map_map]
    rwa [List.map_map] at hpaths
  · rw [reportedReferences, List.mem_map]
    constructor
    · rintro ⟨reference, hmem, hreference⟩
      obtain ⟨rfl, rfl⟩ := Prod.mk.inj hreference
      obtain ⟨location, hrefers, hplace⟩ := (mem_references_iff hdistinct).mp hmem
      exact ⟨location, hrefers, by rw [hplace, pathOf, List.nil_append]⟩
    · rintro ⟨location, hrefers, rfl⟩
      exact ⟨⟨⟨location.map Step.segment⟩, text⟩,
        (mem_references_iff hdistinct).mpr ⟨location, hrefers, rfl⟩, rfl⟩
  · have hsegments := congrArg Pointer.segments (Pointer.path_injective hpath)
    exact location_eq_of_segments hrefers.2 hrefers'.2 hsegments
  · exact ⟨Pointer.parse?_path _, lookup_of_at? haddressable hrefers.2⟩

/-- References under keys that are empty, a number, or hold the marks of pointers, and in an
array. -/
def awkward : Json :=
  .object [("", .array [.null, .object [("$ref", .string "#/0")]]),
    ("0", .object [("a/b~#", .object [("$ref", .string "x")])]),
    ("$ref", .object [("$ref", .string "y")])]

theorem reportedReferences_exact_awkward :
    awkward.Distinct ∧ awkward.Addressable ∧
      awkward.reportedReferences =
        [("//1/$ref", "#/0"), ("/0/a~1b~0#/$ref", "x"), ("/$ref/$ref", "y")] ∧
      awkward.RefersAt [.key "", .position 1, .key "$ref"] "#/0" ∧
      Pointer.lookup ⟨["", "1", "$ref"]⟩ awkward = some (.string "#/0") := by
  have hdistinct : awkward.Distinct := by decide +kernel
  have haddressable : awkward.Addressable := addressable_of_weight_le (by decide +kernel)
  have hrefers : awkward.RefersAt [.key "", .position 1, .key "$ref"] "#/0" := ⟨rfl, rfl⟩
  obtain ⟨-, -, -, hleads⟩ := reportedReferences_exact hdistinct haddressable
  exact ⟨hdistinct, haddressable, by decide +kernel, hrefers, (hleads _ _ hrefers).2⟩

end EventSchema.Json
