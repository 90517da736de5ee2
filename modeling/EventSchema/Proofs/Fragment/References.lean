import EventSchema.Fragment.Followed
import EventSchema.Proofs.Fragment.Classification
import EventSchema.Reference

/-!
# Where references come from

The references of a value are those of its parts and the string under its own reference key
(`mem_referenceTexts_object`, `mem_referenceTexts_array`). A part that a pointer leads to holds no
others (`referenceTexts_lookup`), and neither does the fragment that a value is classified as:
whatever its expansion follows is a reference of the value (`followed_ofJson_subset`).
-/

set_option autoImplicit false

namespace EventSchema

namespace Json

/-! ### The texts of references do not depend on their places -/

mutual

theorem map_text_references (place other : Pointer) : ∀ value : Json,
    (value.references place).map PlacedReference.text =
      (value.references other).map PlacedReference.text
  | .object members => by
    rw [references, references]
    exact map_text_referencesOfMembers place other members
  | .array items => by
    rw [references, references]
    exact map_text_referencesOfItems place other 0 0 items
  | .null | .bool _ | .number _ | .string _ => rfl

theorem map_text_referencesOfMembers (place other : Pointer) :
    ∀ members : List (String × Json),
      (referencesOfMembers place members).map PlacedReference.text =
        (referencesOfMembers other members).map PlacedReference.text
  | [] => rfl
  | (key, .string text) :: rest => by
    have hrest := map_text_referencesOfMembers place other rest
    rw [referencesOfMembers, referencesOfMembers, List.map_append, List.map_append, hrest]
    split <;> rfl
  | (key, .object members) :: rest => by
    have hvalue := map_text_references (place.push key) (other.push key) (.object members)
    have hrest := map_text_referencesOfMembers place other rest
    simp only [referencesOfMembers, List.map_append, hvalue, hrest]
  | (key, .array items) :: rest => by
    have hvalue := map_text_references (place.push key) (other.push key) (.array items)
    have hrest := map_text_referencesOfMembers place other rest
    simp only [referencesOfMembers, List.map_append, hvalue, hrest]
  | (key, .null) :: rest | (key, .bool _) :: rest | (key, .number _) :: rest => by
    have hrest := map_text_referencesOfMembers place other rest
    simp only [referencesOfMembers, references, List.nil_append, hrest]

theorem map_text_referencesOfItems (place other : Pointer) (index index' : Nat) :
    ∀ items : List Json,
      (referencesOfItems place index items).map PlacedReference.text =
        (referencesOfItems other index' items).map PlacedReference.text
  | [] => rfl
  | item :: rest => by
    have hitem := map_text_references (place.pushIndex index) (other.pushIndex index') item
    have hrest := map_text_referencesOfItems place other (index + 1) (index' + 1) rest
    simp only [referencesOfItems, List.map_append, hitem, hrest]

end

theorem mem_referenceTexts_object {members : List (String × Json)} {text : String} :
    text ∈ (Json.object members).referenceTexts ↔
      ∃ entry ∈ members, entry = ("$ref", .string text) ∨ text ∈ entry.2.referenceTexts := by
  rw [referenceTexts, references]
  induction members with
  | nil => simp [referencesOfMembers]
  | cons entry rest ih =>
    obtain ⟨key, value⟩ := entry
    have hvalue : (value.references (Pointer.push ⟨[]⟩ key)).map PlacedReference.text =
        value.referenceTexts := map_text_references _ _ value
    simp only [List.mem_cons, exists_eq_or_imp, ← ih]
    cases value with
    | string other =>
      by_cases hkey : key = "$ref"
      · simp [referencesOfMembers, referenceTexts, references, hkey, eq_comm]
      · simp [referencesOfMembers, referenceTexts, references, hkey]
    | _ => simp [referencesOfMembers, ← hvalue]

theorem mem_referenceTexts_array {items : List Json} {text : String} :
    text ∈ (Json.array items).referenceTexts ↔ ∃ item ∈ items, text ∈ item.referenceTexts := by
  rw [referenceTexts, references]
  generalize 0 = index
  induction items generalizing index with
  | nil => simp [referencesOfItems]
  | cons item rest ih =>
    have hitem : (item.references (Pointer.pushIndex ⟨[]⟩ index)).map PlacedReference.text =
        item.referenceTexts := map_text_references _ _ item
    simp only [List.mem_cons, exists_eq_or_imp, ← ih (index + 1)]
    rw [referencesOfItems, List.map_append, List.mem_append, hitem]

end Json

/-- A pointer leads to a part, which has no references but those of the whole. -/
theorem Pointer.referenceTexts_lookup {pointer : Pointer} {root value : Json}
    (hlookup : pointer.lookup root = some value) :
    value.referenceTexts ⊆ root.referenceTexts := by
  have hstep {whole part : Json} {segment : String} (h : step whole segment = some part) :
      part.referenceTexts ⊆ whole.referenceTexts := by
    intro text htext
    cases whole with
    | object members =>
      exact Json.mem_referenceTexts_object.mpr ⟨_, Entries.mem_of_get? h, .inr htext⟩
    | array items =>
      obtain ⟨index, -, hitem⟩ := Option.bind_eq_some_iff.mp h
      exact Json.mem_referenceTexts_array.mpr ⟨part, List.mem_of_getElem? hitem, htext⟩
    | null | bool _ | number _ | string _ => exact absurd h (by simp [step])
  obtain ⟨segments⟩ := pointer
  induction segments generalizing root with
  | nil =>
    obtain rfl : root = value := by simpa [lookup] using hlookup
    exact List.Subset.refl _
  | cons segment rest ih =>
    rw [lookup, List.foldlM_cons] at hlookup
    obtain ⟨part, hpart, hrest⟩ := Option.bind_eq_some_iff.mp hlookup
    exact List.Subset.trans (ih hrest) (hstep hpart)

/-! ### What an expansion follows -/

theorem Fragment.followedInItems_eq_flatMap (items : List Fragment) :
    Fragment.followedInItems items = items.flatMap Fragment.followed := by
  induction items with
  | nil => rw [Fragment.followedInItems]; rfl
  | cons item rest ih => rw [Fragment.followedInItems, ih, List.flatMap_cons]

theorem Fragment.followedInMembers_eq_flatMap (members : List (String × Fragment)) :
    Fragment.followedInMembers members = members.flatMap fun entry ↦ entry.2.followed := by
  induction members with
  | nil => rw [Fragment.followedInMembers]; rfl
  | cons entry rest ih => rw [Fragment.followedInMembers, ih, List.flatMap_cons]

namespace Json

theorem followedInItems_eq_flatMap (items : List Json) :
    followedInItems items = items.flatMap followed := by
  induction items with
  | nil => rw [followedInItems]; rfl
  | cons item rest ih => rw [followedInItems, ih, List.flatMap_cons]

theorem followedInMembers_eq_flatMap (members : List (String × Json)) :
    followedInMembers members = members.flatMap fun entry ↦ entry.2.followed := by
  induction members with
  | nil => rw [followedInMembers]; rfl
  | cons entry rest ih => rw [followedInMembers, ih, List.flatMap_cons]

/-- All that an expansion follows in the value, whether classified first or not, is a reference of
the value. -/
def Covers (value : Json) : Prop :=
  (Fragment.ofJson value).followed ⊆ value.referenceTexts ∧ value.followed ⊆ value.referenceTexts

section Object

variable {members : Fields} (hparts : ∀ part : Json, part.weight < (object members).weight →
  part.Covers)

include hparts

theorem covers_of_mem {entry : String × Json} (hentry : entry ∈ members) : entry.2.Covers :=
  hparts _ (weight_lt_of_member hentry)

theorem followedInMembers_subset {some_members : List (String × Json)}
    (hsubset : some_members ⊆ members) :
    followedInMembers some_members ⊆ (object members).referenceTexts := by
  rw [followedInMembers_eq_flatMap]
  intro text htext
  obtain ⟨entry, hentry, htext⟩ := List.mem_flatMap.mp htext
  exact mem_referenceTexts_object.mpr
    ⟨entry, hsubset hentry, .inr ((covers_of_mem hparts (hsubset hentry)).2 htext)⟩

theorem followedInPart_subset (wanted : String) :
    Fragment.followedInPart (Fragment.partOf wanted members) ⊆
      (object members).referenceTexts := by
  rw [Fragment.partOf_eq]
  cases hget : Entries.get? members wanted with
  | none => simp [Fragment.followedInPart]
  | some value =>
    have hmem := Entries.mem_of_get? hget
    intro text htext
    rw [Option.map_some, Fragment.followedInPart] at htext
    exact mem_referenceTexts_object.mpr ⟨_, hmem, .inr ((covers_of_mem hparts hmem).1 htext)⟩

theorem followedInChoices_subset :
    followedInChoices (Fragment.choicesOf members) ⊆ (object members).referenceTexts := by
  cases hchoices : Fragment.choicesOf members with
  | none => simp [followedInChoices]
  | some choices =>
    intro text htext
    rw [followedInChoices, followedInItems_eq_flatMap] at htext
    obtain ⟨item, hitem, htext⟩ := List.mem_flatMap.mp htext
    have hmem := Fragment.exists_of_choicesOf hchoices
    have hcovers : item.Covers :=
      hparts item (Nat.lt_trans (weight_lt_of_item hitem) (weight_lt_of_member hmem))
    exact mem_referenceTexts_object.mpr
      ⟨_, hmem, .inr (mem_referenceTexts_array.mpr ⟨item, hitem, hcovers.2 htext⟩)⟩

theorem followed_membersOf_subset :
    Fragment.followedInItems (Fragment.membersOf members) ⊆ (object members).referenceTexts := by
  rw [Fragment.followedInItems_eq_flatMap]
  intro text htext
  obtain ⟨part, hpart, htext⟩ := List.mem_flatMap.mp htext
  obtain ⟨items, item, hmem, hitem, rfl⟩ := Fragment.exists_of_mem_membersOf hpart
  have hcovers : item.Covers :=
    hparts item (Nat.lt_trans (weight_lt_of_item hitem) (weight_lt_of_member hmem))
  exact mem_referenceTexts_object.mpr
    ⟨_, hmem, .inr (mem_referenceTexts_array.mpr ⟨item, hitem, hcovers.1 htext⟩)⟩

theorem followed_propertiesOf_subset :
    Fragment.followedInProperties (Fragment.propertiesOf members) ⊆
      (object members).referenceTexts := by
  cases hproperties : Fragment.propertiesOf members with
  | none => simp [Fragment.followedInProperties]
  | some properties =>
    intro text htext
    rw [Fragment.followedInProperties, Fragment.followedInMembers_eq_flatMap] at htext
    obtain ⟨⟨name, part⟩, hpart, htext⟩ := List.mem_flatMap.mp htext
    obtain ⟨entries, value, hmem, hvalue, rfl⟩ :=
      Fragment.exists_of_propertiesOf hproperties hpart
    have hcovers : value.Covers :=
      hparts value (Nat.lt_trans (weight_lt_of_member hvalue) (weight_lt_of_member hmem))
    exact mem_referenceTexts_object.mpr
      ⟨_, hmem, .inr (mem_referenceTexts_object.mpr ⟨_, hvalue, .inr (hcovers.1 htext)⟩)⟩

theorem followed_object_subset (hnode : isUnresolvedNode members = false) :
    (object members).followed ⊆ (object members).referenceTexts := by
  rw [followed, dif_neg (by simp [hnode])]
  exact followedInMembers_subset hparts (List.Subset.refl _)

theorem followed_ofJson_object_subset :
    (Fragment.ofJson (object members)).followed ⊆ (object members).referenceTexts := by
  have hfilter (kept : String × Json → Bool) : followedInMembers (members.filter kept) ⊆
      (object members).referenceTexts :=
    followedInMembers_subset hparts (List.filter_sublist.subset)
  rw [Fragment.ofJson]
  cases hshape : Fragment.shape members with
  | reference target =>
    intro text htext
    obtain rfl : text = target := by simpa [Fragment.followed] using htext
    have hget : Entries.get? members "$ref" = some (.string text) := Fragment.get?_of_shape hshape
    exact mem_referenceTexts_object.mpr ⟨_, Entries.mem_of_get? hget, .inl rfl⟩
  | composition =>
    rw [Fragment.followed]
    exact followed_membersOf_subset hparts
  | object =>
    rw [Fragment.followed]
    refine List.append_subset.mpr ⟨List.append_subset.mpr ⟨?_, ?_⟩, hfilter _⟩
    · exact followed_propertiesOf_subset hparts
    · exact followedInPart_subset hparts _
  | array =>
    rw [Fragment.followed]
    exact List.append_subset.mpr ⟨followedInPart_subset hparts _, hfilter _⟩
  | primitive kind =>
    rw [Fragment.followed]
    exact List.append_subset.mpr ⟨followedInChoices_subset hparts, hfilter _⟩
  | any =>
    rw [Fragment.followed]
    exact followed_object_subset hparts (Fragment.isUnresolvedNode_of_shape hshape)

end Object

theorem covers (value : Json) : value.Covers := by
  induction hweight : value.weight using Nat.strongRecOn generalizing value with
  | _ weight ih =>
    have hparts (part : Json) (hlt : part.weight < value.weight) : part.Covers :=
      ih _ (hweight ▸ hlt) part rfl
    cases value with
    | object members =>
      have hofJson := followed_ofJson_object_subset hparts
      refine ⟨hofJson, ?_⟩
      cases hnode : isUnresolvedNode members with
      | false => exact followed_object_subset hparts hnode
      | true =>
        rw [followed, dif_pos hnode]
        exact hofJson
    | array items =>
      have hitems : (array items).followed ⊆ (array items).referenceTexts := by
        rw [followed, followedInItems_eq_flatMap]
        intro text htext
        obtain ⟨item, hitem, htext⟩ := List.mem_flatMap.mp htext
        have hcovers := hparts item (weight_lt_of_item hitem)
        exact mem_referenceTexts_array.mpr ⟨item, hitem, hcovers.2 htext⟩
      refine ⟨?_, hitems⟩
      rw [Fragment.ofJson, Fragment.followed]
      · exact hitems
      · simp
    | null | bool _ | number _ | string _ =>
      constructor <;> simp [Fragment.ofJson, Fragment.followed, followed]

/-- The references that the expansion of a classified value follows are references of the value. -/
theorem followed_ofJson_subset (value : Json) :
    (Fragment.ofJson value).followed ⊆ value.referenceTexts := value.covers.1

end Json

end EventSchema
