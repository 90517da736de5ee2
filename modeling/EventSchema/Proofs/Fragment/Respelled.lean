import EventSchema.Proofs.Fragment.Classification
import EventSchema.Proofs.Fragment.Coupling
import EventSchema.Proofs.Json.Respelled
import EventSchema.Proofs.Json.Views

/-!
# Walking respelled values

Respelling references changes neither what a value is classified as, up to the texts of the
references, nor what else is walked. So whatever couples the ways in which the references are
followed, before and after, couples the expansions (`walks_of_respelled`).
-/

set_option autoImplicit false

namespace EventSchema

/-- The second fragment is the first one, or both are classified from values of which the second is
the first one respelled. -/
inductive Fragment.Respelled (name : String) : Fragment → Fragment → Prop
  | same (fragment : Fragment) : Respelled name fragment fragment
  | ofJson {value value' : Json} (hvalue : value.Respelled name value') :
    Respelled name (.ofJson value) (.ofJson value')

/-! ### Classifying respelled values -/

section Classified

variable {name : String} {keys : List String} {members members' : Fields}

theorem asString?_of_aligned
    (haligned : Entries.Aligned (Json.Respelled name) keys members members') (key : String) :
    (Entries.get? members' key).bind Json.asString? =
      (Entries.get? members key).bind Json.asString? :=
  bind_eq_of_rel (haligned.get? key) fun _ _ hvalue ↦ hvalue.asString?

theorem isSome_allOf_of_aligned
    (haligned : Entries.Aligned (Json.Respelled name) keys members members') :
    ((Entries.get? members' "allOf").bind Json.asArray?).isSome =
      ((Entries.get? members "allOf").bind Json.asArray?).isSome :=
  isSome_eq_of_rel (rel_bind (haligned.get? "allOf") fun _ _ hvalue ↦ hvalue.asArray?)

theorem shape_of_aligned (haligned : Entries.Aligned (Json.Respelled name) keys members members') :
    Fragment.shape members' = Fragment.shape members := by
  unfold Fragment.shape
  rw [asString?_of_aligned haligned, asString?_of_aligned haligned,
    isSome_allOf_of_aligned haligned]

theorem isUnresolvedNode_of_aligned
    (haligned : Entries.Aligned (Json.Respelled name) keys members members') :
    Json.isUnresolvedNode members' = Json.isUnresolvedNode members := by
  rw [Json.isUnresolvedNode, Json.isUnresolvedNode, asString?_of_aligned haligned,
    isSome_allOf_of_aligned haligned]

/-- An object is a reference if the first entry under `$ref` is a string. -/
theorem get?_reference {before : Fields} (text : String) (after : Fields)
    (hfirst : "$ref" ∉ Entries.keys before) :
    Entries.get? (before ++ ("$ref", .string text) :: after) "$ref" = some (.string text) := by
  rw [Entries.get?_append, Entries.get?_eq_none_iff.mpr hfirst]
  rfl

theorem ofJson_of_get? {text : String}
    (hget : Entries.get? members "$ref" = some (.string text)) :
    Fragment.ofJson (.object members) = .reference text ∧
      Json.isUnresolvedNode members = true := by
  refine ⟨Fragment.ofJson_eq_reference_iff.mpr ?_, ?_⟩
  · rw [Json.reference?, Json.get?, hget]
    rfl
  · rw [Json.isUnresolvedNode, hget]
    rfl

end Classified

/-! ### Expanding respelled values -/

section Expand

variable {m n : Type → Type} [Monad m] [Monad n] (c : Coupling m n) (name : String)
  (follow : String → m Fragment) (follow' : String → n Fragment)

/-- The ways to follow the references are coupled, however each of them is respelled. -/
def Coupling.Follows (texts : List String) : Prop :=
  ∀ text ∈ texts, ∀ text', Reference.Respelled name text text' →
    c.Holds (follow text) (follow' text')

/-- The expansions of the second value are coupled with those of the first one, as plain JSON and
as what the values are classified as. -/
def Coupling.Walks (value value' : Json) : Prop :=
  (c.Follows name follow follow' value.followed →
      c.Holds (value.expand follow) (value'.expand follow')) ∧
    (c.Follows name follow follow' (Fragment.ofJson value).followed →
      c.Holds ((Fragment.ofJson value).expand follow) ((Fragment.ofJson value').expand follow'))

variable {c name follow follow'}

theorem Coupling.follows_append {texts more : List String} :
    c.Follows name follow follow' (texts ++ more) ↔
      c.Follows name follow follow' texts ∧ c.Follows name follow follow' more :=
  List.forall_mem_append

theorem Coupling.holds_map {α β : Type} {x : m α} {y : n α} (change : α → β)
    (hfirst : c.Holds x y) : c.Holds (x >>= fun value ↦ pure (change value))
      (y >>= fun value ↦ pure (change value)) :=
  c.holds_bind hfirst fun value ↦ c.holds_pure (change value)

theorem holds_expandMembers {keys : List String} {members members' : Fields}
    (haligned : Entries.Aligned (c.Walks name follow follow') keys members members')
    (hfollows : c.Follows name follow follow' (Json.followedInMembers members)) :
    c.Holds (Json.expandMembers follow members) (Json.expandMembers follow' members') := by
  induction haligned with
  | nil =>
    rw [Json.expandMembers, Json.expandMembers]
    exact c.holds_pure _
  | cons key hfirst _ ih =>
    rw [Json.followedInMembers, Coupling.follows_append] at hfollows
    rw [Json.expandMembers, Json.expandMembers]
    refine c.holds_bind (hfirst.1 hfollows.1) fun _ ↦ ?_
    exact c.holds_map _ (ih hfollows.2)

theorem holds_expandItems {items items' : List Json}
    (hitems : List.Forall₂ (c.Walks name follow follow') items items')
    (hfollows : c.Follows name follow follow' (Json.followedInItems items)) :
    c.Holds (Json.expandItems follow items) (Json.expandItems follow' items') := by
  induction hitems with
  | nil =>
    rw [Json.expandItems, Json.expandItems]
    exact c.holds_pure _
  | cons hfirst _ ih =>
    rw [Json.followedInItems, Coupling.follows_append] at hfollows
    rw [Json.expandItems, Json.expandItems]
    refine c.holds_bind (hfirst.1 hfollows.1) fun _ ↦ ?_
    exact c.holds_map _ (ih hfollows.2)

theorem holds_expandFragments {items items' : List Json}
    (hitems : List.Forall₂ (c.Walks name follow follow') items items')
    (hfollows : c.Follows name follow follow' (Fragment.followedInItems (Fragment.ofItems items))) :
    c.Holds (Fragment.expandItems follow (Fragment.ofItems items))
      (Fragment.expandItems follow' (Fragment.ofItems items')) := by
  induction hitems with
  | nil =>
    rw [Fragment.ofItems, Fragment.expandItems, Fragment.expandItems]
    exact c.holds_pure _
  | cons hfirst _ ih =>
    rw [Fragment.ofItems, Fragment.followedInItems, Coupling.follows_append] at hfollows
    rw [Fragment.ofItems, Fragment.ofItems, Fragment.expandItems, Fragment.expandItems]
    refine c.holds_bind (hfirst.2 hfollows.1) fun _ ↦ ?_
    exact c.holds_map _ (ih hfollows.2)

theorem holds_expandDeclared {keys : List String} {declared declared' : Fields}
    (haligned : Entries.Aligned (c.Walks name follow follow') keys declared declared')
    (hfollows : c.Follows name follow follow'
      (Fragment.followedInMembers (Fragment.ofMembers declared))) :
    c.Holds (Fragment.expandMembers follow (Fragment.ofMembers declared))
      (Fragment.expandMembers follow' (Fragment.ofMembers declared')) := by
  induction haligned with
  | nil =>
    rw [Fragment.ofMembers, Fragment.expandMembers, Fragment.expandMembers]
    exact c.holds_pure _
  | cons key hfirst _ ih =>
    rw [Fragment.ofMembers, Fragment.followedInMembers, Coupling.follows_append] at hfollows
    rw [Fragment.ofMembers, Fragment.ofMembers, Fragment.expandMembers, Fragment.expandMembers]
    refine c.holds_bind (hfirst.2 hfollows.1) fun _ ↦ ?_
    exact c.holds_map _ (ih hfollows.2)

theorem holds_expandPart {part part' : Option Json}
    (hpart : Option.Rel (c.Walks name follow follow') part part')
    (hfollows : c.Follows name follow follow'
      (Fragment.followedInPart (part.map Fragment.ofJson))) :
    c.Holds (Fragment.expandPart follow (part.map Fragment.ofJson))
      (Fragment.expandPart follow' (part'.map Fragment.ofJson)) := by
  cases hpart with
  | none =>
    rw [Option.map_none, Fragment.expandPart, Fragment.expandPart]
    exact c.holds_pure _
  | some hpart =>
    rw [Option.map_some, Fragment.followedInPart] at hfollows
    rw [Option.map_some, Option.map_some, Fragment.expandPart, Fragment.expandPart]
    exact c.holds_map _ (hpart.2 hfollows)

theorem walks_same (value : Json) : c.Walks name follow follow' value value := by
  refine ⟨fun hfollows ↦ ?_, fun hfollows ↦ ?_⟩
  · exact TracedCoupling.expandJson
      { Holds := fun _ ↦ c.Holds, holds_pure := c.holds_pure, holds_bind := c.holds_bind } value
      fun text hmem ↦ hfollows text hmem text (.same text)
  · exact c.expand (Fragment.ofJson value) fun text hmem ↦ hfollows text hmem text (.same text)

/-- What no object is classified from is walked as plain JSON. -/
theorem walks_of_any {value value' : Json} (hvalue : Fragment.ofJson value = .any value)
    (hvalue' : Fragment.ofJson value' = .any value')
    (hplain : c.Follows name follow follow' value.followed →
      c.Holds (value.expand follow) (value'.expand follow')) :
    c.Walks name follow follow' value value' := by
  refine ⟨hplain, fun hfollows ↦ ?_⟩
  rw [hvalue, Fragment.followed] at hfollows
  rw [hvalue, hvalue', Fragment.expand, Fragment.expand]
  exact c.holds_map _ (hplain hfollows)

/-- What is a reference or a composition is walked as the fragment that it is classified as. -/
theorem walks_of_node {members members' : Fields} (hnode : Json.isUnresolvedNode members = true)
    (hnode' : Json.isUnresolvedNode members' = true)
    (htyped : c.Follows name follow follow' (Fragment.ofJson (.object members)).followed →
      c.Holds ((Fragment.ofJson (.object members)).expand follow)
        ((Fragment.ofJson (.object members')).expand follow')) :
    c.Walks name follow follow' (.object members) (.object members') := by
  refine ⟨fun hfollows ↦ ?_, htyped⟩
  rw [Json.followed, dif_pos hnode] at hfollows
  rw [Json.expand, Json.expand, dif_pos hnode, dif_pos hnode']
  exact c.holds_map _ (htyped hfollows)

/-- What is a reference before and after is walked as the reference. -/
theorem walks_of_reference {members members' : Fields} {text text' : String}
    (hget : Entries.get? members "$ref" = some (.string text))
    (hget' : Entries.get? members' "$ref" = some (.string text'))
    (hrespelled : Reference.Respelled name text text') :
    c.Walks name follow follow' (.object members) (.object members') := by
  obtain ⟨hvalue, hnode⟩ := ofJson_of_get? hget
  obtain ⟨hvalue', hnode'⟩ := ofJson_of_get? hget'
  refine walks_of_node hnode hnode' fun hfollows ↦ ?_
  rw [hvalue, Fragment.followed] at hfollows
  rw [hvalue, hvalue', Fragment.expand, Fragment.expand]
  exact hfollows text List.mem_cons_self text' hrespelled

theorem fragmentsIn_of_isObject {value : Json} (hplain : value.isObject = false) :
    Fragment.fragmentsIn value = none := by
  cases value with
  | object members => cases hplain
  | _ => rfl

theorem membersOf_eq_ofItems (members : Fields) : Fragment.membersOf members =
    Fragment.ofItems (((Entries.get? members "allOf").bind Json.asArray?).getD []) := by
  rw [Fragment.membersOf_eq]
  cases Entries.get? members "allOf" with
  | none => rfl
  | some value => cases value <;> rfl

section Typed

variable {keys : List String} {members members' : Fields}
  (hmembers : Entries.Aligned (Json.Respelled name) keys members members')
  (hparts : ∀ key part part', (key, part) ∈ members → part.Respelled name part' →
    c.Walks name follow follow' part part')

include hmembers hparts

/-- The annotations are the members that a test on keys and kinds of values leaves over. -/
theorem holds_expandKept {isKeyword : String × Json → Bool}
    (hkeyword : ∀ key part part', part.Respelled name part' →
      isKeyword (key, part) = isKeyword (key, part'))
    (hfollows : c.Follows name follow follow'
      (Json.followedInMembers (members.filter fun entry ↦ !isKeyword entry))) :
    c.Holds (Json.expandMembers follow (members.filter fun entry ↦ !isKeyword entry))
      (Json.expandMembers follow' (members'.filter fun entry ↦ !isKeyword entry)) := by
  obtain ⟨kept, hkept⟩ : ∃ kept, Entries.Aligned (Json.Respelled name) kept
      (members.filter fun entry ↦ !isKeyword entry)
      (members'.filter fun entry ↦ !isKeyword entry) :=
    hmembers.filter fun key part part' hpart ↦ congrArg _ (hkeyword key part part' hpart)
  refine holds_expandMembers (hkept.imp fun key part part' hmem ↦ ?_) hfollows
  exact hparts key part part' (List.mem_of_mem_filter hmem)

/-- A part is what a key leads to. -/
theorem holds_expandPartOf (key : String)
    (hfollows : c.Follows name follow follow'
      (Fragment.followedInPart (Fragment.partOf key members))) :
    c.Holds (Fragment.expandPart follow (Fragment.partOf key members))
      (Fragment.expandPart follow' (Fragment.partOf key members')) := by
  rw [Fragment.partOf_eq] at hfollows
  rw [Fragment.partOf_eq, Fragment.partOf_eq]
  refine holds_expandPart ?_ hfollows
  have hrel := hmembers.get? key
  generalize hget : Entries.get? members key = part at hrel ⊢
  generalize Entries.get? members' key = part' at hrel ⊢
  cases hrel with
  | none => exact .none
  | some hpart => exact .some (hparts key _ _ (Entries.mem_of_get? hget) hpart)

omit hparts in
theorem holds_expandPropertiesOf
    (hdeclared : ∀ declared declared', Entries.get? members "properties" = some (.object declared) →
      Entries.get? members' "properties" = some (.object declared') →
      Entries.Aligned (c.Walks name follow follow') (Entries.keys declared) declared declared')
    (hfollows : c.Follows name follow follow'
      (Fragment.followedInProperties (Fragment.propertiesOf members))) :
    c.Holds (Fragment.expandProperties follow (Fragment.propertiesOf members))
      (Fragment.expandProperties follow' (Fragment.propertiesOf members')) := by
  have hnone : c.Holds (Fragment.expandProperties follow none)
      (Fragment.expandProperties follow' none) := by
    rw [Fragment.expandProperties, Fragment.expandProperties]
    exact c.holds_pure _
  have hrel := hmembers.get? "properties"
  rw [Fragment.propertiesOf_eq] at hfollows
  rw [Fragment.propertiesOf_eq, Fragment.propertiesOf_eq]
  generalize Entries.get? members "properties" = value? at hdeclared hfollows hrel
  generalize Entries.get? members' "properties" = value?' at hdeclared hrel
  cases hrel with
  | none => exact hnone
  | some hvalue =>
    rcases hvalue.object_or with ⟨declared, declared', rfl, rfl⟩ | ⟨hplain, hplain'⟩
    · rw [Option.bind_some, Fragment.fragmentsIn, Fragment.followedInProperties] at hfollows
      rw [Option.bind_some, Option.bind_some, Fragment.fragmentsIn, Fragment.fragmentsIn,
        Fragment.expandProperties, Fragment.expandProperties]
      exact c.holds_map _ (holds_expandDeclared (hdeclared _ _ rfl rfl) hfollows)
    · rw [Option.bind_some, Option.bind_some, fragmentsIn_of_isObject hplain,
        fragmentsIn_of_isObject hplain']
      exact hnone

theorem holds_expandObject
    (hdeclared : ∀ declared declared', Entries.get? members "properties" = some (.object declared) →
      Entries.get? members' "properties" = some (.object declared') →
      Entries.Aligned (c.Walks name follow follow') (Entries.keys declared) declared declared')
    (hshape : Fragment.shape members = .object)
    (hfollows : c.Follows name follow follow' (Fragment.ofJson (.object members)).followed) :
    c.Holds ((Fragment.ofJson (.object members)).expand follow)
      ((Fragment.ofJson (.object members')).expand follow') := by
  have hrequired : Fragment.requiredOf members' = Fragment.requiredOf members :=
    bind_eq_of_rel (hmembers.get? "required") fun _ _ hnames ↦ hnames.asStrings?
  have hkeyword (key : String) (part part' : Json) (hpart : part.Respelled name part') :
      Fragment.isObjectKeyword (key, part) = Fragment.isObjectKeyword (key, part') := by
    rw [Fragment.isObjectKeyword, Fragment.isObjectKeyword, hpart.isObject, hpart.asStrings?]
  have hshape' := (shape_of_aligned hmembers).trans hshape
  rw [Fragment.ofJson, hshape] at hfollows
  simp only [Fragment.followed, Coupling.follows_append] at hfollows
  obtain ⟨⟨hproperties, hadditional⟩, hkept⟩ := hfollows
  rw [Fragment.ofJson, Fragment.ofJson, hshape, hshape']
  simp only [Fragment.expand, hrequired]
  refine c.holds_bind (holds_expandPropertiesOf hmembers hdeclared hproperties) fun _ ↦ ?_
  refine c.holds_bind (holds_expandPartOf hmembers hparts _ hadditional) fun _ ↦ ?_
  exact c.holds_map _ (holds_expandKept hmembers hparts hkeyword hkept)

theorem holds_expandArray (hshape : Fragment.shape members = .array)
    (hfollows : c.Follows name follow follow' (Fragment.ofJson (.object members)).followed) :
    c.Holds ((Fragment.ofJson (.object members)).expand follow)
      ((Fragment.ofJson (.object members')).expand follow') := by
  have hshape' := (shape_of_aligned hmembers).trans hshape
  rw [Fragment.ofJson, hshape] at hfollows
  simp only [Fragment.followed, Coupling.follows_append] at hfollows
  rw [Fragment.ofJson, Fragment.ofJson, hshape, hshape']
  simp only [Fragment.expand]
  refine c.holds_bind (holds_expandPartOf hmembers hparts _ hfollows.1) fun _ ↦ ?_
  exact c.holds_map _ (holds_expandKept hmembers hparts (fun _ _ _ _ ↦ rfl) hfollows.2)

theorem holds_expandPrimitive {kind : PrimitiveKind}
    (hchoices : Option.Rel (List.Forall₂ (c.Walks name follow follow'))
      (Fragment.choicesOf members) (Fragment.choicesOf members'))
    (hshape : Fragment.shape members = .primitive kind)
    (hfollows : c.Follows name follow follow' (Fragment.ofJson (.object members)).followed) :
    c.Holds ((Fragment.ofJson (.object members)).expand follow)
      ((Fragment.ofJson (.object members')).expand follow') := by
  have hkeyword (key : String) (part part' : Json) (hpart : part.Respelled name part') :
      Fragment.isPrimitiveKeyword (key, part) = Fragment.isPrimitiveKeyword (key, part') := by
    rw [Fragment.isPrimitiveKeyword, Fragment.isPrimitiveKeyword, isSome_eq_of_rel hpart.asArray?]
  have hshape' := (shape_of_aligned hmembers).trans hshape
  rw [Fragment.ofJson, hshape] at hfollows
  simp only [Fragment.followed, Coupling.follows_append] at hfollows
  obtain ⟨hitems, hkept⟩ := hfollows
  rw [Fragment.ofJson, Fragment.ofJson, hshape, hshape']
  simp only [Fragment.expand]
  refine c.holds_bind ?_ fun _ ↦ c.holds_map _ (holds_expandKept hmembers hparts hkeyword hkept)
  generalize Fragment.choicesOf members = choices at hchoices hitems ⊢
  generalize Fragment.choicesOf members' = choices' at hchoices ⊢
  cases hchoices with
  | none =>
    rw [Json.expandChoices, Json.expandChoices]
    exact c.holds_pure _
  | some hchoices =>
    rw [Json.followedInChoices] at hitems
    rw [Json.expandChoices, Json.expandChoices]
    exact c.holds_map _ (holds_expandItems hchoices hitems)

omit hparts in
theorem holds_expandComposition
    (hitems : Option.Rel (List.Forall₂ (c.Walks name follow follow'))
      ((Entries.get? members "allOf").bind Json.asArray?)
      ((Entries.get? members' "allOf").bind Json.asArray?))
    (hshape : Fragment.shape members = .composition)
    (hfollows : c.Follows name follow follow' (Fragment.ofJson (.object members)).followed) :
    c.Holds ((Fragment.ofJson (.object members)).expand follow)
      ((Fragment.ofJson (.object members')).expand follow') := by
  have hshape' := (shape_of_aligned hmembers).trans hshape
  rw [Fragment.ofJson, hshape] at hfollows
  simp only [Fragment.followed, membersOf_eq_ofItems] at hfollows
  rw [Fragment.ofJson, Fragment.ofJson, hshape, hshape']
  simp only [Fragment.expand, membersOf_eq_ofItems]
  refine c.holds_map _ (holds_expandFragments ?_ hfollows)
  generalize (Entries.get? members "allOf").bind Json.asArray? = items at hitems ⊢
  generalize (Entries.get? members' "allOf").bind Json.asArray? = items' at hitems ⊢
  cases hitems with
  | none => exact .nil
  | some hitems => exact hitems

theorem holds_expandPlain (hplain : Json.isUnresolvedNode members = false)
    (hfollows : c.Follows name follow follow' (Json.object members).followed) :
    c.Holds ((Json.object members).expand follow) ((Json.object members').expand follow') := by
  have hplain' := (isUnresolvedNode_of_aligned hmembers).trans hplain
  rw [Json.followed, dif_neg (by simp [hplain])] at hfollows
  rw [Json.expand, Json.expand, dif_neg (by simp [hplain]), dif_neg (by simp [hplain'])]
  exact c.holds_map _ (holds_expandMembers (hmembers.imp hparts) hfollows)

/-- What is neither a reference nor a composition is walked member by member. -/
theorem walks_of_plain (hshape : (Fragment.shape members).isNode = false)
    (htyped : c.Follows name follow follow' (Fragment.ofJson (.object members)).followed →
      c.Holds ((Fragment.ofJson (.object members)).expand follow)
        ((Fragment.ofJson (.object members')).expand follow')) :
    c.Walks name follow follow' (.object members) (.object members') :=
  ⟨holds_expandPlain hmembers hparts ((Fragment.isUnresolvedNode_eq members).trans hshape), htyped⟩

omit hparts in
/-- The arrays that a key leads to are walked item by item. -/
theorem rel_items {key : String}
    (hitems : ∀ items items', Entries.get? members key = some (.array items) →
      List.Forall₂ (Json.Respelled name) items items' →
        List.Forall₂ (c.Walks name follow follow') items items') :
    Option.Rel (List.Forall₂ (c.Walks name follow follow'))
      ((Entries.get? members key).bind Json.asArray?)
      ((Entries.get? members' key).bind Json.asArray?) := by
  have hrel := hmembers.get? key
  generalize Entries.get? members key = value? at hitems hrel ⊢
  generalize Entries.get? members' key = value?' at hrel ⊢
  cases hrel with
  | none => exact .none
  | @some value value' hvalue =>
    have harrays := hvalue.asArray?
    rw [Option.bind_some, Option.bind_some]
    generalize harray : value.asArray? = items at harrays ⊢
    generalize value'.asArray? = items' at harrays ⊢
    cases harrays with
    | none => exact .none
    | some hrespelled =>
      exact .some (hitems _ _ (congrArg some (Json.asArray?_eq_some_iff.mp harray)) hrespelled)

/-- Objects whose members are walked alike are walked alike, as their shape says. -/
theorem walks_of_aligned
    (hitems : ∀ key items items', Entries.get? members key = some (.array items) →
      List.Forall₂ (Json.Respelled name) items items' →
        List.Forall₂ (c.Walks name follow follow') items items')
    (hdeclared : ∀ declared declared', Fragment.shape members = .object →
      Entries.get? members "properties" = some (.object declared) →
      Entries.get? members' "properties" = some (.object declared') →
      Entries.Aligned (c.Walks name follow follow') (Entries.keys declared) declared declared') :
    c.Walks name follow follow' (.object members) (.object members') := by
  have hnode := isUnresolvedNode_of_aligned hmembers
  have hshape' := shape_of_aligned hmembers
  cases hshape : Fragment.shape members with
  | reference text =>
    rw [hshape] at hshape'
    exact walks_of_reference (Fragment.get?_of_shape hshape) (Fragment.get?_of_shape hshape')
      (.same text)
  | composition =>
    have hcomposition := Fragment.isUnresolvedNode_of_composition hshape
    exact walks_of_node hcomposition (hnode.trans hcomposition)
      (holds_expandComposition hmembers (rel_items hmembers (hitems "allOf")) hshape)
  | object =>
    exact walks_of_plain hmembers hparts (by rw [hshape]; rfl)
      (holds_expandObject hmembers hparts (fun declared declared' ↦
        hdeclared declared declared' hshape) hshape)
  | array =>
    exact walks_of_plain hmembers hparts (by rw [hshape]; rfl)
      (holds_expandArray hmembers hparts hshape)
  | primitive kind =>
    exact walks_of_plain hmembers hparts (by rw [hshape]; rfl)
      (holds_expandPrimitive hmembers hparts (rel_items hmembers (hitems "enum")) hshape)
  | any =>
    refine walks_of_plain hmembers hparts (by rw [hshape]; rfl) fun hfollows ↦ ?_
    have hplain := Fragment.isUnresolvedNode_of_shape hshape
    rw [Fragment.ofJson, hshape] at hfollows
    simp only [Fragment.followed] at hfollows
    rw [Fragment.ofJson, Fragment.ofJson, hshape', hshape]
    simp only [Fragment.expand]
    exact c.holds_map _ (holds_expandPlain hmembers hparts hplain hfollows)

end Typed

/-- Respelling references changes nothing else of what is walked. The induction is on the weight of
the value, since the parts of a typed object are classified values from deep inside it. -/
theorem walks_of_respelled {value value' : Json} (hrespelled : value.Respelled name value') :
    c.Walks name follow follow' value value' := by
  induction hweight : value.weight using Nat.strongRecOn generalizing value value' with
  | ind weight ih =>
    have hitem {items items' : List Json} (hless : (Json.array items).weight ≤ weight)
        (hitems : List.Forall₂ (Json.Respelled name) items items') :
        List.Forall₂ (c.Walks name follow follow') items items' := by
      have hweights : ∀ item ∈ items, item.weight < weight := fun item hmem ↦
        Nat.lt_of_lt_of_le (Json.weight_lt_of_item hmem) hless
      have hboth := (List.forall₂_and_left items items').mpr ⟨hweights, hitems⟩
      exact hboth.imp fun item item' hitem ↦ ih item.weight hitem.1 hitem.2 rfl
    cases hrespelled with
    | same => exact walks_same value
    | @array items items' hitems =>
      refine walks_of_any (Fragment.ofJson.eq_2 _ (by simp)) (Fragment.ofJson.eq_2 _ (by simp)) ?_
      intro hfollows
      rw [Json.followed] at hfollows
      rw [Json.expand, Json.expand]
      exact c.holds_map _ (holds_expandItems (hitem (Nat.le_of_eq hweight) hitems) hfollows)
    | @object keys members members' hmembers hdeclared =>
      have hless {key : String} {part : Json} (hget : Entries.get? members key = some part) :
          part.weight < weight :=
        hweight ▸ Json.weight_lt_of_member (Entries.mem_of_get? hget)
      refine walks_of_aligned hmembers (fun key part part' hmem hpart ↦ ?_)
        (fun key items items' hget ↦ hitem (Nat.le_of_lt (hless hget)))
        fun declared declared' hshape hget hget' ↦ ?_
      · exact ih part.weight (hweight ▸ Json.weight_lt_of_member hmem) hpart rfl
      · refine (hdeclared declared declared' hshape hget hget').imp fun key part part' hmem ↦ ?_
        have hlight := Nat.lt_trans (Json.weight_lt_of_member hmem) (hless hget)
        exact fun hpart ↦ ih part.weight hlight hpart rfl
    | @reference keys keys' before before' after after' text text' hbefore hfirst htext hafter =>
      obtain ⟨hkeys, hkeys'⟩ := hbefore.keys_eq
      exact walks_of_reference (get?_reference text after (hkeys ▸ hfirst))
        (get?_reference text' after' (hkeys' ▸ hfirst)) htext

end Expand

end EventSchema
