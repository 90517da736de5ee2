import EventSchema.Proofs.Fragment.Coupling
import EventSchema.Proofs.Resolver.Follow

/-!
# What references mean

A fragment expands to another if there is a finite derivation of it: a reference expands to what its
target expands to in the document of that target, one to nothing to the schema that is not there,
a composition to the merge of what its members expand to, and every other node to the same node
around what its children expand to (`Expands`). No chain of places is kept and no document is
cached. The derivations are the answers of a search that follows references to a given depth
(`unfoldWithin`, `expands_iff_exists_unfoldWithin`).
-/

set_option autoImplicit false

namespace EventSchema

mutual

/-- The fragment of the document `root` at `current` expands to the second fragment. -/
inductive Expands (library : Library) : Json → Path → Fragment → Fragment → Prop
  | any {root : Json} {current : Path} {value value' : Json}
    (hvalue : ExpandsJson library root current value value') :
    Expands library root current (.any value) (.any value')
  | primitive {root : Json} {current : Path} {kind : PrimitiveKind}
    {choices choices' : Option (List Json)} {annotations annotations' : Fields}
    (hchoices : ExpandsChoices library root current choices choices')
    (hannotations : ExpandsFields library root current annotations annotations') :
    Expands library root current (.primitive kind choices annotations)
      (.primitive kind choices' annotations')
  | array {root : Json} {current : Path} {items items' : Option Fragment}
    {annotations annotations' : Fields} (hitems : ExpandsPart library root current items items')
    (hannotations : ExpandsFields library root current annotations annotations') :
    Expands library root current (.array items annotations) (.array items' annotations')
  | object {root : Json} {current : Path} {properties properties' : Option Properties}
    {required : Option (List String)} {additional additional' : Option Fragment}
    {annotations annotations' : Fields}
    (hproperties : ExpandsProperties library root current properties properties')
    (hadditional : ExpandsPart library root current additional additional')
    (hannotations : ExpandsFields library root current annotations annotations') :
    Expands library root current (.object properties required additional annotations)
      (.object properties' required additional' annotations')
  | dangling {root : Json} {current : Path} {text : String} {reference : Reference}
    (hparse : Reference.parse? text = some reference)
    (hfind : reference.find? library root current = .ok none) :
    Expands library root current (.reference text) .absent
  | reference {root : Json} {current : Path} {text : String} {reference : Reference}
    {found : Target} {result : Fragment} (hparse : Reference.parse? text = some reference)
    (hfind : reference.find? library root current = .ok (some found))
    (htarget : Expands library found.document found.path (.ofJson found.value) result) :
    Expands library root current (.reference text) result
  | composition {root : Json} {current : Path} {members members' : List Fragment}
    (hmembers : ExpandsItems library root current members members') :
    Expands library root current (.composition members) (.mergeAllOf members')

inductive ExpandsPart (library : Library) :
    Json → Path → Option Fragment → Option Fragment → Prop
  | none {root : Json} {current : Path} : ExpandsPart library root current none none
  | some {root : Json} {current : Path} {fragment fragment' : Fragment}
    (hfragment : Expands library root current fragment fragment') :
    ExpandsPart library root current (some fragment) (some fragment')

inductive ExpandsProperties (library : Library) :
    Json → Path → Option Properties → Option Properties → Prop
  | none {root : Json} {current : Path} : ExpandsProperties library root current none none
  | some {root : Json} {current : Path} {properties properties' : Properties}
    (hproperties : ExpandsMembers library root current properties properties') :
    ExpandsProperties library root current (some properties) (some properties')

inductive ExpandsItems (library : Library) :
    Json → Path → List Fragment → List Fragment → Prop
  | nil {root : Json} {current : Path} : ExpandsItems library root current [] []
  | cons {root : Json} {current : Path} {fragment fragment' : Fragment}
    {rest rest' : List Fragment} (hfragment : Expands library root current fragment fragment')
    (hrest : ExpandsItems library root current rest rest') :
    ExpandsItems library root current (fragment :: rest) (fragment' :: rest')

inductive ExpandsMembers (library : Library) : Json → Path → Properties → Properties → Prop
  | nil {root : Json} {current : Path} : ExpandsMembers library root current [] []
  | cons {root : Json} {current : Path} {name : String} {fragment fragment' : Fragment}
    {rest rest' : Properties} (hfragment : Expands library root current fragment fragment')
    (hrest : ExpandsMembers library root current rest rest') :
    ExpandsMembers library root current ((name, fragment) :: rest) ((name, fragment') :: rest')

/-- Inside plain JSON only a reference or a composition is a fragment. -/
inductive ExpandsJson (library : Library) : Json → Path → Json → Json → Prop
  | node {root : Json} {current : Path} {members : Fields} {result : Fragment}
    (hnode : Json.isUnresolvedNode members = true)
    (hfragment : Expands library root current (.ofJson (.object members)) result) :
    ExpandsJson library root current (.object members) result.toJson
  | object {root : Json} {current : Path} {members members' : Fields}
    (hplain : Json.isUnresolvedNode members = false)
    (hmembers : ExpandsFields library root current members members') :
    ExpandsJson library root current (.object members) (.object members')
  | array {root : Json} {current : Path} {items items' : List Json}
    (hitems : ExpandsValues library root current items items') :
    ExpandsJson library root current (.array items) (.array items')
  | null {root : Json} {current : Path} : ExpandsJson library root current .null .null
  | bool {root : Json} {current : Path} (value : Bool) :
    ExpandsJson library root current (.bool value) (.bool value)
  | number {root : Json} {current : Path} (value : Number) :
    ExpandsJson library root current (.number value) (.number value)
  | string {root : Json} {current : Path} (value : String) :
    ExpandsJson library root current (.string value) (.string value)

inductive ExpandsValues (library : Library) : Json → Path → List Json → List Json → Prop
  | nil {root : Json} {current : Path} : ExpandsValues library root current [] []
  | cons {root : Json} {current : Path} {value value' : Json} {rest rest' : List Json}
    (hvalue : ExpandsJson library root current value value')
    (hrest : ExpandsValues library root current rest rest') :
    ExpandsValues library root current (value :: rest) (value' :: rest')

inductive ExpandsFields (library : Library) : Json → Path → Fields → Fields → Prop
  | nil {root : Json} {current : Path} : ExpandsFields library root current [] []
  | cons {root : Json} {current : Path} {key : String} {value value' : Json} {rest rest' : Fields}
    (hvalue : ExpandsJson library root current value value')
    (hrest : ExpandsFields library root current rest rest') :
    ExpandsFields library root current ((key, value) :: rest) ((key, value') :: rest')

inductive ExpandsChoices (library : Library) :
    Json → Path → Option (List Json) → Option (List Json) → Prop
  | none {root : Json} {current : Path} : ExpandsChoices library root current none none
  | some {root : Json} {current : Path} {choices choices' : List Json}
    (hchoices : ExpandsValues library root current choices choices') :
    ExpandsChoices library root current (some choices) (some choices')

end

/-! ### Searching to a given depth -/

section Unfold

variable (library : Library)

/-- What a reference unfolds to, where `next` unfolds what it denotes. -/
def unfoldReference (next : Json → Path → Fragment → Option Fragment) (root : Json)
    (current : Path) (text : String) : Option Fragment :=
  match Reference.parse? text with
  | none => none
  | some reference =>
    match reference.find? library root current with
    | .error _ => none
    | .ok none => some .absent
    | .ok (some found) => next found.document found.path (.ofJson found.value)

/-- What a fragment unfolds to where references nest no deeper than `depth - 1`. -/
def unfoldWithin : Nat → Json → Path → Fragment → Option Fragment
  | 0, _, _, _ => none
  | depth + 1, root, current, fragment =>
    fragment.expand (unfoldReference library (unfoldWithin depth) root current)

/-- Following a reference while what it denotes is unfolded within the depth. -/
def followWithin (root : Json) (current : Path) (depth : Nat) : String → Option Fragment :=
  unfoldReference library (unfoldWithin library depth) root current

end Unfold

section Soundness

set_option linter.unusedSectionVars false

variable {library : Library} {root : Json} {current : Path} {follow : String → Option Fragment}
  (hfollow : ∀ text result, follow text = some result →
    Expands library root current (.reference text) result)

include hfollow

mutual

/-- If what following gives is derivable, so is what expansion gives. -/
theorem expands_of_expand : ∀ (fragment : Fragment) (result : Fragment),
    fragment.expand follow = some result → Expands library root current fragment result
  | .any value, result, hexpand => by
    rw [Fragment.expand] at hexpand
    obtain ⟨value', hvalue, hresult⟩ := Option.bind_eq_some_iff.mp hexpand
    cases hresult
    exact .any (expandsJson_of_expand value value' hvalue)
  | .primitive kind choices annotations, result, hexpand => by
    rw [Fragment.expand] at hexpand
    obtain ⟨choices', hchoices, hrest⟩ := Option.bind_eq_some_iff.mp hexpand
    obtain ⟨annotations', hannotations, hresult⟩ := Option.bind_eq_some_iff.mp hrest
    cases hresult
    exact .primitive (expandsChoices_of_expand choices choices' hchoices)
      (expandsFields_of_expand annotations annotations' hannotations)
  | .array items annotations, result, hexpand => by
    rw [Fragment.expand] at hexpand
    obtain ⟨items', hitems, hrest⟩ := Option.bind_eq_some_iff.mp hexpand
    obtain ⟨annotations', hannotations, hresult⟩ := Option.bind_eq_some_iff.mp hrest
    cases hresult
    exact .array (expandsPart_of_expand items items' hitems)
      (expandsFields_of_expand annotations annotations' hannotations)
  | .object properties required additional annotations, result, hexpand => by
    rw [Fragment.expand] at hexpand
    obtain ⟨properties', hproperties, hrest⟩ := Option.bind_eq_some_iff.mp hexpand
    obtain ⟨additional', hadditional, hrest⟩ := Option.bind_eq_some_iff.mp hrest
    obtain ⟨annotations', hannotations, hresult⟩ := Option.bind_eq_some_iff.mp hrest
    cases hresult
    exact .object (expandsProperties_of_expand properties properties' hproperties)
      (expandsPart_of_expand additional additional' hadditional)
      (expandsFields_of_expand annotations annotations' hannotations)
  | .reference target, result, hexpand => by
    rw [Fragment.expand] at hexpand
    exact hfollow target result hexpand
  | .composition members, result, hexpand => by
    rw [Fragment.expand] at hexpand
    obtain ⟨members', hmembers, hresult⟩ := Option.bind_eq_some_iff.mp hexpand
    cases hresult
    exact .composition (expandsItems_of_expand members members' hmembers)
termination_by fragment => 4 * fragment.weight + 1
decreasing_by all_goals simp only [Fragment.weight]; omega

theorem expandsPart_of_expand : ∀ (part result : Option Fragment),
    Fragment.expandPart follow part = some result →
      ExpandsPart library root current part result
  | none, result, hexpand => by
    rw [Fragment.expandPart] at hexpand
    cases hexpand
    exact .none
  | some fragment, result, hexpand => by
    rw [Fragment.expandPart] at hexpand
    obtain ⟨fragment', hfragment, hresult⟩ := Option.bind_eq_some_iff.mp hexpand
    cases hresult
    exact .some (expands_of_expand fragment fragment' hfragment)
termination_by part => 4 * Fragment.weightOfPart part + 2
decreasing_by simp only [Fragment.weightOfPart]; omega

theorem expandsProperties_of_expand : ∀ (properties result : Option Properties),
    Fragment.expandProperties follow properties = some result →
      ExpandsProperties library root current properties result
  | none, result, hexpand => by
    rw [Fragment.expandProperties] at hexpand
    cases hexpand
    exact .none
  | some properties, result, hexpand => by
    rw [Fragment.expandProperties] at hexpand
    obtain ⟨properties', hproperties, hresult⟩ := Option.bind_eq_some_iff.mp hexpand
    cases hresult
    exact .some (expandsMembers_of_expand properties properties' hproperties)
termination_by properties => 4 * Fragment.weightOfProperties properties + 3
decreasing_by simp only [Fragment.weightOfProperties]; omega

theorem expandsItems_of_expand : ∀ items result : List Fragment,
    Fragment.expandItems follow items = some result →
      ExpandsItems library root current items result
  | [], result, hexpand => by
    rw [Fragment.expandItems] at hexpand
    cases hexpand
    exact .nil
  | fragment :: rest, result, hexpand => by
    rw [Fragment.expandItems] at hexpand
    obtain ⟨fragment', hfragment, hmore⟩ := Option.bind_eq_some_iff.mp hexpand
    obtain ⟨rest', hrest, hresult⟩ := Option.bind_eq_some_iff.mp hmore
    cases hresult
    exact .cons (expands_of_expand fragment fragment' hfragment)
      (expandsItems_of_expand rest rest' hrest)
termination_by items => 4 * Fragment.weightOfItems items + 2
decreasing_by
  all_goals
    have := fragment.weight_pos
    simp only [Fragment.weightOfItems]; omega

theorem expandsMembers_of_expand : ∀ members result : Properties,
    Fragment.expandMembers follow members = some result →
      ExpandsMembers library root current members result
  | [], result, hexpand => by
    rw [Fragment.expandMembers] at hexpand
    cases hexpand
    exact .nil
  | (name, fragment) :: rest, result, hexpand => by
    rw [Fragment.expandMembers] at hexpand
    obtain ⟨fragment', hfragment, hmore⟩ := Option.bind_eq_some_iff.mp hexpand
    obtain ⟨rest', hrest, hresult⟩ := Option.bind_eq_some_iff.mp hmore
    cases hresult
    exact .cons (expands_of_expand fragment fragment' hfragment)
      (expandsMembers_of_expand rest rest' hrest)
termination_by members => 4 * Fragment.weightOfMembers members + 2
decreasing_by
  all_goals
    have := fragment.weight_pos
    simp only [Fragment.weightOfMembers]; omega

theorem expandsJson_of_expand : ∀ value result : Json,
    value.expand follow = some result → ExpandsJson library root current value result
  | .object members, result, hexpand => by
    rw [Json.expand] at hexpand
    by_cases h : Json.isUnresolvedNode members
    · have := Fragment.weight_ofJson_lt h
      rw [dif_pos h] at hexpand
      obtain ⟨fragment, hfragment, hresult⟩ := Option.bind_eq_some_iff.mp hexpand
      cases hresult
      exact .node h (expands_of_expand (.ofJson (.object members)) fragment hfragment)
    · rw [dif_neg h] at hexpand
      obtain ⟨members', hmembers, hresult⟩ := Option.bind_eq_some_iff.mp hexpand
      cases hresult
      exact .object (Bool.not_eq_true _ ▸ h) (expandsFields_of_expand members members' hmembers)
  | .array items, result, hexpand => by
    rw [Json.expand] at hexpand
    obtain ⟨items', hitems, hresult⟩ := Option.bind_eq_some_iff.mp hexpand
    cases hresult
    exact .array (expandsValues_of_expand items items' hitems)
  | .null, result, hexpand => by
    simp only [Json.expand] at hexpand
    cases hexpand
    exact .null
  | .bool value, result, hexpand => by
    simp only [Json.expand] at hexpand
    cases hexpand
    exact .bool value
  | .number value, result, hexpand => by
    simp only [Json.expand] at hexpand
    cases hexpand
    exact .number value
  | .string value, result, hexpand => by
    simp only [Json.expand] at hexpand
    cases hexpand
    exact .string value
termination_by value => 4 * value.weight
decreasing_by all_goals simp only [Json.weight] at *; omega

theorem expandsValues_of_expand : ∀ items result : List Json,
    Json.expandItems follow items = some result →
      ExpandsValues library root current items result
  | [], result, hexpand => by
    rw [Json.expandItems] at hexpand
    cases hexpand
    exact .nil
  | item :: rest, result, hexpand => by
    rw [Json.expandItems] at hexpand
    obtain ⟨item', hitem, hmore⟩ := Option.bind_eq_some_iff.mp hexpand
    obtain ⟨rest', hrest, hresult⟩ := Option.bind_eq_some_iff.mp hmore
    cases hresult
    exact .cons (expandsJson_of_expand item item' hitem) (expandsValues_of_expand rest rest' hrest)
termination_by items => 4 * Json.weightOfItems items + 1
decreasing_by
  all_goals
    have := item.weight_pos
    simp only [Json.weightOfItems]; omega

theorem expandsFields_of_expand : ∀ members result : Fields,
    Json.expandMembers follow members = some result →
      ExpandsFields library root current members result
  | [], result, hexpand => by
    rw [Json.expandMembers] at hexpand
    cases hexpand
    exact .nil
  | (key, value) :: rest, result, hexpand => by
    rw [Json.expandMembers] at hexpand
    obtain ⟨value', hvalue, hmore⟩ := Option.bind_eq_some_iff.mp hexpand
    obtain ⟨rest', hrest, hresult⟩ := Option.bind_eq_some_iff.mp hmore
    cases hresult
    exact .cons (expandsJson_of_expand value value' hvalue)
      (expandsFields_of_expand rest rest' hrest)
termination_by members => 4 * Json.weightOfMembers members + 1
decreasing_by
  all_goals
    have := value.weight_pos
    simp only [Json.weightOfMembers]; omega

theorem expandsChoices_of_expand : ∀ choices result : Option (List Json),
    Json.expandChoices follow choices = some result →
      ExpandsChoices library root current choices result
  | none, result, hexpand => by
    rw [Json.expandChoices] at hexpand
    cases hexpand
    exact .none
  | some choices, result, hexpand => by
    rw [Json.expandChoices] at hexpand
    obtain ⟨choices', hchoices, hresult⟩ := Option.bind_eq_some_iff.mp hexpand
    cases hresult
    exact .some (expandsValues_of_expand choices choices' hchoices)
termination_by choices => 4 * Json.weightOfItems (choices.getD []) + 2
decreasing_by simp only [Option.getD_some]; omega

end

end Soundness

/-! ### Derivations are found -/

section Completeness

variable {library : Library}

/-- From some depth on, all answers of a search are the given one. -/
def Settles {α : Type} (search : Nat → Option α) (result : α) : Prop :=
  ∃ least, ∀ depth, least ≤ depth → search depth = some result

theorem Settles.pure {α : Type} (result : α) : Settles (fun _ ↦ some result) result :=
  ⟨0, fun _ _ ↦ rfl⟩

theorem Settles.bind {α β : Type} {search : Nat → Option α} {next : α → Nat → Option β} {first : α}
    {result : β} (hfirst : Settles search first) (hnext : Settles (next first) result) :
    Settles (fun depth ↦ search depth >>= fun value ↦ next value depth) result := by
  obtain ⟨least, hfirst⟩ := hfirst
  obtain ⟨least', hnext⟩ := hnext
  refine ⟨max least least', ?_⟩
  intro depth hdepth
  have hleft := hfirst depth (Nat.le_trans (Nat.le_max_left least least') hdepth)
  have hright := hnext depth (Nat.le_trans (Nat.le_max_right least least') hdepth)
  simp only [hleft, Option.bind_eq_bind, Option.bind_some, hright]

mutual

theorem Expands.settles {root : Json} {current : Path} : ∀ {fragment result : Fragment},
    Expands library root current fragment result →
      Settles (fun depth ↦ fragment.expand (followWithin library root current depth)) result
  | _, _, .any hvalue => by
    simp only [Fragment.expand]
    exact hvalue.settles.bind (.pure _)
  | _, _, .primitive hchoices hannotations => by
    simp only [Fragment.expand]
    exact hchoices.settles.bind (hannotations.settles.bind (.pure _))
  | _, _, .array hitems hannotations => by
    simp only [Fragment.expand]
    exact hitems.settles.bind (hannotations.settles.bind (.pure _))
  | _, _, .object hproperties hadditional hannotations => by
    simp only [Fragment.expand]
    exact hproperties.settles.bind
      (hadditional.settles.bind (hannotations.settles.bind (.pure _)))
  | _, _, .dangling hparse hfind => by
    simp only [Fragment.expand, followWithin, unfoldReference, hparse, hfind]
    exact .pure _
  | _, _, .reference hparse hfind htarget => by
    simp only [Fragment.expand, followWithin, unfoldReference, hparse, hfind]
    obtain ⟨least, hsettled⟩ := htarget.settles
    refine ⟨least + 1, ?_⟩
    intro depth hdepth
    obtain ⟨depth, rfl⟩ : ∃ n, depth = n + 1 := ⟨depth - 1, by omega⟩
    exact hsettled depth (Nat.le_of_succ_le_succ hdepth)
  | _, _, .composition hmembers => by
    simp only [Fragment.expand]
    exact hmembers.settles.bind (.pure _)

theorem ExpandsPart.settles {root : Json} {current : Path} : ∀ {part result : Option Fragment},
    ExpandsPart library root current part result →
      Settles (fun depth ↦ Fragment.expandPart (followWithin library root current depth) part)
        result
  | _, _, .none => by
    simp only [Fragment.expandPart]
    exact .pure _
  | _, _, .some hfragment => by
    simp only [Fragment.expandPart]
    exact hfragment.settles.bind (.pure _)

theorem ExpandsProperties.settles {root : Json} {current : Path} :
    ∀ {properties result : Option Properties},
      ExpandsProperties library root current properties result →
        Settles (fun depth ↦ Fragment.expandProperties (followWithin library root current depth)
          properties) result
  | _, _, .none => by
    simp only [Fragment.expandProperties]
    exact .pure _
  | _, _, .some hproperties => by
    simp only [Fragment.expandProperties]
    exact hproperties.settles.bind (.pure _)

theorem ExpandsItems.settles {root : Json} {current : Path} : ∀ {items result : List Fragment},
    ExpandsItems library root current items result →
      Settles (fun depth ↦ Fragment.expandItems (followWithin library root current depth) items)
        result
  | _, _, .nil => by
    simp only [Fragment.expandItems]
    exact .pure _
  | _, _, .cons hfragment hrest => by
    simp only [Fragment.expandItems]
    exact hfragment.settles.bind (hrest.settles.bind (.pure _))

theorem ExpandsMembers.settles {root : Json} {current : Path} : ∀ {members result : Properties},
    ExpandsMembers library root current members result →
      Settles (fun depth ↦ Fragment.expandMembers (followWithin library root current depth)
        members) result
  | _, _, .nil => by
    simp only [Fragment.expandMembers]
    exact .pure _
  | _, _, .cons hfragment hrest => by
    simp only [Fragment.expandMembers]
    exact hfragment.settles.bind (hrest.settles.bind (.pure _))

theorem ExpandsJson.settles {root : Json} {current : Path} : ∀ {value result : Json},
    ExpandsJson library root current value result →
      Settles (fun depth ↦ value.expand (followWithin library root current depth)) result
  | _, _, .node hnode hfragment => by
    simp only [Json.expand, dif_pos hnode]
    exact hfragment.settles.bind (.pure _)
  | _, _, .object hplain hmembers => by
    simp only [Json.expand, hplain, Bool.false_eq_true, dite_false]
    exact hmembers.settles.bind (.pure _)
  | _, _, .array hitems => by
    simp only [Json.expand]
    exact hitems.settles.bind (.pure _)
  | _, _, .null => by
    simp only [Json.expand]
    exact .pure _
  | _, _, .bool value => by
    simp only [Json.expand]
    exact .pure _
  | _, _, .number value => by
    simp only [Json.expand]
    exact .pure _
  | _, _, .string value => by
    simp only [Json.expand]
    exact .pure _

theorem ExpandsValues.settles {root : Json} {current : Path} : ∀ {items result : List Json},
    ExpandsValues library root current items result →
      Settles (fun depth ↦ Json.expandItems (followWithin library root current depth) items) result
  | _, _, .nil => by
    simp only [Json.expandItems]
    exact .pure _
  | _, _, .cons hvalue hrest => by
    simp only [Json.expandItems]
    exact hvalue.settles.bind (hrest.settles.bind (.pure _))

theorem ExpandsFields.settles {root : Json} {current : Path} : ∀ {members result : Fields},
    ExpandsFields library root current members result →
      Settles (fun depth ↦ Json.expandMembers (followWithin library root current depth) members)
        result
  | _, _, .nil => by
    simp only [Json.expandMembers]
    exact .pure _
  | _, _, .cons hvalue hrest => by
    simp only [Json.expandMembers]
    exact hvalue.settles.bind (hrest.settles.bind (.pure _))

theorem ExpandsChoices.settles {root : Json} {current : Path} :
    ∀ {choices result : Option (List Json)},
      ExpandsChoices library root current choices result →
        Settles (fun depth ↦ Json.expandChoices (followWithin library root current depth) choices)
          result
  | _, _, .none => by
    simp only [Json.expandChoices]
    exact .pure _
  | _, _, .some hchoices => by
    simp only [Json.expandChoices]
    exact hchoices.settles.bind (.pure _)

end

end Completeness

section Depth

variable {library : Library} {root : Json} {current : Path}

theorem unfoldReference_eq_some {next : Json → Path → Fragment → Option Fragment} {text : String}
    {result : Fragment} : unfoldReference library next root current text = some result ↔
      ∃ reference, Reference.parse? text = some reference ∧
        ((reference.find? library root current = .ok none ∧ result = .absent) ∨
          ∃ found, reference.find? library root current = .ok (some found) ∧
            next found.document found.path (.ofJson found.value) = some result) := by
  rw [unfoldReference]
  cases Reference.parse? text with
  | none => simp
  | some reference =>
    cases hfind : reference.find? library root current with
    | error error => simp [hfind]
    | ok found =>
      cases found with
      | none => simp [hfind, eq_comm]
      | some found => simp [hfind]

theorem unfoldWithin_succ (depth : Nat) (fragment : Fragment) :
    unfoldWithin library (depth + 1) root current fragment =
      fragment.expand (followWithin library root current depth) := rfl

theorem expands_of_unfoldWithin {depth : Nat} {fragment result : Fragment}
    (hunfold : unfoldWithin library depth root current fragment = some result) :
    Expands library root current fragment result := by
  induction depth generalizing root current fragment result with
  | zero => exact absurd hunfold (by simp [unfoldWithin])
  | succ depth ih =>
    refine expands_of_expand ?_ fragment result hunfold
    intro text result hfollow
    obtain ⟨reference, hparse, ⟨hfind, rfl⟩ | ⟨found, hfind, htarget⟩⟩ :=
      unfoldReference_eq_some.mp hfollow
    · exact .dangling hparse hfind
    · exact .reference hparse hfind (ih htarget)

/-- The derivations are what the searches of some depth find. -/
theorem expands_iff_exists_unfoldWithin {fragment result : Fragment} :
    Expands library root current fragment result ↔
      ∃ depth, unfoldWithin library depth root current fragment = some result := by
  constructor
  · intro hexpands
    obtain ⟨least, hsettled⟩ := hexpands.settles
    exact ⟨least + 1, hsettled least (Nat.le_refl least)⟩
  · rintro ⟨depth, hunfold⟩
    exact expands_of_unfoldWithin hunfold

/-- Pairs of searches of which the second finds what the first finds. -/
def refinement : Coupling Option Option where
  Holds x y := ∀ value, x = some value → y = some value
  holds_pure _ _ hvalue := hvalue
  holds_bind := by
    intro α β x y f g hfirst hnext result hresult
    obtain ⟨value, hvalue, hresult⟩ := Option.bind_eq_some_iff.mp hresult
    exact Option.bind_eq_some_iff.mpr ⟨value, hfirst value hvalue, hnext value result hresult⟩

theorem unfoldWithin_mono {depth deeper : Nat} (hdepth : depth ≤ deeper)
    {fragment result : Fragment}
    (hunfold : unfoldWithin library depth root current fragment = some result) :
    unfoldWithin library deeper root current fragment = some result := by
  induction depth generalizing deeper root current fragment result with
  | zero => exact absurd hunfold (by simp [unfoldWithin])
  | succ depth ih =>
    obtain ⟨deeper, rfl⟩ : ∃ n, deeper = n + 1 := ⟨deeper - 1, by omega⟩
    refine refinement.expand fragment ?_ result hunfold
    intro text _ value hvalue
    obtain ⟨reference, hparse, hdangling | ⟨found, hfind, htarget⟩⟩ :=
      unfoldReference_eq_some.mp hvalue
    · exact unfoldReference_eq_some.mpr ⟨reference, hparse, .inl hdangling⟩
    · have hdeeper := ih (Nat.le_of_succ_le_succ hdepth) htarget
      exact unfoldReference_eq_some.mpr ⟨reference, hparse, .inr ⟨found, hfind, hdeeper⟩⟩

/-- What unfolds within a depth has a least depth. -/
theorem exists_least_unfoldWithin {depth : Nat} {fragment result : Fragment}
    (hunfold : unfoldWithin library depth root current fragment = some result) :
    ∃ less < depth, unfoldWithin library less root current fragment = none ∧
      unfoldWithin library (less + 1) root current fragment = some result := by
  induction depth with
  | zero => exact absurd hunfold (by simp [unfoldWithin])
  | succ depth ih =>
    cases hless : unfoldWithin library depth root current fragment with
    | none => exact ⟨depth, Nat.lt_succ_self depth, hless, hunfold⟩
    | some other =>
      obtain rfl : other = result := by
        simpa [hunfold, eq_comm] using unfoldWithin_mono (Nat.le_succ depth) hless
      obtain ⟨less, hlt, hleast⟩ := ih hless
      exact ⟨less, Nat.lt_succ_of_lt hlt, hleast⟩

end Depth

end EventSchema
