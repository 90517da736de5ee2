import EventSchema.Fragment.Expand
import EventSchema.Fragment.Followed

/-!
# Coupled expansions

An expansion does nothing but follow references, one after the other, and put the results in place.
So whatever relates the ways in which two expansions follow the references of a fragment relates
the two expansions, provided that it holds of returned values and is kept by sequencing. Each
property of resolving is an instance: that it ends, that it agrees with another resolver, that it
computes what the references mean (`Coupling.expand`). A relation may also speak of the references
that were followed so far: those of an expansion are the ones of its fragment, in their order
(`TracedCoupling.expand`).
-/

set_option autoImplicit false

namespace EventSchema

/-- A relation between computations in two monads and the references that they follow. -/
structure TracedCoupling (m n : Type → Type) [Monad m] [Monad n] where
  Holds : {α : Type} → List String → m α → n α → Prop
  holds_pure {α : Type} (value : α) : Holds [] (pure value) (pure value)
  holds_bind {α β : Type} {texts more : List String} {x : m α} {y : n α} {f : α → m β}
    {g : α → n β} (hfirst : Holds texts x y) (hnext : ∀ value, Holds more (f value) (g value)) :
    Holds (texts ++ more) (x >>= f) (y >>= g)

/-- A relation between computations in two monads that holds of returned values and is kept by
sequencing. -/
structure Coupling (m n : Type → Type) [Monad m] [Monad n] where
  Holds : {α : Type} → m α → n α → Prop
  holds_pure {α : Type} (value : α) : Holds (pure value) (pure value)
  holds_bind {α β : Type} {x : m α} {y : n α} {f : α → m β} {g : α → n β} (hfirst : Holds x y)
    (hnext : ∀ value, Holds (f value) (g value)) : Holds (x >>= f) (y >>= g)

variable {m n : Type → Type} [Monad m] [Monad n] {follow : String → m Fragment}
  {follow' : String → n Fragment}

namespace TracedCoupling

variable (c : TracedCoupling m n)

/-- A returned value follows nothing. -/
theorem holds_return {α β : Type} {texts : List String} {x : m α} {y : n α} (change : α → β)
    (hfirst : c.Holds texts x y) :
    c.Holds texts (x >>= fun value ↦ pure (change value))
      (y >>= fun value ↦ pure (change value)) := by
  have hreturned := c.holds_bind hfirst fun value ↦ c.holds_pure (change value)
  rwa [List.append_nil] at hreturned

mutual

/-- Expansions are coupled, along the references of the fragment, if following each is. -/
theorem expand : ∀ fragment : Fragment,
    (∀ text ∈ fragment.followed, c.Holds [text] (follow text) (follow' text)) →
    c.Holds fragment.followed (fragment.expand follow) (fragment.expand follow')
  | .any value, hfollow => by
    rw [Fragment.expand, Fragment.expand]
    rw [Fragment.followed] at hfollow ⊢
    exact c.holds_return _ (expandJson value hfollow)
  | .primitive kind choices annotations, hfollow => by
    rw [Fragment.expand, Fragment.expand]
    rw [Fragment.followed] at hfollow ⊢
    rw [List.forall_mem_append] at hfollow
    refine c.holds_bind (expandChoices choices hfollow.1) fun _ ↦ ?_
    exact c.holds_return _ (expandJsonMembers annotations hfollow.2)
  | .array items annotations, hfollow => by
    rw [Fragment.expand, Fragment.expand]
    rw [Fragment.followed] at hfollow ⊢
    rw [List.forall_mem_append] at hfollow
    refine c.holds_bind (expandPart items hfollow.1) fun _ ↦ ?_
    exact c.holds_return _ (expandJsonMembers annotations hfollow.2)
  | .object properties required additional annotations, hfollow => by
    rw [Fragment.expand, Fragment.expand]
    rw [Fragment.followed, List.append_assoc] at hfollow ⊢
    rw [List.forall_mem_append, List.forall_mem_append] at hfollow
    obtain ⟨hproperties, hadditional, hannotations⟩ := hfollow
    refine c.holds_bind (expandProperties properties hproperties) fun _ ↦ ?_
    refine c.holds_bind (expandPart additional hadditional) fun _ ↦ ?_
    exact c.holds_return _ (expandJsonMembers annotations hannotations)
  | .reference target, hfollow => by
    rw [Fragment.expand, Fragment.expand]
    rw [Fragment.followed] at hfollow ⊢
    exact hfollow target List.mem_cons_self
  | .composition members, hfollow => by
    rw [Fragment.expand, Fragment.expand]
    rw [Fragment.followed] at hfollow ⊢
    exact c.holds_return _ (expandItems members hfollow)
termination_by fragment => 4 * fragment.weight + 1
decreasing_by all_goals simp only [Fragment.weight]; omega

theorem expandPart : ∀ part : Option Fragment,
    (∀ text ∈ Fragment.followedInPart part, c.Holds [text] (follow text) (follow' text)) →
    c.Holds (Fragment.followedInPart part) (Fragment.expandPart follow part)
      (Fragment.expandPart follow' part)
  | none, _ => by
    rw [Fragment.expandPart, Fragment.expandPart, Fragment.followedInPart]
    exact c.holds_pure _
  | some fragment, hfollow => by
    rw [Fragment.expandPart, Fragment.expandPart]
    rw [Fragment.followedInPart] at hfollow ⊢
    exact c.holds_return _ (expand fragment hfollow)
termination_by part => 4 * Fragment.weightOfPart part + 2
decreasing_by simp only [Fragment.weightOfPart]; omega

theorem expandProperties : ∀ properties : Option (List (String × Fragment)),
    (∀ text ∈ Fragment.followedInProperties properties,
      c.Holds [text] (follow text) (follow' text)) →
    c.Holds (Fragment.followedInProperties properties)
      (Fragment.expandProperties follow properties) (Fragment.expandProperties follow' properties)
  | none, _ => by
    rw [Fragment.expandProperties, Fragment.expandProperties, Fragment.followedInProperties]
    exact c.holds_pure _
  | some properties, hfollow => by
    rw [Fragment.expandProperties, Fragment.expandProperties]
    rw [Fragment.followedInProperties] at hfollow ⊢
    exact c.holds_return _ (expandMembers properties hfollow)
termination_by properties => 4 * Fragment.weightOfProperties properties + 3
decreasing_by simp only [Fragment.weightOfProperties]; omega

theorem expandItems : ∀ items : List Fragment,
    (∀ text ∈ Fragment.followedInItems items, c.Holds [text] (follow text) (follow' text)) →
    c.Holds (Fragment.followedInItems items) (Fragment.expandItems follow items)
      (Fragment.expandItems follow' items)
  | [], _ => by
    rw [Fragment.expandItems, Fragment.expandItems, Fragment.followedInItems]
    exact c.holds_pure _
  | fragment :: rest, hfollow => by
    rw [Fragment.expandItems, Fragment.expandItems]
    rw [Fragment.followedInItems] at hfollow ⊢
    rw [List.forall_mem_append] at hfollow
    refine c.holds_bind (expand fragment hfollow.1) fun _ ↦ ?_
    exact c.holds_return _ (expandItems rest hfollow.2)
termination_by items => 4 * Fragment.weightOfItems items + 2
decreasing_by
  all_goals
    have := fragment.weight_pos
    simp only [Fragment.weightOfItems]; omega

theorem expandMembers : ∀ members : List (String × Fragment),
    (∀ text ∈ Fragment.followedInMembers members, c.Holds [text] (follow text) (follow' text)) →
    c.Holds (Fragment.followedInMembers members) (Fragment.expandMembers follow members)
      (Fragment.expandMembers follow' members)
  | [], _ => by
    rw [Fragment.expandMembers, Fragment.expandMembers, Fragment.followedInMembers]
    exact c.holds_pure _
  | (name, fragment) :: rest, hfollow => by
    rw [Fragment.expandMembers, Fragment.expandMembers]
    rw [Fragment.followedInMembers] at hfollow ⊢
    rw [List.forall_mem_append] at hfollow
    refine c.holds_bind (expand fragment hfollow.1) fun _ ↦ ?_
    exact c.holds_return _ (expandMembers rest hfollow.2)
termination_by members => 4 * Fragment.weightOfMembers members + 2
decreasing_by
  all_goals
    have := fragment.weight_pos
    simp only [Fragment.weightOfMembers]; omega

theorem expandJson : ∀ value : Json,
    (∀ text ∈ value.followed, c.Holds [text] (follow text) (follow' text)) →
    c.Holds value.followed (value.expand follow) (value.expand follow')
  | .object members, hfollow => by
    rw [Json.expand, Json.expand]
    rw [Json.followed] at hfollow ⊢
    by_cases h : Json.isUnresolvedNode members
    · have := Fragment.weight_ofJson_lt h
      rw [dif_pos h] at hfollow
      rw [dif_pos h, dif_pos h, dif_pos h]
      exact c.holds_return _ (expand (Fragment.ofJson (.object members)) hfollow)
    · rw [dif_neg h] at hfollow
      rw [dif_neg h, dif_neg h, dif_neg h]
      exact c.holds_return _ (expandJsonMembers members hfollow)
  | .array items, hfollow => by
    rw [Json.expand, Json.expand]
    rw [Json.followed] at hfollow ⊢
    exact c.holds_return _ (expandJsonItems items hfollow)
  | .null, _ | .bool _, _ | .number _, _ | .string _, _ => by
    simp only [Json.expand, Json.followed]
    exact c.holds_pure _
termination_by value => 4 * value.weight
decreasing_by all_goals simp only [Json.weight] at *; omega

theorem expandJsonItems : ∀ items : List Json,
    (∀ text ∈ Json.followedInItems items, c.Holds [text] (follow text) (follow' text)) →
    c.Holds (Json.followedInItems items) (Json.expandItems follow items)
      (Json.expandItems follow' items)
  | [], _ => by
    rw [Json.expandItems, Json.expandItems, Json.followedInItems]
    exact c.holds_pure _
  | item :: rest, hfollow => by
    rw [Json.expandItems, Json.expandItems]
    rw [Json.followedInItems] at hfollow ⊢
    rw [List.forall_mem_append] at hfollow
    refine c.holds_bind (expandJson item hfollow.1) fun _ ↦ ?_
    exact c.holds_return _ (expandJsonItems rest hfollow.2)
termination_by items => 4 * Json.weightOfItems items + 1
decreasing_by
  all_goals
    have := item.weight_pos
    simp only [Json.weightOfItems]; omega

theorem expandJsonMembers : ∀ members : List (String × Json),
    (∀ text ∈ Json.followedInMembers members, c.Holds [text] (follow text) (follow' text)) →
    c.Holds (Json.followedInMembers members) (Json.expandMembers follow members)
      (Json.expandMembers follow' members)
  | [], _ => by
    rw [Json.expandMembers, Json.expandMembers, Json.followedInMembers]
    exact c.holds_pure _
  | (key, value) :: rest, hfollow => by
    rw [Json.expandMembers, Json.expandMembers]
    rw [Json.followedInMembers] at hfollow ⊢
    rw [List.forall_mem_append] at hfollow
    refine c.holds_bind (expandJson value hfollow.1) fun _ ↦ ?_
    exact c.holds_return _ (expandJsonMembers rest hfollow.2)
termination_by members => 4 * Json.weightOfMembers members + 1
decreasing_by
  all_goals
    have := value.weight_pos
    simp only [Json.weightOfMembers]; omega

theorem expandChoices : ∀ choices : Option (List Json),
    (∀ text ∈ Json.followedInChoices choices, c.Holds [text] (follow text) (follow' text)) →
    c.Holds (Json.followedInChoices choices) (Json.expandChoices follow choices)
      (Json.expandChoices follow' choices)
  | none, _ => by
    rw [Json.expandChoices, Json.expandChoices, Json.followedInChoices]
    exact c.holds_pure _
  | some choices, hfollow => by
    rw [Json.expandChoices, Json.expandChoices]
    rw [Json.followedInChoices] at hfollow ⊢
    exact c.holds_return _ (expandJsonItems choices hfollow)
termination_by choices => 4 * Json.weightOfItems (choices.getD []) + 2
decreasing_by simp only [Option.getD_some]; omega

end

end TracedCoupling

/-- Expansions are coupled if following is, on the references that the fragment holds. -/
theorem Coupling.expand (c : Coupling m n) (fragment : Fragment)
    (hfollow : ∀ text ∈ fragment.followed, c.Holds (follow text) (follow' text)) :
    c.Holds (fragment.expand follow) (fragment.expand follow') :=
  TracedCoupling.expand
    { Holds := fun _ ↦ c.Holds, holds_pure := c.holds_pure, holds_bind := c.holds_bind } fragment
    hfollow

end EventSchema
