import EventSchema.Proofs.Fragment.Merge
import EventSchema.Proofs.Resolver.Termination

/-!
# Nested compositions

Merging parts and then their merges is merging everything at once, and what is merged is given name
by name (`IsMerge`). So it does not matter how compositions are nested: a resolver answers for a
composition what it answers for the list of its innermost members, and is left the same
(`composition_laws`). Each member is expanded on its own, in the same order either way, and a merge
depends on what a member expands to through the merge of that alone
(`mergeAllOf_map_expandItems_leaves`).
-/

set_option autoImplicit false

namespace EventSchema

namespace Fragment

mutual

/-- The members of a composition, those of inner compositions in their place. Any other fragment
is its only one. -/
def leaves : Fragment → List Fragment
  | .composition members => leavesOfItems members
  | fragment => [fragment]

def leavesOfItems : List Fragment → List Fragment
  | [] => []
  | fragment :: rest => fragment.leaves ++ leavesOfItems rest

end

/-- The fragment is an object schema that says of each name what the members say: a property is the
one of the last member that declares it and stands where the name was first declared, the required
names are there once in the order of their first occurrences, and further properties are those of
the last member that declares them. -/
structure IsMerge (members : List Fragment) (merged : Fragment) : Prop where
  shape : merged = .object (some merged.properties) (some merged.required) merged.additional? []
  property (name : String) : merged.properties.get? name =
    members.reverse.findSome? fun member ↦ member.properties.get? name
  names : merged.properties.keys = (members.flatMap fun member ↦ member.properties.keys).eraseDups
  required : merged.required = (members.flatMap Fragment.required).eraseDups
  nodup : merged.required.Nodup
  additional : merged.additional? = members.reverse.findSome? additional?

theorem isMerge_mergeAllOf {members : List Fragment}
    (hunique : ∀ member ∈ members, member.properties.Unique) :
    IsMerge members (mergeAllOf members) where
  shape := rfl
  property := get?_properties_mergeAllOf hunique
  names := keys_properties_mergeAllOf members
  required := required_mergeAllOf members
  nodup := nodup_required_mergeAllOf members
  additional := additional?_mergeAllOf members

theorem mergeAllOf_append (before after : List Fragment) :
    mergeAllOf (before ++ after) = mergeAllOf [mergeAllOf before, mergeAllOf after] := by
  have hparts := mergeAllOf_map_mergeAllOf [before, after]
  rw [List.flatten_cons, List.flatten_singleton] at hparts
  exact hparts.symm

theorem mergeAllOf_singleton (members : List Fragment) :
    mergeAllOf [mergeAllOf members] = mergeAllOf members := by
  rw [← List.map_singleton, mergeAllOf_map_mergeAllOf, List.flatten_singleton]

/-- Merging nothing is neutral. -/
theorem mergeAllOf_append_nil_cons (before after : List Fragment) :
    mergeAllOf (before ++ mergeAllOf [] :: after) = mergeAllOf (before ++ after) := by
  have hnone : mergeAllOf (mergeAllOf [] :: after) = mergeAllOf after := by
    rw [← List.singleton_append, mergeAllOf_append, mergeAllOf_singleton, ← mergeAllOf_append,
      List.nil_append]
  rw [mergeAllOf_append, hnone, ← mergeAllOf_append]

/-! ### Expanding the leaves -/

section Expand

variable {m : Type → Type} [Monad m] [LawfulMonad m] {follow : String → m Fragment}

theorem expandItems_append (items more : List Fragment) :
    expandItems follow (items ++ more) = do
      let first ← expandItems follow items
      let last ← expandItems follow more
      return first ++ last := by
  induction items with
  | nil => simp [expandItems]
  | cons item rest ih => simp [expandItems, ih]

theorem expandItems_singleton (fragment : Fragment) :
    expandItems follow [fragment] = do return [← fragment.expand follow] := by
  simp [expandItems]

mutual

/-- A fragment adds to a merge what its leaves add. -/
theorem mergeAllOf_map_expand_leaves : ∀ fragment : Fragment,
    (fun result ↦ mergeAllOf [result]) <$> fragment.expand follow =
      mergeAllOf <$> expandItems follow fragment.leaves
  | .composition members => by
    rw [leaves, ← mergeAllOf_map_expandItems_leaves members, expand]
    simp [mergeAllOf_singleton]
  | .any _ | .primitive .. | .array .. | .object .. | .reference _ => by
    simp [leaves, expandItems_singleton]

theorem mergeAllOf_map_expandItems_leaves : ∀ items : List Fragment,
    mergeAllOf <$> expandItems follow items =
      mergeAllOf <$> expandItems follow (leavesOfItems items)
  | [] => rfl
  | fragment :: rest => by
    have hfragment := mergeAllOf_map_expand_leaves fragment
    have hrest := mergeAllOf_map_expandItems_leaves rest
    calc mergeAllOf <$> expandItems follow (fragment :: rest)
      _ = do
          let first ← (fun result ↦ mergeAllOf [result]) <$> fragment.expand follow
          let last ← mergeAllOf <$> expandItems follow rest
          return mergeAllOf [first, last] := by
        simp only [expandItems, map_bind, bind_map_left, map_pure, ← mergeAllOf_append,
          List.singleton_append]
      _ = do
          let first ← mergeAllOf <$> expandItems follow fragment.leaves
          let last ← mergeAllOf <$> expandItems follow (leavesOfItems rest)
          return mergeAllOf [first, last] := by rw [hfragment, hrest]
      _ = mergeAllOf <$> expandItems follow (leavesOfItems (fragment :: rest)) := by
        simp only [leavesOfItems, expandItems_append, map_bind, bind_map_left, map_pure,
          ← mergeAllOf_append]

end

end Expand

end Fragment

namespace Resolver

open Fragment (mergeAllOf IsMerge)

theorem resolveWithin_composition (depth : Nat) (root : Json) (current : Path)
    (members : List Fragment) :
    resolveWithin depth root current (.composition members) =
      resolveWithin depth root current (.composition (Fragment.leavesOfItems members)) := by
  cases depth with
  | zero => rfl
  | succ depth =>
    have hparts : mergeAllOf <$> Fragment.expandItems (follow (resolveWithin depth) root current)
        members = _ := Fragment.mergeAllOf_map_expandItems_leaves members
    rw [resolveWithin, resolveWithin, Fragment.expand, Fragment.expand]
    simpa using hparts

/-- Merging is a homomorphism from lists of members, in whatever parts they are merged, with the
merge of none neutral; it says of each name what the last member says that declares it; and so a
resolver gives the same for compositions however they are nested. -/
theorem composition_laws (r : Resolver) (root : Json) (current : Path) :
    (∀ parts : List (List Fragment), mergeAllOf (parts.map mergeAllOf) = mergeAllOf parts.flatten) ∧
      (∀ before after : List Fragment,
        mergeAllOf (before ++ mergeAllOf [] :: after) = mergeAllOf (before ++ after)) ∧
      (∀ members : List Fragment, (∀ member ∈ members, member.properties.Unique) →
        IsMerge members (mergeAllOf members)) ∧
      ∀ members : List Fragment, r.resolve (.composition members) root current =
        r.resolve (.composition (Fragment.leavesOfItems members)) root current := by
  refine ⟨Fragment.mergeAllOf_map_mergeAllOf, Fragment.mergeAllOf_append_nil_cons,
    fun _ ↦ Fragment.isMerge_mergeAllOf, fun members ↦ ?_⟩
  have hrun := run_resolve r (.composition members) root current
  rw [resolveWithin_composition] at hrun
  exact run_eq_resolve r _ root current hrun

/-- A typed, an untyped and a typed member that shares a property with the first. -/
def sharingMembers : List Fragment :=
  [.object (some [("id", .primitive .string none []), ("name", .absent)]) (some ["id"]) none [],
    .any (.object [("required", .array [.string "plan", .string "id"]),
      ("additionalProperties", .bool false)]),
    .object (some [("plan", .absent), ("id", .primitive .integer none [])]) none none []]

theorem composition_laws_sharingMembers :
    (∀ member ∈ sharingMembers, member.properties.Unique) ∧
      (mergeAllOf sharingMembers).properties.keys = ["id", "name", "plan"] ∧
      (mergeAllOf sharingMembers).properties.get? "id" = some (.primitive .integer none []) ∧
      (mergeAllOf sharingMembers).required = ["id", "plan"] ∧
      (mergeAllOf sharingMembers).additional? = some (.any (.bool false)) := by
  have hunique : ∀ member ∈ sharingMembers, member.properties.keys.Nodup := by
    decide +kernel
  obtain ⟨-, -, hmerge, -⟩ := composition_laws { source := {} } .null ⟨"a.json"⟩
  have hsharing := hmerge sharingMembers hunique
  refine ⟨hunique, ?_, ?_, ?_, ?_⟩
  · rw [hsharing.names]
    decide +kernel
  · rw [hsharing.property]
    rfl
  · rw [hsharing.required]
    decide +kernel
  · rw [hsharing.additional]
    rfl

end Resolver

end EventSchema
