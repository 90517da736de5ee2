import EventSchema.Fragment.Merge
import EventSchema.Proofs.Entries
import Mathlib.Data.List.Induction

/-!
# What a merge keeps

Everything in the merge of a composition comes from a member (`Merged.From`), and what it holds for
a name is what the last member holds that declares it (`get?_properties_mergeAllOf`). The names
themselves, of the properties and of those required, are united in the order of their first
occurrences (`keys_properties_mergeAllOf`, `required_mergeAllOf`). To add a merge is to add its
members (`Merged.add_mergeAllOf`), so merging parts first and then their merges is merging all
(`mergeAllOf_map_mergeAllOf`).
-/

set_option autoImplicit false

namespace EventSchema.Fragment

/-! ### United names -/

section Unite

variable {names more others : List String} {name : String}

theorem unite_append : unite names (more ++ others) = unite (unite names more) others :=
  List.foldl_append

theorem unite_concat (names more : List String) (name : String) :
    unite names (more ++ [name]) =
      if name ∈ unite names more then unite names more else unite names more ++ [name] :=
  unite_append

theorem mem_unite : name ∈ unite names more ↔ name ∈ names ∨ name ∈ more := by
  induction more using List.reverseRecOn with
  | nil => simp [unite]
  | append_singleton more other ih =>
    rw [unite_concat, List.mem_append, List.mem_singleton, ← or_assoc, ← ih]
    by_cases hother : other ∈ unite names more
    · rw [if_pos hother]
      exact (or_iff_left_of_imp fun hname ↦ hname ▸ hother).symm
    · rw [if_neg hother, List.mem_append, List.mem_singleton]

theorem nodup_unite (hnodup : names.Nodup) : (unite names more).Nodup := by
  induction more using List.reverseRecOn with
  | nil => exact hnodup
  | append_singleton more other ih =>
    rw [unite_concat]
    by_cases hother : other ∈ unite names more
    · rwa [if_pos hother]
    · rw [if_neg hother]
      exact List.concat_eq_append ▸ ih.concat hother

/-- To add what was united is to add the names of both. The induction is on the names that come
last, which are new to the one union exactly if they are to the other. -/
theorem unite_unite : unite names (unite more others) = unite (unite names more) others := by
  induction others using List.reverseRecOn with
  | nil => rfl
  | append_singleton others other ih =>
    rw [unite_concat, unite_concat]
    by_cases hmore : other ∈ unite more others
    · have hother : other ∈ unite (unite names more) others := by
        rw [← ih]
        exact mem_unite.mpr (.inr hmore)
      rw [if_pos hmore, if_pos hother, ih]
    · rw [if_neg hmore, unite_concat, ih]

theorem unite_nil_eq_eraseDups : unite [] names = names.eraseDups := by
  induction names using List.reverseRecOn with
  | nil => rfl
  | append_singleton names name ih =>
    rw [unite_concat, List.eraseDups_append, ← ih]
    by_cases hname : name ∈ names
    · rw [if_pos (mem_unite.mpr (.inr hname))]
      simp [List.removeAll, hname]
    · rw [if_neg (by simpa [mem_unite] using hname)]
      simp [List.removeAll, hname, List.eraseDups_cons]

theorem keys_extend (entries added : Properties) :
    (entries.extend added).keys = unite entries.keys added.keys := by
  induction added generalizing entries with
  | nil => rfl
  | cons first rest ih =>
    refine (ih (entries.insert first.1 first.2)).trans ?_
    rw [Entries.keys_insert]
    rfl

/-- To insert into what is added is to insert afterwards. -/
theorem extend_insert {entries added : Properties} (hentries : entries.Unique)
    (hadded : added.Unique) (name : String) (part : Fragment) :
    entries.extend (added.insert name part) = (entries.extend added).insert name part := by
  refine (hentries.extend.insert name part).ext ?_ fun key ↦ ?_
  · have hkeys : (added.insert name part).keys = unite added.keys [name] := Entries.keys_insert ..
    rw [keys_extend, hkeys, unite_unite, ← keys_extend, Entries.keys_insert]
    rfl
  · rw [Entries.get?_extend (hadded.insert name part), Entries.get?_insert, Entries.get?_insert,
      Entries.get?_extend hadded]
    split_ifs
    · rfl
    · rfl

theorem extend_extend {entries added further : Properties} (hentries : entries.Unique)
    (hadded : added.Unique) :
    entries.extend (added.extend further) = (entries.extend added).extend further := by
  induction further generalizing added with
  | nil => rfl
  | cons first rest ih =>
    refine (ih (hadded.insert first.1 first.2)).trans ?_
    rw [extend_insert hentries hadded]
    rfl

end Unite

/-- What has been merged comes from the members. -/
structure Merged.From (members : List Fragment) (merged : Merged) : Prop where
  properties : ∀ entry ∈ merged.properties, ∃ member ∈ members, entry ∈ member.properties
  additional : ∀ part, merged.additional = some part →
    ∃ member ∈ members, member.additional? = some part

theorem Merged.From.add {members : List Fragment} {merged : Merged} (hfrom : merged.From members)
    (fragment : Fragment) : (merged.add fragment).From (members ++ [fragment]) := by
  constructor
  · intro entry hentry
    rcases Entries.mem_extend hentry with hentry | hentry
    · obtain ⟨member, hmember, hproperty⟩ := hfrom.properties entry hentry
      exact ⟨member, List.mem_append_left _ hmember, hproperty⟩
    · exact ⟨fragment, List.mem_append_right _ List.mem_cons_self, hentry⟩
  · intro part hpart
    rcases Option.or_eq_some_iff.mp hpart with hpart | ⟨-, hpart⟩
    · exact ⟨fragment, List.mem_append_right _ List.mem_cons_self, hpart⟩
    · obtain ⟨member, hmember, hadditional⟩ := hfrom.additional part hpart
      exact ⟨member, List.mem_append_left _ hmember, hadditional⟩

theorem Merged.From.foldl (members : List Fragment) :
    (members.foldl Merged.add {}).From members := by
  induction members using List.reverseRecOn with
  | nil =>
    refine ⟨fun entry hentry ↦ absurd hentry List.not_mem_nil, fun part hpart ↦ ?_⟩
    cases hpart
  | append_singleton members fragment ih =>
    rw [List.foldl_append]
    exact ih.add fragment

/-- The last member that declares a property decides what it is. -/
theorem get?_properties_mergeAllOf {members : List Fragment}
    (hunique : ∀ member ∈ members, member.properties.Unique) (name : String) :
    (mergeAllOf members).properties.get? name =
      members.reverse.findSome? fun member ↦ member.properties.get? name := by
  change (members.foldl Merged.add {}).properties.get? name = _
  induction members using List.reverseRecOn with
  | nil => rfl
  | append_singleton members member ih =>
    have hmember : member.properties.Unique :=
      hunique member (List.mem_append_right _ List.mem_cons_self)
    have hmembers := ih fun other hother ↦ hunique other (List.mem_append_left _ hother)
    rw [List.foldl_append, List.reverse_append, List.reverse_singleton, List.singleton_append,
      List.findSome?_cons, ← hmembers]
    refine (Entries.get?_extend hmember name).trans ?_
    cases member.properties.get? name <;> rfl

/-- So does the last member that declares further properties. -/
theorem additional?_mergeAllOf (members : List Fragment) :
    (mergeAllOf members).additional? = members.reverse.findSome? additional? := by
  change (members.foldl Merged.add {}).additional = _
  induction members using List.reverseRecOn with
  | nil => rfl
  | append_singleton members member ih =>
    rw [List.foldl_append, List.reverse_append, List.reverse_singleton, List.singleton_append,
      List.findSome?_cons, ← ih]
    change member.additional?.or _ = _
    cases member.additional? <;> rfl

theorem Merged.unique_properties_foldl {merged : Merged} (hunique : merged.properties.Unique)
    (members : List Fragment) : (members.foldl Merged.add merged).properties.Unique := by
  induction members using List.reverseRecOn with
  | nil => exact hunique
  | append_singleton members member ih =>
    rw [List.foldl_append]
    exact ih.extend

theorem unique_properties_mergeAllOf (members : List Fragment) :
    (mergeAllOf members).properties.Unique :=
  Merged.unique_properties_foldl (show Entries.Unique [] from List.nodup_nil) members

/-- A property is where it was first declared. -/
theorem keys_properties_mergeAllOf (members : List Fragment) :
    (mergeAllOf members).properties.keys =
      (members.flatMap fun member ↦ member.properties.keys).eraseDups := by
  rw [← unite_nil_eq_eraseDups]
  change (members.foldl Merged.add {}).properties.keys = _
  induction members using List.reverseRecOn with
  | nil => rfl
  | append_singleton members member ih =>
    rw [List.foldl_append, List.flatMap_append, unite_append, ← ih, List.flatMap_singleton,
      ← keys_extend]
    rfl

theorem required_mergeAllOf (members : List Fragment) :
    (mergeAllOf members).required = (members.flatMap required).eraseDups := by
  rw [← unite_nil_eq_eraseDups]
  change (members.foldl Merged.add {}).required = _
  induction members using List.reverseRecOn with
  | nil => rfl
  | append_singleton members member ih =>
    rw [List.foldl_append, List.flatMap_append, unite_append, ← ih, List.flatMap_singleton]
    rfl

theorem nodup_required_mergeAllOf (members : List Fragment) :
    (mergeAllOf members).required.Nodup := by
  rw [required_mergeAllOf, ← unite_nil_eq_eraseDups]
  exact nodup_unite List.nodup_nil

/-! ### Merges of merges -/

/-- To add a merge is to add its members one after the other. -/
theorem Merged.add_mergeAllOf {merged : Merged} (hunique : merged.properties.Unique)
    (members : List Fragment) :
    merged.add (mergeAllOf members) = members.foldl Merged.add merged := by
  induction members using List.reverseRecOn with
  | nil => rfl
  | append_singleton members member ih =>
    rw [List.foldl_append, List.foldl_cons, List.foldl_nil, ← ih]
    have hinner := unique_properties_mergeAllOf members
    have hsplit : mergeAllOf (members ++ [member]) =
        ((members.foldl Merged.add {}).add member).toFragment := by
      rw [mergeAllOf, List.foldl_append]
      rfl
    rw [hsplit]
    rw [mergeAllOf] at hinner ⊢
    generalize members.foldl Merged.add {} = inner at hinner ⊢
    exact (Merged.mk.injEq ..).mpr ⟨extend_extend hunique hinner, unite_unite, Option.or_assoc⟩

theorem mergeAllOf_map_mergeAllOf (parts : List (List Fragment)) :
    mergeAllOf (parts.map mergeAllOf) = mergeAllOf parts.flatten := by
  have hfold (merged : Merged) (hunique : merged.properties.Unique) :
      (parts.map mergeAllOf).foldl Merged.add merged = parts.flatten.foldl Merged.add merged := by
    induction parts generalizing merged with
    | nil => rfl
    | cons part rest ih =>
      rw [List.map_cons, List.foldl_cons, List.flatten_cons, List.foldl_append,
        Merged.add_mergeAllOf hunique, ih _ (Merged.unique_properties_foldl hunique part)]
  rw [mergeAllOf, mergeAllOf, hfold {} List.nodup_nil]

end EventSchema.Fragment
