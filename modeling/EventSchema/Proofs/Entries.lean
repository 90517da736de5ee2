import EventSchema.Entries
import EventSchema.Proofs.Outcome
import Mathlib.Data.List.Nodup
import Mathlib.Data.List.Perm.Basic
import Mathlib.Tactic.SplitIfs

/-!
# Entries of ordered maps

Where no key has two entries, every entry is the one that a look-up finds (`Unique.get?_of_mem`),
insertions keep it so, and extending a map by one that shares no key with it puts the second after
the first (`extend_eq_append`). Two maps can hold related values under the same keys, in any order
(`Alike`) or in one order (`Aligned`).
-/

set_option autoImplicit false

namespace EventSchema.Entries

variable {α : Type} {entries more : Entries α} {key : String} {value : α} {entry : String × α}

theorem mem_of_get? (hget : entries.get? key = some value) : (key, value) ∈ entries := by
  induction entries with
  | nil => exact absurd hget (by simp)
  | cons entry rest ih =>
    rw [get?_cons] at hget
    by_cases hkey : entry.1 = key
    · rw [if_pos hkey, Option.some_inj] at hget
      rw [← hkey, ← hget]
      exact List.mem_cons_self
    · rw [if_neg hkey] at hget
      exact List.mem_cons_of_mem _ (ih hget)

theorem get?_eq_none_iff : entries.get? key = none ↔ key ∉ entries.keys := by
  induction entries with
  | nil => simp [keys]
  | cons entry rest ih =>
    rw [get?_cons]
    by_cases hkey : entry.1 = key
    · simp [hkey, keys]
    · simpa [hkey, keys, Ne.symm hkey] using ih

theorem mem_insert (hmem : entry ∈ entries.insert key value) :
    entry ∈ entries ∨ entry = (key, value) := by
  induction entries with
  | nil => exact .inr (List.mem_singleton.mp hmem)
  | cons first rest ih =>
    obtain ⟨other, old⟩ := first
    rw [insert] at hmem
    by_cases hkey : other = key
    · rw [if_pos hkey] at hmem
      rcases List.mem_cons.mp hmem with rfl | hmem
      · exact .inr (by rw [hkey])
      · exact .inl (List.mem_cons_of_mem _ hmem)
    · rw [if_neg hkey] at hmem
      rcases List.mem_cons.mp hmem with rfl | hmem
      · exact .inl List.mem_cons_self
      · exact (ih hmem).imp_left (List.mem_cons_of_mem _)

/-- The entries and the new one, but for the one that gives way to it. -/
theorem length_insert (entries : Entries α) (key : String) (value : α) :
    (entries.get? key).toList.length + (entries.insert key value).length = entries.length + 1 := by
  induction entries with
  | nil => rfl
  | cons first rest ih =>
    rw [get?_cons, insert]
    by_cases hkey : first.1 = key
    · rw [if_pos hkey, if_pos hkey]
      exact Nat.add_comm _ _
    · rw [if_neg hkey, if_neg hkey, List.length_cons, List.length_cons, ← ih, Nat.add_assoc]

theorem mem_insertSome {value : Option α} (hmem : entry ∈ entries.insertSome key value) :
    entry ∈ entries ∨ ∃ inner, value = some inner ∧ entry = (key, inner) := by
  cases value with
  | none => exact .inl hmem
  | some inner => exact (mem_insert hmem).imp_right fun hentry ↦ ⟨inner, rfl, hentry⟩

theorem mem_extend (hmem : entry ∈ entries.extend more) : entry ∈ entries ∨ entry ∈ more := by
  induction more generalizing entries with
  | nil => exact .inl hmem
  | cons first rest ih =>
    rcases ih hmem with hmem | hmem
    · refine (mem_insert hmem).imp_right ?_
      rintro rfl
      exact List.mem_cons_self
    · exact .inr (List.mem_cons_of_mem _ hmem)

/-! ### Distinct keys -/

theorem Unique.of_keys_eq {β : Type} {others : Entries β} (hunique : entries.Unique)
    (hkeys : others.keys = entries.keys) : others.Unique := by
  rw [Unique, hkeys]
  exact hunique

theorem Unique.nodup (hunique : entries.Unique) : entries.Nodup :=
  List.Nodup.of_map Prod.fst hunique

/-- Maps without repeated keys that have the same entries have them in two orders. -/
theorem Unique.perm {others : Entries α} (hunique : entries.Unique) (hothers : others.Unique)
    (hmem : ∀ entry, entry ∈ entries ↔ entry ∈ others) :
    entries.Perm others :=
  (List.perm_ext_iff_of_nodup hunique.nodup hothers.nodup).mpr hmem

/-- What a look-up finds under each key and the order of the keys are all there is. -/
theorem Unique.ext {others : Entries α} (hunique : entries.Unique)
    (hkeys : others.keys = entries.keys) (hget : ∀ key, others.get? key = entries.get? key) :
    others = entries := by
  induction entries generalizing others with
  | nil => exact List.map_eq_nil_iff.mp hkeys
  | cons first rest ih =>
    obtain ⟨other, others, rfl, hother, hothers⟩ := List.map_eq_cons_iff.mp hkeys
    obtain ⟨hfirst, hrest⟩ := List.nodup_cons.mp hunique
    have hvalue : other.2 = first.2 := by
      have hsame := hget first.1
      rwa [get?_cons, get?_cons, if_pos hother, if_pos rfl, Option.some_inj] at hsame
    have hnone (map : Entries α) (hmap : map.keys = keys rest) : map.get? first.1 = none :=
      get?_eq_none_iff.mpr (hmap ▸ hfirst)
    have hrests : others = rest := by
      refine ih hrest hothers fun key ↦ ?_
      by_cases hkey : first.1 = key
      · rw [← hkey, hnone others hothers, hnone rest rfl]
      · have hsame := hget key
        rwa [get?_cons, get?_cons, hother, if_neg hkey, if_neg hkey] at hsame
    rw [hrests, Prod.ext hother hvalue]

theorem Unique.insert (hunique : entries.Unique) (key : String) (value : α) :
    (entries.insert key value).Unique := by
  rw [Unique, keys_insert]
  split_ifs with hkey
  · exact hunique
  · refine List.nodup_append.mpr ⟨hunique, List.nodup_singleton key, ?_⟩
    rintro other hother _ hmem rfl
    exact hkey (List.mem_singleton.mp hmem ▸ hother)

theorem Unique.get?_of_mem (hunique : entries.Unique) (hmem : (key, value) ∈ entries) :
    entries.get? key = some value := by
  induction entries with
  | nil => exact absurd hmem List.not_mem_nil
  | cons entry rest ih =>
    obtain ⟨hfirst, hrest⟩ := List.nodup_cons.mp hunique
    rw [get?_cons]
    rcases List.mem_cons.mp hmem with rfl | hmem
    · rw [if_pos rfl]
    · have hkey : key ∈ keys rest := List.mem_map_of_mem (f := Prod.fst) hmem
      have hne : entry.1 ≠ key := fun h ↦ hfirst (h ▸ hkey)
      rw [if_neg hne, ih hrest hmem]

theorem Unique.filter (hunique : entries.Unique) (keep : String × α → Bool) :
    Unique (entries.filter keep) :=
  hunique.sublist (List.filter_sublist.map Prod.fst)

/-- The later map wins at the keys that it has. -/
theorem get?_extend (hunique : more.Unique) (key : String) :
    (entries.extend more).get? key = (more.get? key).or (entries.get? key) := by
  induction more generalizing entries with
  | nil => rfl
  | cons first rest ih =>
    obtain ⟨hfirst, hrest⟩ := List.nodup_cons.mp hunique
    have hextend := @ih (entries.insert first.1 first.2) hrest
    rw [get?_insert] at hextend
    refine hextend.trans ?_
    rw [get?_cons]
    by_cases hkey : first.1 = key
    · have hnone : get? rest key = none := by
        rw [← hkey]
        exact get?_eq_none_iff.mpr hfirst
      rw [if_pos hkey, if_pos hkey, hnone]
      rfl
    · rw [if_neg hkey, if_neg hkey]

theorem Unique.extend (hunique : entries.Unique) : (entries.extend more).Unique := by
  induction more generalizing entries with
  | nil => exact hunique
  | cons first rest ih => exact ih (hunique.insert first.1 first.2)

/-- A new key comes last. -/
theorem insert_eq_append (hkey : key ∉ entries.keys) :
    entries.insert key value = entries ++ [(key, value)] := by
  induction entries with
  | nil => rfl
  | cons first rest ih =>
    obtain ⟨hne, hrest⟩ := not_or.mp (List.mem_cons.not.mp hkey)
    rw [insert, if_neg (Ne.symm hne), ih hrest, List.cons_append]

theorem Unique.not_mem_keys (hunique : (entries ++ (key, value) :: more).Unique) :
    key ∉ entries.keys := by
  intro hmem
  rw [Unique, keys, List.map_append] at hunique
  exact (List.nodup_append.mp hunique).2.2 key hmem key List.mem_cons_self rfl

theorem extend_eq_append (hunique : (entries ++ more).Unique) :
    entries.extend more = entries ++ more := by
  induction more generalizing entries with
  | nil => exact (List.append_nil entries).symm
  | cons first rest ih =>
    have hinsert : entries.insert first.1 first.2 = entries ++ [first] :=
      insert_eq_append hunique.not_mem_keys
    rw [List.append_cons] at hunique ⊢
    exact (congrArg (extend · rest) hinsert).trans (ih hunique)

/-! ### Changing the values -/

section MapValues

variable {β : Type} (change : α → β)

def mapValues (entries : Entries α) : Entries β :=
  entries.map fun entry ↦ (entry.1, change entry.2)

theorem get?_mapValues (entries : Entries α) (key : String) :
    (entries.mapValues change).get? key = (entries.get? key).map change := by
  induction entries with
  | nil => rfl
  | cons entry rest ih =>
    rw [mapValues, List.map_cons, ← mapValues, get?_cons, get?_cons, ih]
    split_ifs <;> rfl

theorem mapValues_insert (entries : Entries α) (key : String) (value : α) :
    (entries.insert key value).mapValues change =
      (entries.mapValues change).insert key (change value) := by
  induction entries with
  | nil => rfl
  | cons entry rest ih =>
    rw [mapValues, mapValues, List.map_cons, insert, insert]
    split_ifs
    · rfl
    · exact congrArg _ ih

theorem values_mapValues (entries : Entries α) :
    (entries.mapValues change).values = entries.values.map change := by
  rw [values, values, mapValues, List.map_map, List.map_map]
  rfl

theorem keys_mapValues (entries : Entries α) : (entries.mapValues change).keys = entries.keys := by
  rw [keys, keys, mapValues, List.map_map]
  rfl

end MapValues

theorem keys_append (entries more : Entries α) :
    keys (entries ++ more) = entries.keys ++ more.keys :=
  List.map_append

theorem get?_append (entries more : Entries α) (key : String) :
    get? (entries ++ more) key = (entries.get? key).or (more.get? key) := by
  induction entries with
  | nil => rfl
  | cons first rest ih =>
    rw [List.cons_append, get?_cons, get?_cons, ih]
    split_ifs <;> rfl

/-- A filter that keeps what a look-up finds does not change what it finds. -/
theorem get?_filter {keep : String × α → Bool}
    (hkeep : ∀ value, entries.get? key = some value → keep (key, value) = true) :
    get? (entries.filter keep) key = entries.get? key := by
  induction entries with
  | nil => rfl
  | cons first rest ih =>
    obtain ⟨other, old⟩ := first
    simp only [get?_cons] at hkeep
    rw [get?_cons]
    by_cases hkey : other = key
    · have hfirst : keep (other, old) = true := hkey ▸ hkeep old (if_pos hkey)
      rw [List.filter_cons_of_pos hfirst, get?_cons, if_pos hkey, if_pos hkey]
    · rw [if_neg hkey] at hkeep ⊢
      rw [List.filter_cons]
      split_ifs
      · rw [get?_cons, if_neg hkey, ih hkeep]
      · exact ih hkeep

/-- Where a key has one entry, a look-up finds it in a filter if it is kept. -/
theorem Unique.get?_filter (hunique : entries.Unique) (keep : String × α → Bool) (key : String) :
    get? (entries.filter keep) key = (entries.get? key).filter fun value ↦ keep (key, value) := by
  cases hget : entries.get? key with
  | none =>
    refine get?_eq_none_iff.mpr fun hmem ↦ get?_eq_none_iff.mp hget ?_
    exact (List.filter_sublist.map Prod.fst).subset hmem
  | some value =>
    rw [Option.filter_some]
    by_cases hkeep : keep (key, value) = true
    · rw [if_pos hkeep, Entries.get?_filter, hget]
      rintro other hother
      rwa [Option.some.inj (hother.symm.trans hget)]
    · rw [if_neg hkeep]
      refine get?_eq_none_iff.mpr fun hmem ↦ hkeep ?_
      obtain ⟨⟨_, other⟩, hentry, rfl⟩ := List.mem_map.mp hmem
      obtain ⟨hentry, hkept⟩ := List.mem_filter.mp hentry
      rwa [← Option.some.inj (hget.symm.trans (hunique.get?_of_mem hentry))] at hkept

theorem get?_filter_ne (entries : Entries α) (key wanted : String) :
    get? (entries.filter (·.1 ≠ key)) wanted =
      if wanted = key then none else entries.get? wanted := by
  induction entries with
  | nil => simp
  | cons first rest ih =>
    rw [List.filter_cons, get?_cons]
    by_cases hkey : first.1 = key
    · rw [if_neg (by simpa using hkey), ih]
      split_ifs with hwanted hfirst
      · rfl
      · exact absurd (hfirst.symm.trans hkey) hwanted
      · rfl
    · rw [if_pos (by simpa using hkey), get?_cons, ih]
      split_ifs with hfirst hwanted
      · exact absurd (hfirst.trans hwanted) hkey
      · rfl
      · rfl
      · rfl

/-! ### Alike maps -/

/-- Both maps have the same keys, each of them once, and related values under them. -/
structure Alike {α β : Type} (R : α → β → Prop) (xs : Entries α) (ys : Entries β) : Prop where
  left : xs.Unique
  right : ys.Unique
  get? (key : String) : Option.Rel R (xs.get? key) (ys.get? key)

namespace Alike

variable {α β γ δ : Type} {R : α → β → Prop} {S : γ → δ → Prop} {xs xs' : Entries α}
  {ys ys' : Entries β} {key : String} {x : α} {y : β}

theorem exists_left (halike : Alike R xs ys) (hy : ys.get? key = some y) :
    ∃ x, xs.get? key = some x ∧ R x y := by
  have hrel := halike.get? key
  rw [hy] at hrel
  generalize xs.get? key = found at hrel ⊢
  cases hrel with
  | some hrel => exact ⟨_, rfl, hrel⟩

theorem exists_left_of_mem (halike : Alike R xs ys) (hy : (key, y) ∈ ys) :
    ∃ x, (key, x) ∈ xs ∧ R x y := by
  obtain ⟨x, hx, hrel⟩ := halike.exists_left (halike.right.get?_of_mem hy)
  exact ⟨x, mem_of_get? hx, hrel⟩

theorem exists_right_of_mem (halike : Alike R xs ys) (hx : (key, x) ∈ xs) :
    ∃ y, (key, y) ∈ ys ∧ R x y := by
  have hrel := halike.get? key
  rw [halike.left.get?_of_mem hx] at hrel
  generalize hy : ys.get? key = found at hrel
  cases hrel with
  | some hrel => exact ⟨_, mem_of_get? hy, hrel⟩

theorem nil : Alike R [] [] := ⟨List.nodup_nil, List.nodup_nil, fun _ ↦ .none⟩

theorem insert (halike : Alike R xs ys) (key : String) (hrel : R x y) :
    Alike R (xs.insert key x) (ys.insert key y) := by
  refine ⟨halike.left.insert key x, halike.right.insert key y, fun wanted ↦ ?_⟩
  rw [get?_insert, get?_insert]
  split_ifs
  · exact .some hrel
  · exact halike.get? wanted

theorem insertSome (halike : Alike R xs ys) (key : String) {value : Option α} {value' : Option β}
    (hrel : Option.Rel R value value') :
    Alike R (xs.insertSome key value) (ys.insertSome key value') := by
  cases hrel with
  | none => exact halike
  | some hrel => exact halike.insert key hrel

theorem extend (halike : Alike R xs ys) (hmore : Alike R xs' ys') :
    Alike R (xs.extend xs') (ys.extend ys') := by
  refine ⟨halike.left.extend, halike.right.extend, fun wanted ↦ ?_⟩
  rw [get?_extend hmore.left, get?_extend hmore.right]
  exact rel_or (hmore.get? wanted) (halike.get? wanted)

theorem mapValues (halike : Alike R xs ys) {change : α → γ} {change' : β → δ}
    (hchange : ∀ key x y, xs.get? key = some x → ys.get? key = some y → R x y →
      S (change x) (change' y)) :
    Alike S (xs.mapValues change) (ys.mapValues change') := by
  refine ⟨halike.left.of_keys_eq (keys_mapValues change xs),
    halike.right.of_keys_eq (keys_mapValues change' ys), fun wanted ↦ ?_⟩
  rw [get?_mapValues, get?_mapValues]
  have hrel := halike.get? wanted
  generalize hx : xs.get? wanted = found at hrel ⊢
  generalize hy : ys.get? wanted = found' at hrel ⊢
  cases hrel with
  | none => exact .none
  | some hrel => exact .some (hchange wanted _ _ hx hy hrel)

end Alike

/-- Related values under the given keys, in their order. -/
inductive Aligned {α β : Type} (R : α → β → Prop) : List String → Entries α → Entries β → Prop
  | nil : Aligned R [] [] []
  | cons {keys : List String} {xs : Entries α} {ys : Entries β} {x : α} {y : β} (key : String)
    (hfirst : R x y) (hrest : Aligned R keys xs ys) :
    Aligned R (key :: keys) ((key, x) :: xs) ((key, y) :: ys)

namespace Aligned

variable {α β : Type} {R : α → β → Prop} {keys : List String} {xs : Entries α} {ys : Entries β}

theorem keys_eq (haligned : Aligned R keys xs ys) : xs.keys = keys ∧ ys.keys = keys := by
  induction haligned with
  | nil => exact ⟨rfl, rfl⟩
  | cons key _ _ ih => exact ⟨congrArg (key :: ·) ih.1, congrArg (key :: ·) ih.2⟩

theorem get? (haligned : Aligned R keys xs ys) (key : String) :
    Option.Rel R (xs.get? key) (ys.get? key) := by
  induction haligned with
  | nil => exact .none
  | cons other hfirst _ ih =>
    rw [get?_cons, get?_cons]
    split_ifs
    · exact .some hfirst
    · exact ih

/-- Where no key is there twice, the order does not matter. -/
theorem alike (haligned : Aligned R keys xs ys) (hkeys : keys.Nodup) : Alike R xs ys := by
  obtain ⟨hleft, hright⟩ := haligned.keys_eq
  exact ⟨by rwa [Unique, hleft], by rwa [Unique, hright], haligned.get?⟩

theorem exists_left (haligned : Aligned R keys xs ys) {key : String} {y : β}
    (hmem : (key, y) ∈ ys) : ∃ x, (key, x) ∈ xs ∧ R x y := by
  induction haligned with
  | nil => exact absurd hmem List.not_mem_nil
  | cons other hfirst _ ih =>
    rcases List.mem_cons.mp hmem with heq | hmem
    · obtain ⟨rfl, rfl⟩ := Prod.mk.inj heq
      exact ⟨_, List.mem_cons_self, hfirst⟩
    · obtain ⟨x, hx, hrel⟩ := ih hmem
      exact ⟨x, List.mem_cons_of_mem _ hx, hrel⟩

theorem imp {S : α → β → Prop} (haligned : Aligned R keys xs ys)
    (himp : ∀ key x y, (key, x) ∈ xs → R x y → S x y) : Aligned S keys xs ys := by
  induction haligned with
  | nil => exact .nil
  | cons key hfirst _ ih =>
    refine .cons key (himp key _ _ List.mem_cons_self hfirst) (ih fun key x y hmem ↦ ?_)
    exact himp key x y (List.mem_cons_of_mem _ hmem)

theorem filter {keep : String × α → Bool} {keep' : String × β → Bool}
    (haligned : Aligned R keys xs ys)
    (hkeep : ∀ key x y, R x y → keep (key, x) = keep' (key, y)) :
    ∃ kept, Aligned R kept (xs.filter keep) (ys.filter keep') := by
  induction haligned with
  | nil => exact ⟨[], .nil⟩
  | cons key hfirst _ ih =>
    obtain ⟨kept, ih⟩ := ih
    rw [List.filter_cons, List.filter_cons, hkeep key _ _ hfirst]
    split_ifs
    · exact ⟨_, .cons key hfirst ih⟩
    · exact ⟨_, ih⟩

theorem append {keys' : List String} {xs' : Entries α} {ys' : Entries β}
    (haligned : Aligned R keys xs ys) (hmore : Aligned R keys' xs' ys') :
    Aligned R (keys ++ keys') (xs ++ xs') (ys ++ ys') := by
  induction haligned with
  | nil => exact hmore
  | cons key hfirst _ ih => exact .cons key hfirst ih

theorem mapValues {γ : Type} {entries : Entries γ} {change : γ → α} {change' : γ → β}
    (hchange : ∀ entry ∈ entries, R (change entry.2) (change' entry.2)) :
    Aligned R entries.keys (entries.mapValues change) (entries.mapValues change') := by
  induction entries with
  | nil => exact .nil
  | cons entry rest ih =>
    rw [List.forall_mem_cons] at hchange
    exact .cons entry.1 hchange.1 (ih hchange.2)

end Aligned

end EventSchema.Entries
