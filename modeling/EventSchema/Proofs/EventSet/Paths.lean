import EventSchema.EventSet
import EventSchema.Proofs.Path.Order
import Mathlib.Data.List.Sort
import Mathlib.Data.List.TakeWhile

/-!
# The paths of a load

A load reads the given paths in path order, each place once. Sorting keeps the order of the
spellings of one place, so what is kept of them is the one that was given first
(`mem_distinctPaths_iff`), and two lists lead to the same loads if they give every place the same
spelling first (`distinctPaths_congr`).
-/

set_option autoImplicit false

namespace EventSchema.EventSet

variable {path other : Path} {paths : List Path}

theorem dropRepeated_subset (paths : List Path) :
    distinctPaths.dropRepeated paths ⊆ paths := by
  induction paths with
  | nil => exact List.Subset.refl _
  | cons path rest ih =>
    rw [distinctPaths.dropRepeated]
    intro other hother
    rcases List.mem_cons.mp hother with rfl | hother
    · exact List.mem_cons_self
    · exact List.mem_cons_of_mem _ (ih ((List.dropWhile_sublist _).subset hother))

theorem distinctPaths_subset (paths : List Path) : distinctPaths paths ⊆ paths := fun _ hpath ↦
  List.mem_mergeSort.mp (dropRepeated_subset _ hpath)

/-! ### Dropping repeated places -/

theorem rank_lt_of_mem_dropWhile (hsorted : paths.Pairwise fun a b ↦ a.rank < b.rank)
    (hpath : ∀ other ∈ paths, path.rank ≤ other.rank) (hmem : other ∈ paths.dropWhile path.same) :
    path.rank < other.rank := by
  induction paths with
  | nil => exact absurd hmem List.not_mem_nil
  | cons first rest ih =>
    obtain ⟨hfirst, hrest⟩ := List.pairwise_cons.mp hsorted
    obtain ⟨hle, hpath⟩ := List.forall_mem_cons.mp hpath
    rw [List.dropWhile_cons] at hmem
    split_ifs at hmem with hsame
    · exact ih hrest hpath hmem
    · have hlt : path.rank < first.rank := lt_of_le_of_ne hle (hsame ∘ Path.same_iff.mpr)
      rcases List.mem_cons.mp hmem with rfl | hmem
      · exact hlt
      · exact hlt.trans (hfirst other hmem)

theorem mem_dropWhile_of_not (hmem : other ∈ paths) (hsame : path.same other = false) :
    other ∈ paths.dropWhile path.same := by
  rw [← List.takeWhile_append_dropWhile (p := path.same) (l := paths)] at hmem
  refine (List.mem_append.mp hmem).resolve_left fun htaken ↦ ?_
  rw [List.mem_takeWhile_imp htaken] at hsame
  cases hsame

section Sorted

variable (hsorted : paths.Pairwise fun a b ↦ a.rank ≤ b.rank)

include hsorted

theorem pairwise_dropRepeated :
    (distinctPaths.dropRepeated paths).Pairwise fun a b ↦ a.rank < b.rank := by
  induction paths with
  | nil => exact .nil
  | cons first rest ih =>
    obtain ⟨hfirst, hrest⟩ := List.pairwise_cons.mp hsorted
    rw [distinctPaths.dropRepeated, List.pairwise_cons]
    refine ⟨fun other hother ↦ ?_, (ih hrest).sublist (List.dropWhile_sublist _)⟩
    refine rank_lt_of_mem_dropWhile (ih hrest) (fun later hlater ↦ ?_) hother
    exact hfirst later (dropRepeated_subset rest hlater)

/-- Of the spellings of a place the first is kept. -/
theorem mem_dropRepeated_iff :
    path ∈ distinctPaths.dropRepeated paths ↔ paths.find? path.same = some path := by
  induction paths with
  | nil => simp [distinctPaths.dropRepeated]
  | cons first rest ih =>
    obtain ⟨hfirst, hrest⟩ := List.pairwise_cons.mp hsorted
    rw [distinctPaths.dropRepeated, List.mem_cons, List.find?_cons]
    cases hsame : path.same first with
    | true =>
      have hnot : path ∉ (distinctPaths.dropRepeated rest).dropWhile first.same := by
        intro hmem
        have hlt := rank_lt_of_mem_dropWhile (pairwise_dropRepeated hrest)
          (fun later hlater ↦ hfirst later (dropRepeated_subset rest hlater)) hmem
        exact hlt.ne' (Path.same_iff.mp hsame)
      simp [hnot, eq_comm]
    | false =>
      have hne : path.rank ≠ first.rank := fun h ↦ by simp [Path.same_iff.mpr h] at hsame
      rw [← ih hrest]
      constructor
      · rintro (rfl | hmem)
        · exact absurd rfl hne
        · exact (List.dropWhile_sublist _).subset hmem
      · intro hmem
        refine .inr (mem_dropWhile_of_not hmem ?_)
        exact Bool.eq_false_iff.mpr fun h ↦ hne (Path.same_iff.mp h).symm

end Sorted

/-! ### Sorting -/

theorem not_lt_iff : (!other.lt path) = true ↔ path.rank ≤ other.rank := by
  rw [Bool.not_eq_true', ← Bool.not_eq_true, Path.lt_iff, not_lt]

theorem not_lt_trans (a b c : Path) (hab : (!b.lt a) = true) (hbc : (!c.lt b) = true) :
    (!c.lt a) = true := not_lt_iff.mpr ((not_lt_iff.mp hab).trans (not_lt_iff.mp hbc))

theorem not_lt_total (a b : Path) : (!b.lt a || !a.lt b) = true := by
  rw [Bool.or_eq_true, not_lt_iff, not_lt_iff]
  exact le_total a.rank b.rank

theorem pairwise_mergeSort (paths : List Path) :
    (paths.mergeSort fun a b ↦ !b.lt a).Pairwise fun a b ↦ a.rank ≤ b.rank :=
  (List.pairwise_mergeSort not_lt_trans not_lt_total paths).imp not_lt_iff.mp

/-- Sorting does not move the spellings of a place past each other. -/
theorem filter_same_mergeSort (path : Path) (paths : List Path) :
    (paths.mergeSort fun a b ↦ !b.lt a).filter path.same = paths.filter path.same := by
  have hrank {a : Path} (ha : a ∈ paths.filter path.same) : path.rank = a.rank :=
    Path.same_iff.mp (List.mem_filter.mp ha).2
  have hspellings : (paths.filter path.same).Pairwise fun a b ↦ (!b.lt a) = true :=
    List.pairwise_of_forall_mem_list fun a ha b hb ↦
      not_lt_iff.mpr (le_of_eq ((hrank ha).symm.trans (hrank hb)))
  have hsublist := (List.sublist_mergeSort not_lt_trans not_lt_total hspellings
    List.filter_sublist).filter path.same
  rw [List.filter_filter] at hsublist
  simp only [Bool.and_self] at hsublist
  have hlength := ((List.mergeSort_perm paths fun a b ↦ !b.lt a).filter path.same).length_eq
  exact (hsublist.eq_of_length hlength.symm).symm

/-! ### The distinct paths -/

theorem pairwise_distinctPaths (paths : List Path) :
    (distinctPaths paths).Pairwise fun a b ↦ a.rank < b.rank :=
  pairwise_dropRepeated (pairwise_mergeSort paths)

/-- Of the spellings of a place the one that was given first is kept. -/
theorem mem_distinctPaths_iff :
    path ∈ distinctPaths paths ↔ paths.find? path.same = some path := by
  rw [distinctPaths, mem_dropRepeated_iff (pairwise_mergeSort paths), ← List.head?_filter,
    filter_same_mergeSort, List.head?_filter]

/-- Every given path has a spelling that is kept. -/
theorem exists_same_of_mem (hpath : path ∈ paths) :
    ∃ kept ∈ distinctPaths paths, path.same kept = true := by
  obtain ⟨kept, hkept⟩ := Option.isSome_iff_exists.mp
    (List.find?_isSome.mpr ⟨path, hpath, Path.same_iff.mpr rfl⟩)
  have hsame : path.same kept = true := List.find?_some hkept
  refine ⟨kept, mem_distinctPaths_iff.mpr ?_, hsame⟩
  rw [← Path.same_congr hsame, hkept]

theorem distinctPaths_congr {xs ys : List Path}
    (hfirst : ∀ path : Path, xs.find? path.same = ys.find? path.same) :
    distinctPaths xs = distinctPaths ys := by
  have : Std.Antisymm fun a b : Path ↦ a.rank < b.rank := ⟨fun a b h h' ↦ absurd h' h.asymm⟩
  have : Std.Irrefl fun a b : Path ↦ a.rank < b.rank := ⟨fun a ↦ lt_irrefl a.rank⟩
  refine (pairwise_distinctPaths xs).eq_of_mem_iff (pairwise_distinctPaths ys) fun path ↦ ?_
  rw [mem_distinctPaths_iff, mem_distinctPaths_iff, hfirst]

theorem distinctPaths_pair (hsame : path.same other = true) :
    distinctPaths [path, other] = distinctPaths [path] := by
  refine distinctPaths_congr fun place ↦ ?_
  have hother : place.same other = place.same path := by
    rw [Bool.eq_iff_iff, Path.same_iff, Path.same_iff, Path.same_iff.mp hsame]
  rw [List.find?_cons, List.find?_cons, List.find?_cons, hother]
  cases place.same path <;> rfl

theorem dropRepeated_eq_self (hsorted : paths.Pairwise fun a b ↦ a.rank < b.rank) :
    distinctPaths.dropRepeated paths = paths := by
  induction paths with
  | nil => rfl
  | cons first rest ih =>
    obtain ⟨hfirst, hrest⟩ := List.pairwise_cons.mp hsorted
    rw [distinctPaths.dropRepeated, ih hrest]
    cases rest with
    | nil => rfl
    | cons second rest =>
      have hne : ¬first.same second = true := fun h ↦
        (hfirst second List.mem_cons_self).ne (Path.same_iff.mp h)
      rw [List.dropWhile_cons_of_neg hne]

theorem distinctPaths_eq_self (hsorted : paths.Pairwise fun a b ↦ a.rank < b.rank) :
    distinctPaths paths = paths := by
  rw [distinctPaths, List.mergeSort_of_pairwise (hsorted.imp fun h ↦ not_lt_iff.mpr h.le),
    dropRepeated_eq_self hsorted]

end EventSchema.EventSet
