import EventSchema.Proofs.Disk.Places
import EventSchema.Proofs.Path.Normal

/-!
# Where paths lead

Seen from a directory a path names a place, whether anything stands there or not (`Path.place`). A
path that leads to something on a disk leads to that place (`Disk.locate_eq_place`).

A normal form is the root or so many levels up, and then names (`isReduced_normalize`). Each step of
normalising goes on from where the components so far lead (`foldl_next_normalStep`), so a normal
form names the place that the path names, from every directory (`place_normalize`). No other normal
form does (`normalize_eq_normalize_iff_place`). Normal forms are therefore representatives of what
paths denote, also when another path is joined to them (`normalize_canonical`), and what is kept
under a normal form is kept for one place of the disk (`Disk.locate_eq_of_normalize`).
-/

set_option autoImplicit false

namespace EventSchema.Path

/-- The place one component on. What is above the root is the root. -/
def Component.next (place : List String) : Component → List String
  | .root => []
  | .here => place
  | .up => place.dropLast
  | .name text => place ++ [text]

/-- The place that a path names, seen from a directory. -/
def place (path : Path) (start : List String) : List String :=
  path.components.foldl Component.next start

variable {path other : Path} {components before first second : List Component}

/-! ### Normalising and places -/

/-- A step of normalising leads one component on from where the components so far lead. -/
theorem foldl_next_normalStep (before : List Component) (component : Component)
    (start : List String) : (normalStep before component).reverse.foldl Component.next start =
      Component.next (before.reverse.foldl Component.next start) component := by
  cases component with
  | here => rfl
  | root | name => simp [normalStep]
  | up =>
    cases before with
    | nil => rfl
    | cons last rest =>
      -- only a name goes away with the `..` behind it, and above the root there is nothing
      cases last <;> simp [normalStep, Component.next]

theorem foldl_next_foldl (components before : List Component) (start : List String) :
    (components.foldl normalStep before).reverse.foldl Component.next start =
      components.foldl Component.next (before.reverse.foldl Component.next start) := by
  induction components generalizing before with
  | nil => rfl
  | cons component rest ih => rw [List.foldl_cons, ih, foldl_next_normalStep, List.foldl_cons]

/-- A normal form names the place that the path names. -/
theorem place_normalize (path : Path) (start : List String) :
    path.normalize.place start = path.place start := by
  rw [place, components_normalize, normalComponents, foldl_next_foldl]
  rfl

example : (⟨"a/.././../x"⟩ : Path).normalize = ⟨"../x"⟩ ∧
    (⟨"a/.././../x"⟩ : Path).place ["home", "b"] = ["home", "x"] := by
  decide +kernel

/-- The parts of a path lead on from the root if it is absolute. -/
theorem place_eq_foldl_steps (path : Path) (start : List String) :
    path.place start = (steps (Text.split isSlash path.text.toList)).foldl Component.next
      (if path.isAbsolute then [] else start) := by
  have hfold := foldl_next_foldl path.components [] start
  rw [foldl_components, foldl_next_foldl] at hfold
  rw [place]
  refine hfold.symm.trans ?_
  split_ifs <;> rfl

/-- What a joined path names is what the second path names, seen from what the first names. -/
theorem place_join (base path : Path) (start : List String) :
    (base.join path).place start = path.place (base.place start) := by
  by_cases habsolute : path.isAbsolute = true
  · have hjoin : base.join path = path := by simp [join, habsolute]
    rw [hjoin, place_eq_foldl_steps, place_eq_foldl_steps, if_pos habsolute, if_pos habsolute]
  · rw [Bool.not_eq_true] at habsolute
    have hbase : base.place start =
        (base.components.foldl normalStep []).reverse.foldl Component.next start :=
      (foldl_next_foldl base.components [] start).symm
    have hjoin := foldl_next_foldl (base.join path).components [] start
    rw [foldl_components_join base habsolute, foldl_next_foldl, ← hbase] at hjoin
    exact hjoin.symm

/-! ### Absolute paths -/

theorem root_mem_normalStep {component : Component} :
    .root ∈ normalStep before component ↔ component = .root ∨ .root ∈ before := by
  cases component with
  | root | here | name => simp [normalStep]
  | up =>
    cases before with
    | nil => simp [normalStep]
    | cons last rest => cases last <;> simp [normalStep]

theorem root_mem_foldl_normalStep :
    .root ∈ components.foldl normalStep before ↔ .root ∈ components ∨ .root ∈ before := by
  induction components generalizing before with
  | nil => simp
  | cons component rest ih =>
    rw [List.foldl_cons, ih, root_mem_normalStep, List.mem_cons, eq_comm]
    tauto

theorem isAbsolute_iff_root_mem : path.isAbsolute = true ↔ .root ∈ path.components := by
  have hsteps : .root ∉ steps (Text.split isSlash path.text.toList) := isStep_of_mem_steps
  have hfold : .root ∈ path.components.foldl normalStep [] ↔ .root ∈ path.components := by
    rw [root_mem_foldl_normalStep]
    simp
  rw [← hfold, foldl_components, root_mem_foldl_normalStep]
  simp [hsteps]

theorem isAbsolute_normalize (path : Path) : path.normalize.isAbsolute = path.isAbsolute := by
  rw [Bool.eq_iff_iff, isAbsolute_iff_root_mem, isAbsolute_iff_root_mem, components_normalize,
    normalComponents, List.mem_reverse, root_mem_foldl_normalStep]
  simp

/-! ### The shape of normal forms -/

/-- The root, and then names. -/
def rooted (names : List String) : List Component := .root :: names.map .name

/-- So many levels up, and then names. -/
def raised (levels : ℕ) (names : List String) : List Component :=
  List.replicate levels .up ++ names.map .name

/-- The components of an absolute or of a relative normal form. -/
inductive IsReduced : List Component → Prop
  | absolute (names : List String) : IsReduced (rooted names)
  | relative (levels : ℕ) (names : List String) : IsReduced (raised levels names)

theorem IsReduced.concat (hreduced : IsReduced components) (name : String) :
    IsReduced (components ++ [.name name]) := by
  cases hreduced with
  | absolute names => simpa [rooted] using IsReduced.absolute (names ++ [name])
  | relative levels names => simpa [raised] using IsReduced.relative levels (names ++ [name])

theorem IsNormal.isReduced (hnormal : IsNormal before) : IsReduced before.reverse := by
  induction hnormal with
  | empty => exact .relative 0 []
  | root => exact .absolute []
  | @up before hups =>
    have hreplicate := List.eq_replicate_of_mem (List.forall_mem_cons.mpr ⟨rfl, hups⟩)
    rw [hreplicate, List.reverse_replicate]
    simpa [raised] using IsReduced.relative (Component.up :: before).length []
  | @name text _ _ _ ih =>
    rw [List.reverse_cons]
    exact ih.concat text

theorem isReduced_normalize (path : Path) : IsReduced path.normalize.components := by
  rw [components_normalize]
  exact (isSpelled_components path).isNormal_foldl.isReduced

namespace IsReduced

theorem here_notMem (hreduced : IsReduced components) : .here ∉ components := by
  cases hreduced with
  | absolute names => simp [rooted]
  | relative levels names => simp [raised]

theorem exists_ups (hreduced : IsReduced components) :
    ∃ levels rest, components = List.replicate levels .up ++ rest ∧ .up ∉ rest := by
  cases hreduced with
  | absolute names => exact ⟨0, rooted names, rfl, by simp [rooted]⟩
  | relative levels names => exact ⟨levels, names.map .name, rfl, by simp⟩

theorem up_notMem (hreduced : IsReduced components) (hroot : .root ∈ components) :
    .up ∉ components := by
  cases hreduced with
  | absolute names => simp [rooted]
  | relative levels names => simp [raised] at hroot

end IsReduced

/-! ### One normal form for each place -/

theorem foldl_next_names (names start : List String) :
    (names.map Component.name).foldl Component.next start = start ++ names := by
  induction names generalizing start with
  | nil => simp
  | cons name rest ih =>
    rw [List.map_cons, List.foldl_cons, ih, Component.next, List.append_assoc,
      List.singleton_append]

theorem foldl_next_ups (levels : ℕ) (start : List String) :
    (List.replicate levels Component.up).foldl Component.next start =
      start.take (start.length - levels) := by
  induction levels generalizing start with
  | zero => simp
  | succ levels ih =>
    rw [List.replicate_succ, List.foldl_cons, ih, Component.next, List.length_dropLast,
      List.dropLast_eq_take, List.take_take]
    congr 1
    omega

theorem foldl_next_rooted (names start : List String) :
    (rooted names).foldl Component.next start = names := by
  rw [rooted, List.foldl_cons, foldl_next_names, Component.next, List.nil_append]

theorem foldl_next_raised (levels : ℕ) (names start : List String) :
    (raised levels names).foldl Component.next start =
      start.take (start.length - levels) ++ names := by
  rw [raised, List.foldl_append, foldl_next_ups, foldl_next_names]

/-- What a path from the root names does not depend on the start, and what a relative one names
does. -/
theorem exists_foldl_next_ne (names : List String) (levels : ℕ) (others : List String) :
    ∃ start, (rooted names).foldl Component.next start ≠
      (raised levels others).foldl Component.next start := by
  by_contra! hsame
  simp only [foldl_next_rooted, foldl_next_raised] at hsame
  have hroot : names = others := by simpa using hsame []
  have hdeep : names = "" :: others := by simpa using hsame (List.replicate (levels + 1) "")
  rw [hroot] at hdeep
  exact List.cons_ne_self "" others hdeep.symm

/-- Components in normal form that lead to the same place from everywhere are the same. -/
theorem IsReduced.eq_of_foldl_next (hfirst : IsReduced first) (hsecond : IsReduced second)
    (hsame : ∀ start, first.foldl Component.next start = second.foldl Component.next start) :
    first = second := by
  cases hfirst with
  | absolute names =>
    cases hsecond with
    | absolute others =>
      obtain rfl : names = others := by simpa only [foldl_next_rooted] using hsame []
      rfl
    | relative levels others =>
      obtain ⟨start, hne⟩ := exists_foldl_next_ne names levels others
      exact absurd (hsame start) hne
  | relative levels names =>
    cases hsecond with
    | absolute others =>
      obtain ⟨start, hne⟩ := exists_foldl_next_ne others levels names
      exact absurd (hsame start).symm hne
    | relative further others =>
      simp only [foldl_next_raised] at hsame
      obtain rfl : names = others := by simpa using hsame []
      -- a start that is deep enough for both shows how many levels each goes up
      have hdeep : further = levels := by
        simpa using hsame (List.replicate (levels + further) "")
      rw [hdeep]

/-- Paths have one normal form if and only if they name the same place from every directory. -/
theorem normalize_eq_normalize_iff_place :
    path.normalize = other.normalize ↔ ∀ start, path.place start = other.place start := by
  constructor
  · intro hnormal start
    rw [← place_normalize path, ← place_normalize other, hnormal]
  · intro hsame
    have hcomponents : path.normalize.components = other.normalize.components := by
      refine (isReduced_normalize path).eq_of_foldl_next (isReduced_normalize other) ?_
      intro start
      have hplace := hsame start
      rwa [← place_normalize path, ← place_normalize other] at hplace
    rw [components_normalize, components_normalize] at hcomponents
    exact congrArg ofComponents hcomponents

/-- A normal form has no dot, and `..` only in front of a relative path. It is absolute if the path
is, it is its own normal form, and it names the place that the path names; other paths have it if
and only if they name that place too. A path joined to it has the normal form that it has when it is
joined to the path itself. -/
theorem normalize_canonical (path : Path) :
    .here ∉ path.normalize.components ∧
      (∃ levels rest, path.normalize.components = List.replicate levels .up ++ rest ∧
        .up ∉ rest) ∧
      (path.isAbsolute = true → .up ∉ path.normalize.components) ∧
      path.normalize.isAbsolute = path.isAbsolute ∧
      path.normalize.normalize = path.normalize ∧
      (∀ start, path.normalize.place start = path.place start) ∧
      (∀ other : Path, other.normalize = path.normalize ↔
        ∀ start, other.place start = path.place start) ∧
      ∀ more : Path, (path.join more).normalize = (path.normalize.join more).normalize := by
  have hreduced := isReduced_normalize path
  refine ⟨hreduced.here_notMem, hreduced.exists_ups, fun habsolute ↦ ?_,
    isAbsolute_normalize path, normalize_normalize path, place_normalize path,
    fun other ↦ normalize_eq_normalize_iff_place, fun more ↦ ?_⟩
  · rw [← isAbsolute_normalize, isAbsolute_iff_root_mem] at habsolute
    exact hreduced.up_notMem habsolute
  · rw [normalize_eq_normalize_iff_place]
    intro start
    rw [place_join, place_join, place_normalize]

theorem normalize_canonical_rooted :
    (⟨"/../a/./..//b"⟩ : Path).isAbsolute = true ∧
      .up ∉ (⟨"/../a/./..//b"⟩ : Path).normalize.components :=
  have habsolute : (⟨"/../a/./..//b"⟩ : Path).isAbsolute = true := by decide +kernel
  ⟨habsolute, (normalize_canonical ⟨"/../a/./..//b"⟩).2.2.1 habsolute⟩

end EventSchema.Path

/-! ### Places on a disk -/

namespace EventSchema.Disk

open Path (Component)

variable {disk : Disk} {place last steps found : List String} {path other : Path}

/-- A walk ends where its steps lead, taken as components. -/
theorem Walks.eq_foldl_next (hwalks : Walks disk place steps last) :
    last = (steps.map fun step ↦ Component.ofChars step.toList).foldl Component.next place := by
  induction hwalks with
  | nil => rfl
  | here hstep _ _ ih =>
    subst hstep
    exact ih
  | up hstep _ _ ih =>
    subst hstep
    exact ih
  | @name _ _ _ step hdot _ _ _ ih =>
    obtain ⟨hhere, hup⟩ : step ≠ "." ∧ step ≠ ".." := by simpa [isDot] using hdot
    have hhere' : step.toList ≠ ['.'] := fun h ↦ hhere (String.toList_injective h)
    have hup' : step.toList ≠ ['.', '.'] := fun h ↦ hup (String.toList_injective h)
    have hname : Component.ofChars step.toList = .name step := by
      simp [Component.ofChars, hhere', hup']
    rw [List.map_cons, List.foldl_cons, hname]
    exact ih

/-- The dots among the steps of a path lead nowhere. -/
theorem foldl_next_steps (parts : List (List Char)) (start : List String) :
    ((parts.filter fun part ↦ !part.isEmpty).map Component.ofChars).foldl Component.next start =
      (Path.steps parts).foldl Component.next start := by
  induction parts generalizing start with
  | nil => rfl
  | cons part rest ih =>
    rw [Path.steps] at ih ⊢
    by_cases hempty : part = []
    · simpa [hempty, Path.isIdle] using ih start
    · by_cases hdot : part = ['.']
      · subst hdot
        exact ih start
      · simpa [hempty, hdot, Path.isIdle] using ih _

/-- A path that leads to something leads to the place that it names. -/
theorem locate_eq_place (hlocated : disk.locate path = .ok found) :
    found = path.place disk.current := by
  obtain ⟨-, hwalks⟩ := locate_eq_ok_iff.mp hlocated
  have hdot (start : List String) : ((if asksDirectory path then ["."] else []).map
      fun step ↦ Component.ofChars step.toList).foldl Component.next start = start := by
    split_ifs <;> rfl
  have hsteps : ((Disk.steps path).map fun step ↦ Component.ofChars step.toList) =
      ((Text.split Path.isSlash path.text.toList).filter fun part ↦ !part.isEmpty).map
        Component.ofChars := by
    rw [Disk.steps, List.map_map]
    exact List.map_congr_left fun part _ ↦ congrArg _ String.toList_ofList
  rw [hwalks.eq_foldl_next, List.map_append, List.foldl_append, hdot, hsteps, foldl_next_steps,
    Path.place_eq_foldl_steps, startOf]

/-- Paths with one normal form that lead to something lead to the same. -/
theorem locate_eq_of_normalize (hnormal : path.normalize = other.normalize)
    (hpath : disk.locate path = .ok place) (hother : disk.locate other = .ok found) :
    place = found := by
  rw [locate_eq_place hpath, locate_eq_place hother,
    Path.normalize_eq_normalize_iff_place.mp hnormal]

end EventSchema.Disk
