import EventSchema.Path
import EventSchema.Proofs.Text

/-!
# Normal forms of paths

A path is written back from its components without loss (`components_ofComponents`), so a normal
form has the components that normalising gives (`components_normalize`), normalising twice is
normalising once (`normalize_normalize`), and what a path denotes seen from a directory depends on
the directory through its normal form only (`normalize_join_congr`).
-/

set_option autoImplicit false

namespace EventSchema.Path

/-- Whether a character divides the parts of a path. -/
abbrev isSlash (c : Char) : Bool := c = '/'

/-- A component that stands after the first one: one level up, or a name that can be spelled. -/
def Component.IsStep : Component → Prop
  | .up => True
  | .name text => text ≠ "" ∧ text ≠ "." ∧ text ≠ ".." ∧ ∀ c ∈ text.toList, isSlash c = false
  | .root | .here => False

namespace Component

theorem ofChars_chars {component : Component} (hstep : component.IsStep) :
    ofChars component.chars = component := by
  cases component with
  | root => exact hstep.elim
  | here => exact hstep.elim
  | up => rfl
  | name text =>
    obtain ⟨-, hdot, hdots, -⟩ := hstep
    have hdot' : text.toList ≠ ['.'] := fun h ↦ hdot (String.toList_injective h)
    have hdots' : text.toList ≠ ['.', '.'] := fun h ↦ hdots (String.toList_injective h)
    simp [ofChars, chars, hdot', hdots']

theorem isIdle_chars {component : Component} (hstep : component.IsStep) :
    isIdle component.chars = false := by
  cases component with
  | root => exact hstep.elim
  | here => exact hstep.elim
  | up => rfl
  | name text =>
    obtain ⟨hempty, hdot, -, -⟩ := hstep
    have hdot' : text.toList ≠ ['.'] := fun h ↦ hdot (String.toList_injective h)
    simp [isIdle, chars, hempty, hdot']

theorem isSlash_of_mem_chars {component : Component} (hstep : component.IsStep) {c : Char}
    (hc : c ∈ component.chars) : isSlash c = false := by
  cases component with
  | root => exact hstep.elim
  | here => exact hstep.elim
  | up => simp_all [chars]
  | name text => exact hstep.2.2.2 c hc

theorem isStep_ofChars {part : List Char} (hidle : isIdle part = false)
    (hslash : ∀ c ∈ part, isSlash c = false) : (ofChars part).IsStep := by
  have hne : part ≠ [] ∧ part ≠ ['.'] := by simpa [isIdle] using hidle
  by_cases hdots : part = ['.', '.']
  · simp [ofChars, hdots, IsStep]
  · have hname : ofChars part = .name (String.ofList part) := by simp [ofChars, hne.2, hdots]
    rw [hname]
    refine ⟨fun h ↦ hne.1 ?_, fun h ↦ hne.2 ?_, fun h ↦ hdots ?_, by simpa using hslash⟩
    all_goals simpa using congrArg String.toList h

end Component

/-! ### The components of a spelling -/

/-- The components that the parts between slashes stand for, the first part taken as any other. -/
def steps (parts : List (List Char)) : List Component :=
  (parts.filter fun part ↦ !isIdle part).map Component.ofChars

@[simp] theorem steps_append (parts more : List (List Char)) :
    steps (parts ++ more) = steps parts ++ steps more := by
  simp [steps]

@[simp] theorem steps_nil_part (parts : List (List Char)) : steps ([] :: parts) = steps parts := by
  simp [steps, isIdle]

theorem isStep_of_mem_steps {text : List Char} {component : Component}
    (hcomponent : component ∈ steps (Text.split isSlash text)) : component.IsStep := by
  obtain ⟨part, hpart, rfl⟩ := List.mem_map.mp hcomponent
  obtain ⟨hsplit, hidle⟩ := List.mem_filter.mp hpart
  exact Component.isStep_ofChars (by simpa using hidle)
    fun c hc ↦ Text.isBreak_of_mem_split hsplit hc

theorem steps_map_chars {components : List Component} (hsteps : ∀ c ∈ components, c.IsStep) :
    steps (components.map Component.chars) = components := by
  induction components with
  | nil => rfl
  | cons component rest ih =>
    have hcomponent := hsteps component List.mem_cons_self
    have hrest := ih fun c hc ↦ hsteps c (List.mem_cons_of_mem _ hc)
    rw [steps] at hrest ⊢
    simp [Component.isIdle_chars hcomponent, Component.ofChars_chars hcomponent, hrest]

theorem kept_eq : (fun part : List Char ↦ !part.isEmpty && part != ['.']) =
    fun part ↦ !isIdle part := by
  funext part
  by_cases hdot : part = ['.'] <;> simp [isIdle, hdot]

theorem partComponents_true (parts : List (List Char)) :
    partComponents true parts = steps parts := by
  cases parts with
  | nil => rfl
  | cons first rest =>
    have hfirst : (!first.isEmpty && first != ['.']) = !isIdle first := congrFun kept_eq first
    simp only [partComponents, kept_eq, hfirst, steps, if_true]
    by_cases hidle : isIdle first <;> simp [hidle]

theorem partComponents_false (first : List Char) (rest : List (List Char)) :
    partComponents false (first :: rest) =
      (if first = ['.'] then [.here] else []) ++ steps (first :: rest) := by
  simp only [partComponents, kept_eq, steps]
  by_cases hdot : first = ['.']
  · simp [hdot, isIdle, Component.ofChars]
  · by_cases hempty : first = [] <;> simp [hdot, hempty, isIdle]

/-- The lists of components that paths have. -/
inductive IsSpelled : List Component → Prop
  | relative {components : List Component} (hsteps : ∀ c ∈ components, c.IsStep) :
    IsSpelled components
  | dotted {components : List Component} (hsteps : ∀ c ∈ components, c.IsStep) :
    IsSpelled (.here :: components)
  | absolute {components : List Component} (hsteps : ∀ c ∈ components, c.IsStep) :
    IsSpelled (.root :: components)

theorem IsSpelled.concat {components : List Component} (hspelled : IsSpelled components)
    {component : Component} (hstep : component.IsStep) : IsSpelled (components ++ [component]) := by
  have hconcat {steps : List Component} (hsteps : ∀ c ∈ steps, c.IsStep) :
      ∀ c ∈ steps ++ [component], c.IsStep :=
    List.forall_mem_append.mpr ⟨hsteps, List.forall_mem_singleton.mpr hstep⟩
  cases hspelled with
  | relative hsteps => exact .relative (hconcat hsteps)
  | dotted hsteps => exact .dotted (hconcat hsteps)
  | absolute hsteps => exact .absolute (hconcat hsteps)

theorem IsSpelled.dropLast {components : List Component} (hspelled : IsSpelled components) :
    IsSpelled components.dropLast := by
  cases hspelled with
  | relative hsteps => exact .relative fun c hc ↦ hsteps c (List.dropLast_subset _ hc)
  | @dotted components hsteps =>
    cases components with
    | nil => exact .relative (by simp)
    | cons c rest => exact .dotted fun c hc ↦ hsteps c (List.dropLast_subset _ hc)
  | @absolute components hsteps =>
    cases components with
    | nil => exact .relative (by simp)
    | cons c rest => exact .absolute fun c hc ↦ hsteps c (List.dropLast_subset _ hc)

theorem isSpelled_components (path : Path) : IsSpelled path.components := by
  unfold components componentsOf
  split
  · rw [partComponents_true]
    exact .absolute fun c hc ↦ isStep_of_mem_steps hc
  · have hsteps (component) (h : component ∈ steps (Text.split isSlash path.text.toList)) :
        component.IsStep := isStep_of_mem_steps h
    obtain ⟨first, rest, hsplit⟩ :=
      List.exists_cons_of_ne_nil (Text.split_ne_nil isSlash path.text.toList)
    rw [hsplit] at hsteps ⊢
    rw [partComponents_false]
    split
    · exact .dotted hsteps
    · exact .relative hsteps

theorem split_join_chars {components : List Component} (hne : components ≠ [])
    (hchars : ∀ component ∈ components, ∀ c ∈ component.chars, isSlash c = false) :
    Text.split isSlash (Text.join ['/'] (components.map Component.chars)) =
      components.map Component.chars := by
  apply Text.split_join (by simp) (by simpa using hne)
  intro part hpart
  obtain ⟨component, hcomponent, rfl⟩ := List.mem_map.mp hpart
  exact hchars component hcomponent

theorem steps_split_join {components : List Component} (hsteps : ∀ c ∈ components, c.IsStep) :
    steps (Text.split isSlash (Text.join ['/'] (components.map Component.chars))) =
      components := by
  cases components with
  | nil => rfl
  | cons component rest =>
    rw [split_join_chars (List.cons_ne_nil _ _)
      fun c hc d hd ↦ Component.isSlash_of_mem_chars (hsteps c hc) hd]
    exact steps_map_chars hsteps

theorem head?_join_ne {first : List Char} (rest : List (List Char)) (hne : first ≠ [])
    (hfirst : ∀ c ∈ first, isSlash c = false) :
    ∃ c text, Text.join ['/'] (first :: rest) = c :: text ∧ c ≠ '/' := by
  obtain ⟨c, more, rfl⟩ := List.exists_cons_of_ne_nil hne
  have hc : c ≠ '/' := by simpa using hfirst c List.mem_cons_self
  cases rest with
  | nil => exact ⟨c, more, rfl, hc⟩
  | cons next others => exact ⟨c, _, rfl, hc⟩

theorem componentsOf_of_ne {c : Char} {text : List Char} (hc : c ≠ '/') :
    componentsOf (c :: text) = partComponents false (Text.split isSlash (c :: text)) := by
  rw [componentsOf]
  rintro rest ⟨⟩
  exact hc rfl

theorem ofComponents_of_ne_root {components : List Component}
    (hroot : components.head? ≠ some .root) :
    ofComponents components =
      ⟨String.ofList (Text.join ['/'] (components.map Component.chars))⟩ := by
  rw [ofComponents]
  rintro rest rfl
  exact hroot rfl

/-- A path has the components that it was spelled from. -/
theorem components_ofComponents {components : List Component} (hspelled : IsSpelled components) :
    (ofComponents components).components = components := by
  cases hspelled with
  | @absolute components hsteps =>
    simp only [ofComponents, Path.components, String.toList_ofList, componentsOf]
    rw [partComponents_true, steps_split_join hsteps]
  | @dotted components hsteps =>
    have hchars (component) (h : component ∈ Component.here :: components) :
        ∀ c ∈ component.chars, isSlash c = false := by
      rcases List.mem_cons.mp h with rfl | h
      · simp [Component.chars]
      · exact fun c hc ↦ Component.isSlash_of_mem_chars (hsteps component h) hc
    have hdot : Component.here.chars ≠ [] := by simp [Component.chars]
    obtain ⟨c, text, htext, hc⟩ := head?_join_ne (components.map Component.chars) hdot
      (hchars _ List.mem_cons_self)
    rw [ofComponents_of_ne_root (by simp), Path.components, String.toList_ofList, List.map_cons,
      htext, componentsOf_of_ne hc, ← htext, ← List.map_cons,
      split_join_chars (List.cons_ne_nil _ _) hchars, List.map_cons, partComponents_false]
    have hsteps' := steps_map_chars hsteps
    simp_all [Component.chars, steps, isIdle]
  | relative hsteps =>
    cases components with
    | nil => rfl
    | cons component rest =>
      have hcomponent := hsteps component List.mem_cons_self
      have hidle : component.chars ≠ [] ∧ component.chars ≠ ['.'] := by
        simpa [isIdle] using Component.isIdle_chars hcomponent
      obtain ⟨c, text, htext, hc⟩ := head?_join_ne (rest.map Component.chars) hidle.1
        fun d hd ↦ Component.isSlash_of_mem_chars hcomponent hd
      have hroot : (component :: rest).head? ≠ some .root := by
        rintro h
        obtain rfl : component = .root := by simpa using h
        exact hcomponent
      rw [ofComponents_of_ne_root hroot, Path.components, String.toList_ofList, List.map_cons,
        htext, componentsOf_of_ne hc, ← htext, ← List.map_cons,
        split_join_chars (List.cons_ne_nil _ _)
          fun c hc d hd ↦ Component.isSlash_of_mem_chars (hsteps c hc) hd,
        List.map_cons, partComponents_false, if_neg hidle.2, List.nil_append, ← List.map_cons]
      exact steps_map_chars hsteps

/-! ### Normal forms -/

/-- The normal forms, with the last component in front. -/
inductive IsNormal : List Component → Prop
  | empty : IsNormal []
  | root : IsNormal [.root]
  | up {before : List Component} (hups : ∀ c ∈ before, c = .up) : IsNormal (.up :: before)
  | name {text : String} {before : List Component} (hstep : (Component.name text).IsStep)
    (hbefore : IsNormal before) : IsNormal (.name text :: before)

theorem IsNormal.isSpelled {before : List Component} (hnormal : IsNormal before) :
    IsSpelled before.reverse := by
  induction hnormal with
  | empty => exact .relative (by simp)
  | root => exact .absolute (by simp)
  | up hups =>
    refine .relative ?_
    intro c hc
    have hup : c = .up := by
      rcases List.mem_cons.mp (List.mem_reverse.mp hc) with rfl | hc
      · rfl
      · exact hups c hc
    rw [hup]
    exact trivial
  | name hstep _ ih =>
    rw [List.reverse_cons]
    exact ih.concat hstep

theorem IsNormal.normalStep {before : List Component} (hnormal : IsNormal before)
    {component : Component} (hstep : component.IsStep) :
    IsNormal (normalStep before component) := by
  cases component with
  | root => exact hstep.elim
  | here => exact hstep.elim
  | name text => exact .name hstep hnormal
  | up =>
    cases hnormal with
    | empty => exact .up (by simp)
    | root => exact .root
    | up hups =>
      refine .up ?_
      intro c hc
      rcases List.mem_cons.mp hc with rfl | hc
      · rfl
      · exact hups c hc
    | name _ hbefore => exact hbefore

theorem IsNormal.foldl {before components : List Component} (hnormal : IsNormal before)
    (hsteps : ∀ c ∈ components, c.IsStep) :
    IsNormal (components.foldl Path.normalStep before) := by
  induction components generalizing before with
  | nil => exact hnormal
  | cons component rest ih =>
    exact ih (hnormal.normalStep (hsteps component List.mem_cons_self))
      fun c hc ↦ hsteps c (List.mem_cons_of_mem _ hc)

theorem IsSpelled.isNormal_foldl {components : List Component}
    (hspelled : IsSpelled components) : IsNormal (components.foldl Path.normalStep []) := by
  cases hspelled with
  | relative hsteps => exact IsNormal.empty.foldl hsteps
  | dotted hsteps =>
    have hnormal := IsNormal.empty.foldl hsteps
    exact hnormal
  | absolute hsteps =>
    have hnormal := IsNormal.root.foldl hsteps
    exact hnormal

theorem foldl_reverse_of_forall_up {before : List Component} (hups : ∀ c ∈ before, c = .up) :
    before.reverse.foldl Path.normalStep [] = before := by
  induction before with
  | nil => rfl
  | cons component rest ih =>
    obtain ⟨rfl, hrest⟩ := List.forall_mem_cons.mp hups
    rw [List.reverse_cons, List.foldl_append, ih hrest]
    cases rest with
    | nil => rfl
    | cons c _ => rw [hrest c List.mem_cons_self]; rfl

/-- Normalising a normal form changes nothing. -/
theorem IsNormal.foldl_reverse {before : List Component} (hnormal : IsNormal before) :
    before.reverse.foldl Path.normalStep [] = before := by
  induction hnormal with
  | empty => rfl
  | root => rfl
  | up hups => exact foldl_reverse_of_forall_up (List.forall_mem_cons.mpr ⟨rfl, hups⟩)
  | name _ _ ih => rw [List.reverse_cons, List.foldl_append, ih]; rfl

@[simp] theorem components_normalize (path : Path) :
    path.normalize.components = normalComponents path.components :=
  components_ofComponents (isSpelled_components path).isNormal_foldl.isSpelled

theorem normalComponents_normalize (path : Path) :
    normalComponents path.normalize.components = normalComponents path.components := by
  rw [components_normalize, normalComponents, normalComponents,
    (isSpelled_components path).isNormal_foldl.foldl_reverse]

@[simp] theorem normalize_normalize (path : Path) : path.normalize.normalize = path.normalize :=
  congrArg ofComponents (normalComponents_normalize path)

theorem normalize_eq_normalize_iff {path other : Path} : path.normalize = other.normalize ↔
    path.components.foldl normalStep [] = other.components.foldl normalStep [] := by
  constructor
  · intro h
    have hcomponents := congrArg components h
    rw [components_normalize, components_normalize] at hcomponents
    exact List.reverse_inj.mp hcomponents
  · intro h
    rw [normalize, normalize, normalComponents, normalComponents, h]

/-! ### Joining -/

/-- Where a path leads from a place: to the root first if it is absolute, then along its parts. -/
theorem foldl_components (path : Path) (before : List Component) :
    path.components.foldl normalStep before =
      (steps (Text.split isSlash path.text.toList)).foldl normalStep
        (if path.isAbsolute then .root :: before else before) := by
  unfold components componentsOf
  split
  · rename_i rest htext
    have habsolute : path.isAbsolute = true := by simp [isAbsolute, htext]
    rw [partComponents_true, if_pos habsolute, htext]
    simp [Text.split, normalStep]
  · rename_i hslash
    have habsolute : path.isAbsolute = false := by
      cases htext : path.text.toList with
      | nil => simp [isAbsolute, htext]
      | cons c rest =>
        have hc : c ≠ '/' := fun h ↦ hslash rest (h ▸ htext)
        simp [isAbsolute, htext, hc]
    obtain ⟨first, rest, hsplit⟩ :=
      List.exists_cons_of_ne_nil (Text.split_ne_nil isSlash path.text.toList)
    rw [hsplit, partComponents_false, habsolute]
    by_cases hdot : first = ['.'] <;> simp [hdot, normalStep]

theorem isAbsolute_of_append {text more : List Char} (hne : text ≠ []) :
    (Path.mk (String.ofList (text ++ more))).isAbsolute =
      (Path.mk (String.ofList text)).isAbsolute := by
  obtain ⟨c, rest, rfl⟩ := List.exists_cons_of_ne_nil hne
  simp [isAbsolute]

/-- A relative path leads on from where the path before it leads. -/
theorem foldl_components_join (base : Path) {path : Path} (hrelative : path.isAbsolute = false)
    (before : List Component) :
    (base.join path).components.foldl normalStep before =
      path.components.foldl normalStep (base.components.foldl normalStep before) := by
  by_cases hempty : base.text = ""
  · have hbase : base.components = [] := by simp [components, hempty, componentsOf]; rfl
    simp [join, hempty, hbase]
  · have hne : base.text.toList ≠ [] := by simpa using hempty
    obtain ⟨text, hjoin, hsteps⟩ : ∃ text : List Char,
        base.join path = ⟨String.ofList (base.text.toList ++ text)⟩ ∧
        steps (Text.split isSlash (base.text.toList ++ text)) =
          steps (Text.split isSlash base.text.toList) ++
            steps (Text.split isSlash path.text.toList) := by
      by_cases hslash : Text.endsWith ['/'] base.text.toList = true
      · obtain ⟨start, hstart⟩ : ∃ start, base.text.toList = start ++ ['/'] := by
          obtain ⟨start, hstart⟩ := List.isSuffixOf_iff_suffix.mp hslash
          exact ⟨start, hstart.symm⟩
        refine ⟨path.text.toList, ?_, ?_⟩
        · simp [join, hrelative, hempty, hslash]
        · rw [hstart, List.append_assoc, List.singleton_append,
            Text.split_append (by simp), Text.split_append (by simp)]
          simp [Text.split, steps, isIdle]
      · refine ⟨'/' :: path.text.toList, ?_, ?_⟩
        · simp [join, hrelative, hempty, hslash, String.append_assoc]
        · rw [Text.split_append (by simp), steps_append]
    rw [foldl_components, foldl_components path, foldl_components base, hjoin,
      isAbsolute_of_append hne]
    simp [hsteps, hrelative, List.foldl_append]

/-- What a path denotes, seen from a directory, depends on the normal form of the directory. -/
theorem normalize_join_congr {base other : Path} (hbase : base.normalize = other.normalize)
    (path : Path) : (base.join path).normalize = (other.join path).normalize := by
  by_cases habsolute : path.isAbsolute = true
  · simp [join, habsolute]
  · rw [Bool.not_eq_true] at habsolute
    rw [normalize_eq_normalize_iff, foldl_components_join base habsolute,
      foldl_components_join other habsolute, normalize_eq_normalize_iff.mp hbase]

theorem directory_of_components {path : Path} {before : List Component} {text : String}
    (hcomponents : path.components = before ++ [.name text]) :
    path.directory = ofComponents before := by
  simp [directory, parent?, hcomponents]

/-- A path that ends in a file name has the directory of its normal form. -/
theorem normalize_directory {path : Path} (hname : path.fileName?.isSome) :
    path.normalize.directory.normalize = path.directory.normalize := by
  obtain ⟨before, text, hcomponents⟩ :
      ∃ before text, path.components = before ++ [.name text] := by
    rw [fileName?] at hname
    split at hname
    · rename_i text hlast
      obtain ⟨before, hbefore⟩ := List.getLast?_eq_some_iff.mp hlast
      exact ⟨before, text, hbefore⟩
    · exact absurd hname (by simp)
  have hspelled : IsSpelled before := by
    have hdropLast := (isSpelled_components path).dropLast
    rwa [hcomponents, List.dropLast_concat] at hdropLast
  have hnormal := hspelled.isNormal_foldl
  have hnormalized : path.normalize.components =
      (before.foldl normalStep []).reverse ++ [.name text] := by
    rw [components_normalize, normalComponents, hcomponents, List.foldl_append]
    simp [normalStep]
  rw [directory_of_components hcomponents, directory_of_components hnormalized,
    normalize_eq_normalize_iff, components_ofComponents hnormal.isSpelled,
    components_ofComponents hspelled, hnormal.foldl_reverse]

end EventSchema.Path
