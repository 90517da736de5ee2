import EventSchema.Disk
import EventSchema.Proofs.Entries
import EventSchema.Proofs.Outcome
import EventSchema.Proofs.Text

/-!
# What stands at the places of a disk

At a place there is nothing, a directory, or a file with its content (`Disk.at?`). To put an entry
in a directory, or to take it away, changes just one place (`Entry.at?_put`, `Entry.at?_erase`).
Which place a path leads to is decided by the directories on the way (`Disk.Walks`), so it stays the
same while directories stay (`Disk.Walks.mono`).
-/

set_option autoImplicit false

namespace EventSchema

namespace Entry

/-- The content of a file. -/
def content? : Entry → Option String
  | file content => some content
  | directory _ => none

/-- What stands at a place: nothing, a directory, or a file with its content. -/
def at? (entry : Entry) (place : List String) : Option (Option String) :=
  (entry.find? place).map content?

variable {root leaf : Entry} {entries : List (String × Entry)} {place rest : List String}
  {name : String} {content : String}

@[simp] theorem at?_nil (entry : Entry) : entry.at? [] = some entry.content? := by
  cases entry <;> rfl

@[simp] theorem at?_file_cons (content name : String) (rest : List String) :
    (file content).at? (name :: rest) = none := rfl

theorem at?_directory_cons (entries : List (String × Entry)) (name : String) (rest : List String) :
    (directory entries).at? (name :: rest) =
      (Entries.get? entries name).bind fun child ↦ child.at? rest := by
  rw [at?, find?]
  cases Entries.get? entries name <;> rfl

theorem at?_eq_directory_iff {place : List String} : root.at? place = some none ↔
    ∃ entries, root.find? place = some (directory entries) := by
  rw [at?]
  cases root.find? place with
  | none => simp
  | some entry => cases entry <;> simp [content?]

theorem at?_eq_file_iff {place : List String} : root.at? place = some (some content) ↔
    root.find? place = some (file content) := by
  rw [at?]
  cases root.find? place with
  | none => simp
  | some entry => cases entry <;> simp [content?]

theorem exists_of_at?_directory (hroot : root.at? [] = some none) :
    ∃ entries, root = directory entries := by
  cases root with
  | file content => cases hroot
  | directory entries => exact ⟨entries, rfl⟩

/-- Only a directory has places below it. -/
theorem exists_of_at?_cons (hdirectory : root.at? (name :: rest) = some none) :
    ∃ entries child, root = directory entries ∧ Entries.get? entries name = some child ∧
      child.at? rest = some none := by
  cases root with
  | file content => cases hdirectory
  | directory entries =>
    rw [at?_directory_cons, Option.bind_eq_some_iff] at hdirectory
    obtain ⟨child, hchild, hrest⟩ := hdirectory
    exact ⟨entries, child, rfl, hchild, hrest⟩

theorem find?_append (entry : Entry) (place more : List String) :
    entry.find? (place ++ more) = (entry.find? place).bind fun inner ↦ inner.find? more := by
  induction place generalizing entry with
  | nil => rfl
  | cons name rest ih =>
    cases entry with
    | file content => rfl
    | directory entries =>
      rw [List.cons_append, find?, find?]
      cases Entries.get? entries name with
      | none => rfl
      | some child => exact ih child

theorem put_directory_cons (hrest : rest ≠ []) : (directory entries).put (name :: rest) leaf =
    match Entries.get? entries name with
    | some child => directory (Entries.insert entries name (child.put rest leaf))
    | none => directory entries := by
  obtain ⟨next, more, rfl⟩ := List.exists_cons_of_ne_nil hrest
  rfl

theorem erase_directory_cons (hrest : rest ≠ []) : (directory entries).erase (name :: rest) =
    match Entries.get? entries name with
    | some child => directory (Entries.insert entries name (child.erase rest))
    | none => directory entries := by
  obtain ⟨next, more, rfl⟩ := List.exists_cons_of_ne_nil hrest
  rfl

theorem at?_directory_below (hfree : (directory entries).at? [name] ≠ some none)
    (first : String) (more : List String) :
    (directory entries).at? (name :: first :: more) = none := by
  rw [at?_directory_cons] at hfree ⊢
  cases hchild : Entries.get? entries name with
  | none => rfl
  | some child =>
    cases child with
    | file content => rfl
    | directory inner => exact absurd (by rw [hchild]; rfl) hfree

/-- A change at one place of a child is a change at one place of its directory. -/
theorem at?_insert_child {child after : Entry} {what : Option (Option String)}
    (hchild : Entries.get? entries name = some child)
    (hafter : ∀ other, after.at? other = if other = rest then what else child.at? other)
    (other : List String) : (directory (Entries.insert entries name after)).at? other =
      if other = name :: rest then what else (directory entries).at? other := by
  cases other with
  | nil => simp [content?]
  | cons first more =>
    rw [at?_directory_cons, at?_directory_cons, Entries.get?_insert]
    by_cases hname : name = first
    · subst hname
      rw [if_pos rfl, hchild, Option.bind_some, Option.bind_some, hafter]
      simp
    · rw [if_neg hname, if_neg (by simp [Ne.symm hname])]

/-- To put an entry with nothing below it into a directory changes one place. -/
theorem at?_put (hleaf : ∀ first rest, leaf.at? (first :: rest) = none)
    (hdirectory : root.at? place = some none) (hfree : root.at? (place ++ [name]) ≠ some none)
    (other : List String) : (root.put (place ++ [name]) leaf).at? other =
      if other = place ++ [name] then some leaf.content? else root.at? other := by
  induction place generalizing root other with
  | nil =>
    obtain ⟨entries, rfl⟩ := exists_of_at?_directory hdirectory
    rw [List.nil_append, put]
    cases other with
    | nil => simp [content?]
    | cons first more =>
      rw [at?_directory_cons, Entries.get?_insert]
      by_cases hname : name = first
      · subst hname
        rw [if_pos rfl, Option.bind_some]
        cases more with
        | nil => simp
        | cons next more => rw [hleaf, if_neg (by simp), at?_directory_below hfree]
      · rw [if_neg hname, if_neg (by simp [Ne.symm hname]), at?_directory_cons]
  | cons first rest ih =>
    obtain ⟨entries, child, rfl, hchild, hrest⟩ := exists_of_at?_cons hdirectory
    rw [List.cons_append, at?_directory_cons, hchild, Option.bind_some] at hfree
    rw [List.cons_append, put_directory_cons (by simp), hchild]
    exact at?_insert_child hchild (ih hrest hfree) other

/-- To take away an entry with nothing below it changes one place. -/
theorem at?_erase (hdirectory : root.at? place = some none)
    (hfree : root.at? (place ++ [name]) ≠ some none) (other : List String) :
    (root.erase (place ++ [name])).at? other =
      if other = place ++ [name] then none else root.at? other := by
  induction place generalizing root other with
  | nil =>
    obtain ⟨entries, rfl⟩ := exists_of_at?_directory hdirectory
    rw [List.nil_append, erase]
    cases other with
    | nil => simp [content?]
    | cons first more =>
      rw [at?_directory_cons, Entries.get?_filter_ne]
      by_cases hname : first = name
      · subst hname
        rw [if_pos rfl, Option.bind_none]
        cases more with
        | nil => simp
        | cons next more => rw [if_neg (by simp), at?_directory_below hfree]
      · rw [if_neg hname, if_neg (by simp [hname]), at?_directory_cons]
  | cons first rest ih =>
    obtain ⟨entries, child, rfl, hchild, hrest⟩ := exists_of_at?_cons hdirectory
    rw [List.cons_append, at?_directory_cons, hchild, Option.bind_some] at hfree
    rw [List.cons_append, erase_directory_cons (by simp), hchild]
    exact at?_insert_child hchild (ih hrest hfree) other

end Entry

namespace Disk

/-- What stands at a place of a disk. -/
def at? (disk : Disk) (place : List String) : Option (Option String) := disk.root.at? place

/-- The content of the file at a place, if there is one. -/
def fileAt? (disk : Disk) (place : List String) : Option String := (disk.at? place).join

theorem at?_eq_file_iff {disk : Disk} {place : List String} {content : String} :
    disk.at? place = some (some content) ↔ disk.fileAt? place = some content := by
  rw [fileAt?, Option.join_eq_some_iff]

/-! ### Where paths lead -/

/-- The names lead from the first place to the second, through directories. -/
inductive Walks (disk : Disk) : List String → List String → List String → Prop
  | nil {place : List String} : Walks disk place [] place
  | here {place rest last : List String} {step : String} (hstep : step = ".")
    (hdirectory : disk.at? place = some none) (hrest : Walks disk place rest last) :
    Walks disk place (step :: rest) last
  | up {place rest last : List String} {step : String} (hstep : step = "..")
    (hdirectory : disk.at? place = some none) (hrest : Walks disk place.dropLast rest last) :
    Walks disk place (step :: rest) last
  | name {place rest last : List String} {step : String} (hstep : isDot step = false)
    (hdirectory : disk.at? place = some none) (hthere : disk.at? (place ++ [step]) ≠ none)
    (hrest : Walks disk (place ++ [step]) rest last) : Walks disk place (step :: rest) last

variable {disk before after : Disk} {place steps last : List String} {name : String} {path : Path}

theorem contains_iff {entries : List (String × Entry)}
    (hentry : disk.root.find? place = some (.directory entries)) :
    Entries.contains entries name = true ↔ disk.at? (place ++ [name]) ≠ none := by
  rw [at?, Entry.at?, Entry.find?_append, hentry, Option.bind_some, Entry.find?, Entries.contains]
  cases Entries.get? entries name <;> simp [Entry.find?]

theorem Walks.directory {step : String} {rest : List String}
    (hwalks : Walks disk place (step :: rest) last) : disk.at? place = some none := by
  cases hwalks <;> assumption

/-- Where a name leads from a directory. -/
def stepFrom (place : List String) (step : String) : List String :=
  if step = "." then place else if step = ".." then place.dropLast else place ++ [step]

theorem walks_nil_iff : Walks disk place [] last ↔ place = last := by
  constructor
  · rintro ⟨⟩
    rfl
  · rintro rfl
    exact .nil

/-- The first name is a step from a directory, and to a name there must be something. -/
theorem walks_cons_iff {step : String} {rest : List String} :
    Walks disk place (step :: rest) last ↔ disk.at? place = some none ∧
      (isDot step = false → disk.at? (place ++ [step]) ≠ none) ∧
        Walks disk (stepFrom place step) rest last := by
  constructor
  · intro hwalks
    cases hwalks with
    | here hstep hdirectory hrest =>
      subst hstep
      exact ⟨hdirectory, fun hname ↦ absurd hname (by decide), hrest⟩
    | up hstep hdirectory hrest =>
      subst hstep
      exact ⟨hdirectory, fun hname ↦ absurd hname (by decide), hrest⟩
    | name hstep hdirectory hthere hrest =>
      obtain ⟨hhere, hup⟩ : step ≠ "." ∧ step ≠ ".." := by simpa [isDot] using hstep
      rw [stepFrom, if_neg hhere, if_neg hup]
      exact ⟨hdirectory, fun _ ↦ hthere, hrest⟩
  · rintro ⟨hdirectory, hthere, hrest⟩
    rw [stepFrom] at hrest
    split_ifs at hrest with hhere hup
    · exact .here hhere hdirectory hrest
    · exact .up hup hdirectory hrest
    · have hname : isDot step = false := by simp [isDot, hhere, hup]
      exact .name hname hdirectory (hthere hname) hrest

theorem walk_eq_ok_iff : disk.walk place steps = .ok last ↔ Walks disk place steps last := by
  induction steps generalizing place with
  | nil => rw [walk, walks_nil_iff, Except.ok.injEq]
  | cons step rest ih =>
    rw [walk, walks_cons_iff, at?, Entry.at?_eq_directory_iff]
    cases hentry : disk.root.find? place with
    | none => simp
    | some entry =>
      cases entry with
      | file content => simp
      | directory entries =>
        simp only [contains_iff hentry, stepFrom]
        split_ifs with hhere hup hthere
        · simp [ih, hhere, isDot]
        · simp [ih, hup, isDot]
        · simp [ih, hthere]
        · simp [isDot, hhere, hup, hthere]

/-- Names lead to the same place while directories stay and something stands at that place. -/
theorem Walks.mono (hwalks : Walks before place steps last)
    (hdirectories : ∀ other, before.at? other = some none → after.at? other = some none)
    (hlast : after.at? last ≠ none) : Walks after place steps last := by
  induction hwalks with
  | nil => exact .nil
  | here hstep hdirectory _ ih => exact .here hstep (hdirectories _ hdirectory) (ih hlast)
  | up hstep hdirectory _ ih => exact .up hstep (hdirectories _ hdirectory) (ih hlast)
  | name hstep hdirectory _ hrest ih =>
    refine .name hstep (hdirectories _ hdirectory) ?_ (ih hlast)
    cases hrest with
    | nil => exact hlast
    | here _ hnext | up _ hnext | name _ hnext =>
      rw [hdirectories _ hnext]
      simp

theorem Walks.unique {other : List String} (hwalks : Walks disk place steps last)
    (hother : Walks disk place steps other) : last = other :=
  Except.ok.inj ((walk_eq_ok_iff.mpr hwalks).symm.trans (walk_eq_ok_iff.mpr hother))

theorem walks_append {firsts more : List String} : Walks disk place (firsts ++ more) last ↔
    ∃ middle, Walks disk place firsts middle ∧ Walks disk middle more last := by
  induction firsts generalizing place with
  | nil => simp [walks_nil_iff]
  | cons step rest ih =>
    simp only [List.cons_append, walks_cons_iff, ih]
    constructor
    · rintro ⟨hdirectory, hthere, middle, hrest, hmore⟩
      exact ⟨middle, ⟨hdirectory, hthere, hrest⟩, hmore⟩
    · rintro ⟨middle, ⟨hdirectory, hthere, hrest⟩, hmore⟩
      exact ⟨hdirectory, hthere, middle, hrest, hmore⟩

/-- Whatever stands somewhere stands below directories. -/
theorem at?_of_append {rest : List String} (hthere : disk.at? (place ++ name :: rest) ≠ none) :
    disk.at? place = some none := by
  rw [at?, Entry.at?, Entry.find?_append] at hthere
  rw [at?, Entry.at?_eq_directory_iff]
  cases hentry : disk.root.find? place with
  | none => simp [hentry] at hthere
  | some entry =>
    cases entry with
    | file content => simp [hentry, Entry.find?] at hthere
    | directory entries => exact ⟨entries, rfl⟩

theorem at?_dropLast (hdirectory : disk.at? place = some none) :
    disk.at? place.dropLast = some none := by
  rcases List.eq_nil_or_concat' place with rfl | ⟨above, name, rfl⟩
  · exact hdirectory
  · rw [List.dropLast_concat]
    exact at?_of_append (Option.ne_none_iff_exists'.mpr ⟨none, hdirectory⟩)

/-- Above a directory there are directories only. -/
theorem at?_of_initial (hinitial : place <+: last) (hdirectory : disk.at? last = some none) :
    disk.at? place = some none := by
  obtain ⟨more, rfl⟩ := hinitial
  cases more with
  | nil => rwa [List.append_nil] at hdirectory
  | cons name rest =>
    have hthere : disk.at? (place ++ name :: rest) ≠ none := by simp [hdirectory]
    exact at?_of_append hthere

/-- Names without a way up lead to a directory over those above it. -/
theorem Walks.of_plain (hwalks : Walks after place steps last) (hplain : ".." ∉ steps)
    (hlast : before.at? last = some none) : place <+: last ∧ Walks before place steps last := by
  induction hwalks with
  | nil => exact ⟨List.prefix_rfl, .nil⟩
  | here hstep _ _ ih =>
    obtain ⟨hinitial, hrest⟩ := ih (List.not_mem_of_not_mem_cons hplain) hlast
    exact ⟨hinitial, .here hstep (at?_of_initial hinitial hlast) hrest⟩
  | up hstep => exact absurd (hstep ▸ List.mem_cons_self) hplain
  | @name place _ _ step hstep _ _ _ ih =>
    obtain ⟨hinitial, hrest⟩ := ih (List.not_mem_of_not_mem_cons hplain) hlast
    have habove := (List.prefix_append place [step]).trans hinitial
    have hthere : before.at? (place ++ [step]) ≠ none := by
      rw [at?_of_initial hinitial hlast]
      simp
    exact ⟨habove, .name hstep (at?_of_initial habove hlast) hthere hrest⟩

/-- A file is not reached by a dot: the last name leads to it from its directory. -/
theorem Walks.exists_of_file {content : String} (hwalks : Walks disk place steps last)
    (hfile : disk.at? last = some (some content)) (hne : steps ≠ []) :
    ∃ firsts directory name, steps = firsts ++ [name] ∧ Walks disk place firsts directory ∧
      disk.at? directory = some none ∧ isDot name = false ∧ last = directory ++ [name] := by
  obtain ⟨firsts, name, rfl⟩ := (List.eq_nil_or_concat' steps).resolve_left hne
  obtain ⟨directory, hfirsts, hname⟩ := walks_append.mp hwalks
  cases hname with
  | here _ hdirectory hrest =>
    cases hrest
    cases hfile.symm.trans hdirectory
  | up _ hdirectory hrest =>
    cases hrest
    cases hfile.symm.trans (at?_dropLast hdirectory)
  | name hdot hdirectory _ hrest =>
    cases hrest
    exact ⟨firsts, directory, name, rfl, hfirsts, hdirectory, hdot, rfl⟩

/-! ### Paths -/

theorem locate_eq_ok_iff : disk.locate path = .ok place ↔ path.text ≠ "" ∧
    Walks disk (disk.startOf path)
      (Disk.steps path ++ if asksDirectory path then ["."] else []) place := by
  rw [locate, ← walk_eq_ok_iff]
  by_cases htext : path.text = ""
  · rw [if_pos htext]
    exact iff_of_false (by simp) fun hlocated ↦ hlocated.1 htext
  · rw [if_neg htext]
    exact (and_iff_right htext).symm

theorem locateLast_eq_ok_iff : disk.locateLast path = .ok (place, name) ↔
    ∃ firsts, Disk.steps path = firsts ++ [name] ∧ Walks disk (disk.startOf path) firsts place ∧
      disk.at? place = some none := by
  rw [locateLast]
  rcases List.eq_nil_or_concat' (Disk.steps path) with hnil | ⟨firsts, last, hsteps⟩
  · rw [hnil]
    exact iff_of_false (by simp) (by simp)
  · rw [hsteps, List.reverse_append, List.reverse_singleton, List.singleton_append]
    simp only [List.reverse_reverse, bind, Except.bind]
    constructor
    · intro hlocated
      cases hwalk : disk.walk (disk.startOf path) firsts with
      | error fault => simp [hwalk] at hlocated
      | ok middle =>
        rw [hwalk] at hlocated
        cases hentry : disk.root.find? middle with
        | none => simp [hentry] at hlocated
        | some entry =>
          cases entry with
          | file content => simp [hentry] at hlocated
          | directory entries =>
            simp only [hentry, Except.ok.injEq, Prod.mk.injEq] at hlocated
            obtain ⟨rfl, rfl⟩ := hlocated
            have hdirectory : disk.at? middle = some none :=
              Entry.at?_eq_directory_iff.mpr ⟨entries, hentry⟩
            exact ⟨firsts, rfl, walk_eq_ok_iff.mp hwalk, hdirectory⟩
    · rintro ⟨others, hothers, hwalks, hdirectory⟩
      obtain ⟨rfl, hname⟩ := List.append_inj' hothers rfl
      obtain rfl := List.singleton_inj.mp hname
      obtain ⟨entries, hentry⟩ := Entry.at?_eq_directory_iff.mp hdirectory
      rw [walk_eq_ok_iff.mpr hwalks]
      simp [hentry]

/-- The place where a file under the path stands, or would stand: its directory is there. -/
inductive FilePlace (disk : Disk) (path : Path) : List String → Prop
  | intro {firsts directory : List String} {name : String}
    (hsteps : Disk.steps path = firsts ++ [name]) (hname : isDot name = false)
    (hplain : asksDirectory path = false)
    (hwalks : Walks disk (disk.startOf path) firsts directory)
    (hdirectory : disk.at? directory = some none) : FilePlace disk path (directory ++ [name])

theorem filePlace_of_locateLast (hlocated : disk.locateLast path = .ok (place, name))
    (hname : isDot name = false) (hplain : asksDirectory path = false) :
    FilePlace disk path (place ++ [name]) := by
  obtain ⟨firsts, hsteps, hwalks, hdirectory⟩ := locateLast_eq_ok_iff.mp hlocated
  exact .intro hsteps hname hplain hwalks hdirectory

theorem FilePlace.locateLast (hplace : FilePlace disk path place) :
    ∃ directory name, disk.locateLast path = .ok (directory, name) ∧ isDot name = false ∧
      asksDirectory path = false ∧ place = directory ++ [name] := by
  obtain ⟨hsteps, hname, hplain, hwalks, hdirectory⟩ := hplace
  exact ⟨_, _, locateLast_eq_ok_iff.mpr ⟨_, hsteps, hwalks, hdirectory⟩, hname, hplain, rfl⟩

theorem FilePlace.exists_directory (hplace : FilePlace disk path place) :
    ∃ directory name, place = directory ++ [name] ∧ disk.at? directory = some none := by
  obtain ⟨-, -, -, -, hdirectory⟩ := hplace
  exact ⟨_, _, rfl, hdirectory⟩

theorem FilePlace.unique {other : List String} (hplace : FilePlace disk path place)
    (hother : FilePlace disk path other) : place = other := by
  obtain ⟨directory, name, hlocated, -, -, rfl⟩ := hplace.locateLast
  obtain ⟨directory', name', hlocated', -, -, rfl⟩ := hother.locateLast
  obtain ⟨rfl, rfl⟩ := Prod.mk.inj (Except.ok.inj (hlocated.symm.trans hlocated'))
  rfl

/-- What stands at the place of a file is what its path leads to. -/
theorem FilePlace.locate (hplace : FilePlace disk path place) (hthere : disk.at? place ≠ none) :
    disk.locate path = .ok place := by
  obtain ⟨hsteps, hname, hplain, hwalks, hdirectory⟩ := hplace
  have htext : path.text ≠ "" := by
    intro htext
    rw [show path = ⟨""⟩ from congrArg Path.mk htext, show Disk.steps ⟨""⟩ = [] from rfl] at hsteps
    simp at hsteps
  refine locate_eq_ok_iff.mpr ⟨htext, ?_⟩
  rw [hplain, hsteps, if_neg (by simp), List.append_nil]
  exact walks_append.mpr ⟨_, hwalks, .name hname hdirectory hthere .nil⟩

/-- A path without names asks for a directory: it is made of slashes. -/
theorem asksDirectory_of_steps (htext : path.text ≠ "") (hsteps : Disk.steps path = []) :
    asksDirectory path = true := by
  have hslash : ∀ c ∈ path.text.toList, c = '/' := by
    intro c hmem
    by_contra hc
    obtain ⟨part, hpart, hmem⟩ := Text.exists_mem_split (· = '/') hmem (decide_eq_false hc)
    rw [Disk.steps, List.map_eq_nil_iff, List.filter_eq_nil_iff] at hsteps
    exact hsteps part hpart (by simp [List.ne_nil_of_mem hmem])
  have hne : path.text.toList ≠ [] := by simpa using htext
  rw [asksDirectory, Text.endsWith, List.isSuffixOf_iff_suffix]
  refine ⟨path.text.toList.dropLast, ?_⟩
  rw [← hslash _ (List.getLast_mem hne)]
  exact List.dropLast_append_getLast hne

/-- A path that leads to a file leads to its place. -/
theorem filePlace_of_locate {content : String} (hlocated : disk.locate path = .ok place)
    (hfile : disk.at? place = some (some content)) : FilePlace disk path place := by
  obtain ⟨htext, hwalks⟩ := locate_eq_ok_iff.mp hlocated
  have hne : (Disk.steps path ++ if asksDirectory path then ["."] else []) ≠ [] := by
    intro hnil
    obtain ⟨hsteps, hplain⟩ := List.append_eq_nil_iff.mp hnil
    rw [if_pos (asksDirectory_of_steps htext hsteps)] at hplain
    cases hplain
  obtain ⟨firsts, directory, name, hsteps, hfirsts, hdirectory, hname, rfl⟩ :=
    hwalks.exists_of_file hfile hne
  have hplain : asksDirectory path = false := by
    by_contra hasks
    rw [if_pos (by simpa using hasks)] at hsteps
    obtain ⟨-, hdot⟩ := List.append_inj' hsteps rfl
    obtain rfl := List.singleton_inj.mp hdot
    cases hname
  rw [hplain, if_neg (by simp), List.append_nil] at hsteps
  exact .intro hsteps hname hplain hfirsts hdirectory

theorem readFile_eq_ok_iff {content : String} : disk.readFile path = .ok content ↔
    ∃ place, FilePlace disk path place ∧ disk.at? place = some (some content) := by
  rw [readFile]
  constructor
  · intro hread
    obtain ⟨place, hlocated, hread⟩ := bind_eq_ok.mp hread
    have hfile : disk.at? place = some (some content) := by
      rw [at?, Entry.at?_eq_file_iff]
      split at hread
      · rename_i hentry
        rwa [Except.ok.inj hread] at hentry
      · cases hread
      · cases hread
    exact ⟨place, filePlace_of_locate hlocated hfile, hfile⟩
  · rintro ⟨place, hplace, hfile⟩
    have hlocated := hplace.locate (Option.ne_none_iff_exists'.mpr ⟨_, hfile⟩)
    refine bind_eq_ok.mpr ⟨place, hlocated, ?_⟩
    rw [Entry.at?_eq_file_iff.mp hfile]

/-- Where nothing stands at the place of a file, its path leads to nothing. -/
theorem FilePlace.kindOf_eq_none (hplace : FilePlace disk path place)
    (hfree : disk.at? place = none) : disk.kindOf path = none := by
  rw [kindOf, entry?]
  cases hlocated : disk.locate path with
  | error fault => rfl
  | ok other =>
    obtain ⟨hsteps, hname, hplain, hwalks, hdirectory⟩ := hplace
    have hlast := (locate_eq_ok_iff.mp hlocated).2
    rw [hplain, hsteps, if_neg (by simp), List.append_nil] at hlast
    obtain ⟨middle, hfirsts, hlast⟩ := walks_append.mp hlast
    obtain rfl := hfirsts.unique hwalks
    cases hlast with
    | here hstep => simp [isDot, hstep] at hname
    | up hstep => simp [isDot, hstep] at hname
    | name _ _ hthere => exact absurd hfree hthere

/-- A path without a way up that leads to a place where something stood led there before. -/
theorem FilePlace.of_plain (hplace : FilePlace after path place)
    (hplain : ".." ∉ Disk.steps path) (hcurrent : after.current = before.current)
    (hthere : before.at? place ≠ none) : FilePlace before path place := by
  obtain ⟨hsteps, hname, hasks, hwalks, -⟩ := hplace
  have hdirectory := at?_of_append hthere
  rw [hsteps, List.mem_append, not_or] at hplain
  rw [show after.startOf path = before.startOf path by rw [startOf, startOf, hcurrent]] at hwalks
  exact .intro hsteps hname hasks (hwalks.of_plain hplain.1 hdirectory).2 hdirectory

/-- Places of files stay while directories stay. -/
theorem FilePlace.mono (hplace : FilePlace before path place)
    (hcurrent : after.current = before.current)
    (hdirectories : ∀ other, before.at? other = some none → after.at? other = some none) :
    FilePlace after path place := by
  obtain ⟨hsteps, hname, hplain, hwalks, hdirectory⟩ := hplace
  have hafter := hdirectories _ hdirectory
  rw [show before.startOf path = after.startOf path by rw [startOf, startOf, hcurrent]] at hwalks
  exact .intro hsteps hname hplain
    (hwalks.mono hdirectories (Option.ne_none_iff_exists'.mpr ⟨none, hafter⟩)) hafter

end Disk

end EventSchema
