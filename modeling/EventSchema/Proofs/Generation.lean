import EventSchema.Generation
import EventSchema.Proofs.Discovery
import EventSchema.Proofs.Disk.Changes
import EventSchema.Proofs.EventSet.Load
import EventSchema.Proofs.Path.Normal

/-!
# What a generation leaves on the disk

A run looks first (`prepare`), then it makes the directory of the output and publishes the artifact
there. If it fails, every file is there as it was, except the one that is written first (`Spared`);
if it succeeds, the artifact is under the output path, that file is not there, and every other file
is there as it was (`Replaced`). So it is on every file system whose failing writes leave at most a
part of the content and whose other failing operations leave nothing (`generate_spares`).
-/

set_option autoImplicit false

namespace EventSchema

/-! ### Names of files -/

namespace Path

variable {path : Path} {name : String}

theorem steps_filter (parts : List (List Char)) :
    steps (parts.filter fun part ↦ !part.isEmpty) = steps parts := by
  rw [steps, steps, List.filter_filter]
  refine congrArg _ (List.filter_congr fun part _ ↦ ?_)
  cases part <;> simp [isIdle]

/-- In front of the components that are steps there is at most a root or a dot. -/
theorem exists_components_eq (path : Path) :
    ∃ front, path.components = front ++ steps (Text.split isSlash path.text.toList) := by
  unfold components componentsOf
  split
  · rename_i rest htext
    refine ⟨[.root], ?_⟩
    rw [partComponents_true, htext, Text.split, if_pos (by simp), steps_nil_part]
    rfl
  · obtain ⟨first, rest, hsplit⟩ :=
      List.exists_cons_of_ne_nil (Text.split_ne_nil isSlash path.text.toList)
    exact ⟨_, by rw [hsplit, partComponents_false]⟩

/-- A file name is not empty and holds no slash. -/
theorem isStep_of_fileName? (hname : path.fileName? = some name) :
    (Component.name name).IsStep := by
  have hlast : path.components.getLast? = some (.name name) := by
    unfold fileName? at hname
    split at hname
    · rename_i text hlast
      rwa [Option.some.inj hname] at hlast
    · cases hname
  have hmem := List.mem_of_getLast? hlast
  have hspelled := isSpelled_components path
  generalize path.components = components at hmem hspelled
  cases hspelled with
  | relative hsteps => exact hsteps _ hmem
  | dotted hsteps =>
    rcases List.mem_cons.mp hmem with hhere | hmem
    · cases hhere
    · exact hsteps _ hmem
  | absolute hsteps =>
    rcases List.mem_cons.mp hmem with hroot | hmem
    · cases hroot
    · exact hsteps _ hmem

/-- The last step of a path that is no dot is its file name. -/
theorem eq_of_fileName? {firsts : List String} {last : String}
    (hname : path.fileName? = some name) (hsteps : Disk.steps path = firsts ++ [last])
    (hlast : Disk.isDot last = false) : last = name := by
  obtain ⟨parts, rest, hparts, -, hrest⟩ := List.map_eq_append_iff.mp hsteps
  obtain ⟨part, rfl, rfl⟩ := List.map_eq_singleton_iff.mp hrest
  have hdots : part ≠ ['.'] ∧ part ≠ ['.', '.'] := by
    constructor
    · rintro rfl
      simp [Disk.isDot] at hlast
    · rintro rfl
      simp [Disk.isDot] at hlast
  have hpart : part.isEmpty = false := by
    have hmem : part ∈ parts ++ [part] := List.mem_append_right _ List.mem_cons_self
    rw [← hparts] at hmem
    simpa using (List.mem_filter.mp hmem).2
  have hidle : steps (Text.split isSlash path.text.toList) =
      steps parts ++ [.name (String.ofList part)] := by
    rw [← steps_filter]
    refine (congrArg steps hparts).trans ?_
    rw [steps_append]
    simp [steps, isIdle, Component.ofChars, hdots, hpart]
  obtain ⟨front, hcomponents⟩ := exists_components_eq path
  rw [fileName?, hcomponents, hidle, ← List.append_assoc, List.getLast?_concat] at hname
  exact Option.some.inj hname

end Path

/-! ### The path that is written first -/

section Names

variable {output : Path} {name : String}

theorem steps_of_forall_not {last : String} (hne : last ≠ "")
    (hlast : ∀ c ∈ last.toList, Path.isSlash c = false) : Disk.steps ⟨last⟩ = [last] := by
  rw [Disk.steps, Text.split_of_forall_not hlast]
  simp [hne]

theorem steps_slash (front : String) {last : String} (hne : last ≠ "")
    (hlast : ∀ c ∈ last.toList, Path.isSlash c = false) :
    Disk.steps ⟨front ++ "/" ++ last⟩ = Disk.steps ⟨front⟩ ++ [last] := by
  rw [← steps_of_forall_not hne hlast]
  simp only [Disk.steps]
  rw [show (front ++ "/" ++ last).toList = front.toList ++ '/' :: last.toList by
    simp [String.toList_append], Text.split_append (by simp), List.filter_append, List.map_append]

/-- A slash at the end adds no step. -/
theorem steps_concat_slash (front : String) : Disk.steps ⟨front ++ "/"⟩ = Disk.steps ⟨front⟩ := by
  simp only [Disk.steps]
  rw [show (front ++ "/").toList = front.toList ++ '/' :: [] by simp [String.toList_append],
    Text.split_append (by simp), Text.split]
  simp

theorem steps_temporaryPath (hname : output.fileName? = some name) :
    Disk.steps (temporaryPath output name) =
      Disk.steps output.directory ++ [name ++ ".hogtyped.tmp"] := by
  obtain ⟨hne, -, -, hslash⟩ := Path.isStep_of_fileName? hname
  have hne' : name ++ ".hogtyped.tmp" ≠ "" := by simp
  have hslashes : ∀ c ∈ (name ++ ".hogtyped.tmp").toList, Path.isSlash c = false := by
    rw [String.toList_append]
    exact List.forall_mem_append.mpr ⟨hslash, by simp [Path.isSlash]⟩
  have hrelative : Path.isAbsolute ⟨name ++ ".hogtyped.tmp"⟩ = false := by
    rw [Path.isAbsolute, beq_eq_false_iff_ne]
    intro hhead
    have hmem : '/' ∈ (name ++ ".hogtyped.tmp").toList := List.mem_of_head? hhead
    exact absurd (hslashes '/' hmem) (by decide)
  rw [temporaryPath, Path.join, hrelative, Bool.false_or]
  generalize hbase : output.directory = base
  obtain ⟨text⟩ := base
  by_cases hempty : text = ""
  · rw [if_pos (decide_eq_true hempty), steps_of_forall_not hne' hslashes, hempty]
    rfl
  · rw [if_neg (by simpa using hempty)]
    by_cases hends : Text.endsWith ['/'] text.toList
    · obtain ⟨front, hfront⟩ := List.isSuffixOf_iff_suffix.mp hends
      have htext : text = String.ofList front ++ "/" := by
        apply String.toList_injective
        rw [String.toList_append, String.toList_ofList, ← hfront]
        rfl
      rw [if_pos hends, htext, steps_slash _ hne' hslashes, steps_concat_slash]
    · rw [if_neg hends]
      exact steps_slash text hne' hslashes

/-- A file that is written first is never written in place of the output. -/
theorem ne_of_temporaryPath {disk other : Disk} {place temporary : List String}
    (hname : output.fileName? = some name) (hplace : disk.FilePlace output place)
    (htemporary : other.FilePlace (temporaryPath output name) temporary) : place ≠ temporary := by
  obtain ⟨hsteps, hlast, -, -, -⟩ := hplace
  obtain ⟨hother, -, -, -, -⟩ := htemporary
  rw [steps_temporaryPath hname] at hother
  obtain ⟨-, hother⟩ := List.append_inj' hother rfl
  obtain rfl := List.singleton_inj.mp hother
  obtain rfl := Path.eq_of_fileName? hname hsteps hlast
  intro hsame
  obtain ⟨-, hsame⟩ := List.append_inj' hsame rfl
  have hlength := congrArg String.length (List.singleton_inj.mp hsame)
  rw [String.length_append] at hlength
  have hsuffix : ".hogtyped.tmp".length = 13 := rfl
  omega

end Names

/-! ### What a run leaves -/

/-- The place where the output is written first. -/
def TemporaryPlace (disk : Disk) (output : Path) (place : List String) : Prop :=
  ∃ name, output.fileName? = some name ∧ disk.FilePlace (temporaryPath output name) place

/-- What a run that failed leaves. The file of the output is the one that was there; only over a way
up can the path of the output lead to a file now where it led to none. -/
structure Spared (output : Path) (before after : Disk) : Prop where
  directory (place : List String) : before.at? place = some none → after.at? place = some none
  file (place : List String) : ¬TemporaryPlace after output place →
    after.fileAt? place = before.fileAt? place
  unchanged (place : List String) : after.FilePlace output place →
    after.fileAt? place = before.fileAt? place
  kept (content : String) : before.readFile output = .ok content →
    after.readFile output = .ok content
  absent (content : String) : ".." ∉ Disk.steps output → after.readFile output = .ok content →
    before.readFile output = .ok content

/-- What a run that succeeded leaves: the content is at the output and nowhere else. -/
structure Replaced (output : Path) (content : String) (before after : Disk) : Prop where
  directory (place : List String) : before.at? place = some none → after.at? place = some none
  written : after.readFile output = .ok content
  temporary : ∃ name, output.fileName? = some name ∧
    after.kindOf (temporaryPath output name) = none
  file (place : List String) : ¬after.FilePlace output place → ¬TemporaryPlace after output place →
    after.fileAt? place = before.fileAt? place

section Left

variable {before made middle after : Disk} {output : Path} {name content : String}

theorem spared_of_file (hcurrent : after.current = before.current)
    (hdirectory : ∀ place, before.at? place = some none → after.at? place = some none)
    (hfile : ∀ place, ¬TemporaryPlace after output place →
      after.fileAt? place = before.fileAt? place) : Spared output before after := by
  have houtput (place : List String) (hplace : after.FilePlace output place) :
      after.fileAt? place = before.fileAt? place := by
    refine hfile place ?_
    rintro ⟨name, hname, htemporary⟩
    exact ne_of_temporaryPath hname hplace htemporary rfl
  refine ⟨hdirectory, hfile, houtput, fun content hread ↦ ?_, fun content hplain hread ↦ ?_⟩
  · obtain ⟨place, hplace, hthere⟩ := Disk.readFile_eq_ok_iff.mp hread
    have hafter := hplace.mono hcurrent hdirectory
    refine Disk.readFile_eq_ok_iff.mpr ⟨place, hafter, Disk.at?_eq_file_iff.mpr ?_⟩
    rw [houtput place hafter, Disk.at?_eq_file_iff.mp hthere]
  · obtain ⟨place, hplace, hthere⟩ := Disk.readFile_eq_ok_iff.mp hread
    have hbefore : before.at? place = some (some content) := by
      rw [Disk.at?_eq_file_iff, ← houtput place hplace]
      exact Disk.at?_eq_file_iff.mp hthere
    refine Disk.readFile_eq_ok_iff.mpr ⟨place, hplace.of_plain hplain hcurrent ?_, hbefore⟩
    rw [hbefore]
    simp

theorem Disk.Grows.spared (hgrows : before.Grows after) :
    Spared output before after :=
  spared_of_file hgrows.current (fun _ ↦ hgrows.directory) fun place _ ↦ hgrows.fileAt? place

theorem spared_of_touches (hname : output.fileName? = some name) (hgrows : before.Grows made)
    (htouches : made.Touches (temporaryPath output name) after) : Spared output before after := by
  refine spared_of_file (htouches.current.trans hgrows.current) (fun place hdirectory ↦ ?_)
    fun place hother ↦ ?_
  · exact (htouches.directory_iff place).mpr (hgrows.directory hdirectory)
  · rw [htouches.fileAt? fun hplace ↦ hother ⟨name, hname, hplace⟩, hgrows.fileAt?]

theorem replaced_of_moves (hname : output.fileName? = some name) (hgrows : before.Grows made)
    (hwrites : made.Writes (temporaryPath output name) content middle)
    (hmoves : middle.Moves (temporaryPath output name) output after) :
    Replaced output content before after := by
  obtain ⟨old, place, hold, hplace, hfree, hfree', hcurrent, hafter⟩ := hmoves.of_writes hwrites
  have hapart : old ≠ place := (ne_of_temporaryPath hname hplace hold).symm
  have hdirectory (other : List String) (hthere : made.at? other = some none) :
      after.at? other = some none := by
    rw [hafter, if_neg, if_neg, hthere]
    · rintro rfl
      exact hfree hthere
    · rintro rfl
      exact hfree' hthere
  have hold' := hold.mono hcurrent hdirectory
  have hplace' := hplace.mono hcurrent hdirectory
  refine ⟨fun other hthere ↦ hdirectory other (hgrows.directory hthere), ?_, ?_, ?_⟩
  · refine Disk.readFile_eq_ok_iff.mpr ⟨place, hplace', ?_⟩
    rw [hafter, if_pos rfl]
  · refine ⟨name, hname, hold'.kindOf_eq_none ?_⟩
    rw [hafter, if_neg hapart, if_pos rfl]
  · intro other houtput htemporary
    rw [Disk.fileAt?, hafter, if_neg, if_neg, ← hgrows.fileAt?, Disk.fileAt?]
    · rintro rfl
      exact htemporary ⟨name, hname, hold'⟩
    · rintro rfl
      exact houtput hplace'

end Left

/-! ### The steps of a run -/

section Steps

variable {m : Type → Type} [Monad m] [FileSystem m]

/-- Makes the directory of an output. -/
def makeParent (output : Path) : CommandM m Unit := do
  if output.directory.text ≠ "" then
    if !(← (FileSystem.pathExists output.directory : m Bool)) then
      CommandM.attempt (FileSystem.createDirectories output.directory)

/-- Writes the content under one path and moves it to another, or cleans up. -/
def publish (temporary output : Path) (content : String) : CommandM m Unit := do
  let written : Except Fault Unit ← (FileSystem.write temporary content : m _)
  let moved ← match written with
    | .ok _ => (FileSystem.rename temporary output : m _)
    | .error fault => pure (.error fault)
  match moved with
  | .ok _ => return
  | .error fault =>
    let _ ← (FileSystem.remove temporary : m (Except Fault Unit))
    throw (.file fault)

/-- Everything before the output is written: the files, their events, and the plan of these. -/
def prepare (settings : Settings) (time : String) : CommandM m (List Path × EventSet × Plan) := do
  let files ← discover settings.pattern
  let set ← loadFiles files
  let plan ← CommandM.ofExcept .compile (Plan.ofEventSet set {
    className := settings.className
    mode := settings.mode
    generatedAt := time })
  CommandM.ofExcept (fun problem ↦ .settings (.className settings.className problem))
    (ClassName.checkAgainst settings.className plan.events)
  return (files, set, plan)

theorem writeAtomic_eq [LawfulMonad m] (output : Path) (content : String) :
    (writeAtomic output content : CommandM m Unit) = (makeParent output >>= fun _ ↦
      match output.fileName? with
      | none => throw (.outputWithoutName output)
      | some name => publish (temporaryPath output name) output content) := by
  rw [writeAtomic, makeParent]
  by_cases hempty : output.directory.text = ""
  · rw [if_neg (not_not.mpr hempty), if_neg (not_not.mpr hempty), pure_bind]
    rfl
  · rw [if_pos hempty, if_pos hempty, bind_assoc]
    refine bind_congr fun found ↦ ?_
    cases found with
    | false => rfl
    | true =>
      rw [if_neg (by decide), if_neg (by decide), pure_bind]
      rfl

theorem generate_eq [LawfulMonad m] (settings : Settings) (time : String) :
    (generate settings time : CommandM m Generated) = (do
      let (files, set, plan) ← prepare settings time
      writeAtomic settings.output (plan.render settings.language)
      return {
        output := settings.output
        eventCount := plan.events.length
        fileCount := files.length
        missing := set.missing
        overwrittenCount := set.overwritten.length }) := by
  simp only [generate, prepare, bind_assoc, pure_bind]

end Steps

/-! ### Runs on a disk -/

namespace FileSystem.OnDisk

variable {σ α β : Type} {s t : σ}

theorem run_bind_of_ok {program : CommandM (StateM σ) α} {next : α → CommandM (StateM σ) β}
    {value : α} (hrun : program.run.run s = (.ok value, t)) :
    (program >>= next).run.run s = (next value).run.run t := by
  rw [ExceptT.run_bind, StateT.run_bind, hrun]
  rfl

theorem run_bind_of_error {program : CommandM (StateM σ) α} {next : α → CommandM (StateM σ) β}
    {error : CommandError} (hrun : program.run.run s = (.error error, t)) :
    (program >>= next).run.run s = (.error error, t) := by
  rw [ExceptT.run_bind, StateT.run_bind, hrun]
  rfl

/-- A program that succeeds does so in both its halves. -/
theorem exists_of_run_bind_eq_ok {program : CommandM (StateM σ) α}
    {next : α → CommandM (StateM σ) β} {result : β} {u : σ}
    (hrun : (program >>= next).run.run s = (.ok result, u)) :
    ∃ value t, program.run.run s = (.ok value, t) ∧
      (next value).run.run t = (.ok result, u) := by
  cases hprogram : program.run.run s with
  | mk outcome t =>
    cases outcome with
    | error error =>
      rw [run_bind_of_error hprogram] at hrun
      cases hrun
    | ok value =>
      rw [run_bind_of_ok hprogram] at hrun
      exact ⟨value, t, rfl, hrun⟩

theorem run_lift_bind {program : StateM σ α} {next : α → CommandM (StateM σ) β} {value : α}
    (hrun : program.run s = (value, t)) :
    ((liftM program : CommandM (StateM σ) α) >>= next).run.run s = (next value).run.run t := by
  refine run_bind_of_ok ?_
  change (program >>= fun value ↦ pure (Except.ok value)).run s = _
  rw [StateT.run_bind, hrun]
  rfl

/-- Directories are only added, whether a program succeeds or not. -/
theorem grows_bind {disk : σ → Disk} {program : StateM σ α} {next : α → StateM σ β}
    (hprogram : ∀ s, (disk s).Grows (disk (program.run s).2))
    (hnext : ∀ value s, (disk s).Grows (disk ((next value).run s).2)) (s : σ) :
    (disk s).Grows (disk ((program >>= next).run s).2) :=
  (hprogram s).trans (hnext _ _)

theorem grows_of_looks {disk : σ → Disk} {program : StateM σ α} (hlooks : Looks disk program)
    (s : σ) : (disk s).Grows (disk (program.run s).2) := by
  rw [hlooks s]
  exact .refl _

variable [FileSystem (StateM σ)] {disk : σ → Disk} (hdisk : OnDisk disk)

include hdisk

theorem looks_prepare (settings : Settings) (time : String) :
    Looks disk (prepare settings time : CommandM (StateM σ) _).run := by
  rw [prepare]
  refine (hdisk.looks_discover _).andThen fun files ↦ ?_
  refine (hdisk.looks_loadFiles files).andThen fun set ↦ ?_
  refine (Looks.ofExcept _ _).andThen fun plan ↦ ?_
  exact (Looks.ofExcept _ _).andThen fun _ ↦ .return _

theorem grows_createDirectory (path : Path) (s : σ) : (disk s).Grows
    (disk ((FileSystem.createDirectory path : StateM σ (Except Fault Unit)).run s).2) := by
  have hends := hdisk.createDirectory path s
  generalize (FileSystem.createDirectory path : StateM σ (Except Fault Unit)).run s = ran at hends
  cases hends with
  | done hmakes => exact hmakes.grows
  | failed hsame =>
    rw [hsame]
    exact .refl _

theorem grows_createAbove (components : List Path.Component) (s : σ) :
    (disk s).Grows (disk ((createAbove components : StateM σ (Except Fault Unit)).run s).2) := by
  induction components generalizing s with
  | nil => exact .refl _
  | cons component above ih =>
    -- What is left to do when a directory could not be made: to see whether it is there.
    have hlook (path : Path) (fault : Fault) (s : σ) : (disk s).Grows (disk ((do
        return if ← isDirectory path then .ok () else .error fault :
          StateM σ (Except Fault Unit)).run s).2) :=
      grows_of_looks ((hdisk.looks_isDirectory path).bind fun _ ↦ .pure _) s
    rw [createAbove]
    refine grows_bind (hdisk.grows_createDirectory _) (fun first s ↦ ?_) s
    split
    · exact .refl _
    · refine grows_bind ih (fun made s ↦ ?_) s
      split
      · refine grows_bind (hdisk.grows_createDirectory _) (fun second s ↦ ?_) s
        split
        · exact .refl _
        · exact hlook _ _ s
      · exact .refl _
    · exact hlook _ _ s

theorem grows_makeParent (output : Path) (s : σ) :
    (disk s).Grows (disk ((makeParent output : CommandM (StateM σ) Unit).run.run s).2) := by
  rw [makeParent]
  split_ifs
  · rw [ExceptT.run_bind]
    refine grows_bind (grows_of_looks (hdisk.looks_pathExists _).lift) (fun found s ↦ ?_) s
    rcases found with fault | _ | _
    · exact .refl _
    · exact grows_bind (hdisk.grows_createAbove _) (fun _ _ ↦ .refl _) s
    · exact .refl _
  · exact .refl _

/-- After a failure the file that was written first is removed, or stays. -/
theorem ends_cleanup {done : σ → Prop} {before : Disk} {path : Path} (error : CommandError)
    (htouches : before.Touches path (disk s)) :
    Disk.Ends done (fun after ↦ before.Touches path (disk after))
      ((do let _ ← (FileSystem.remove path : StateM σ (Except Fault Unit)); throw error :
        CommandM (StateM σ) Unit).run.run s) := by
  have hremove := hdisk.remove path s
  generalize hran : (FileSystem.remove path : StateM σ (Except Fault Unit)).run s = ran at hremove
  cases hremove with
  | done hremoves =>
    rw [run_lift_bind hran]
    exact .failed (htouches.trans hremoves.touches)
  | failed hsame =>
    rw [run_lift_bind hran]
    refine .failed ?_
    rwa [hsame]

theorem ends_publish (temporary output : Path) (content : String) (s : σ) :
    Disk.Ends (fun after ↦ ∃ middle, (disk s).Writes temporary content middle ∧
        middle.Moves temporary output (disk after))
      (fun after ↦ (disk s).Touches temporary (disk after))
      ((publish temporary output content : CommandM (StateM σ) Unit).run.run s) := by
  rw [publish]
  have hwrite := hdisk.write temporary content s
  generalize hran : (FileSystem.write temporary content : StateM σ (Except Fault Unit)).run s =
    ran at hwrite
  cases hwrite with
  | @done middle hwrites =>
    rw [run_lift_bind hran]
    have hrename := hdisk.rename temporary output middle
    generalize hran' : (FileSystem.rename temporary output :
      StateM σ (Except Fault Unit)).run middle = ran' at hrename
    cases hrename with
    | done hmoves =>
      refine (congrArg (Disk.Ends _ _) (run_lift_bind hran')).mpr ?_
      exact .done ⟨_, hwrites, hmoves⟩
    | failed hsame =>
      refine (congrArg (Disk.Ends _ _) (run_lift_bind hran')).mpr ?_
      refine hdisk.ends_cleanup _ ?_
      rw [hsame]
      exact hwrites.touches
  | failed htears =>
    rw [run_lift_bind hran]
    exact hdisk.ends_cleanup _ htears.touches

theorem ends_writeAtomic (output : Path) (content : String) (s : σ) :
    Disk.Ends (fun after ↦ Replaced output content (disk s) (disk after))
      (fun after ↦ Spared output (disk s) (disk after))
      ((writeAtomic output content : CommandM (StateM σ) Unit).run.run s) := by
  rw [writeAtomic_eq]
  have hgrows := hdisk.grows_makeParent output s
  generalize hrun : (makeParent output : CommandM (StateM σ) Unit).run.run s = ran at hgrows
  obtain ⟨outcome, made⟩ := ran
  cases outcome with
  | error error =>
    rw [run_bind_of_error hrun]
    exact .failed hgrows.spared
  | ok _ =>
    rw [run_bind_of_ok hrun]
    cases hname : output.fileName? with
    | none => exact .failed hgrows.spared
    | some name =>
      refine (hdisk.ends_publish _ output content made).imp ?_ fun after htouches ↦ ?_
      · rintro after ⟨middle, hwrites, hmoves⟩
        exact replaced_of_moves hname hgrows hwrites hmoves
      · exact spared_of_touches hname hgrows htouches

end FileSystem.OnDisk

/-! ### A disk that is full, and one that is not -/

open FileSystem.OnDisk

/-- A schema, an artifact of an earlier run, and room for at most so many characters. -/
def artifactDisk (room : Option Nat) : Disk where
  root := .directory [("a.json", .file "\x7b\"events\":\x7b\"login\":\x7b\x7d\x7d\x7d"),
    ("out", .directory [("client.json", .file "old")])]
  room

def artifactSettings : Settings where
  pattern := "*.json"
  output := ⟨"out/client.json"⟩
  className := "Client"
  mode := .warning
  language := .json

def artifactPlan : Plan where
  options := { className := "Client", generatedAt := "now" }
  events := [.ofEvent EventSet.loginEvent]

theorem loadFiles_artifact (room : Option Nat) :
    (loadFiles [⟨"a.json"⟩] : CommandM DiskM EventSet).run.run (artifactDisk room) =
      (.ok { events := [EventSet.loginEvent] }, artifactDisk room) := by
  let file : Path × String := (⟨"a.json"⟩, "\x7b\"events\":\x7b\"login\":\x7b\x7d\x7d\x7d")
  have hparse : Json.parse file.2 = .ok EventSet.loginRoot := by cbv
  have htargets : Source.targetsOf file.1 file.2 = [] := by
    rw [Source.targetsOf, readContent, if_neg (by decide), hparse]
    rfl
  have hgather : (Source.gather [⟨"a.json"⟩] : DiskM Source).run (artifactDisk room) =
      ({ files := [file] }, artifactDisk room) := by
    rw [Source.gather, Source.gatherLimit, Source.gatherFrom, if_neg (by decide)]
    change (Source.gatherFrom 999999 _ ([] ++ Source.targetsOf file.1 file.2) _ :
      DiskM Source).run _ = _
    rw [htargets]
    rfl
  have hread : EventSet.readDocument { files := [file] } ⟨"a.json"⟩ =
      .ok ⟨⟨"a.json"⟩, EventSet.loginRoot⟩ :=
    EventSet.readDocument_of_json rfl (by decide) hparse rfl
  rw [loadFiles, run_lift_bind hgather, EventSet.load_eq_of_declarations
    (EventSet.mapM_readDocument (List.pairwise_singleton _ _) (.cons hread .nil)) rfl
    (EventSet.resolve_empty _ _ _)]
  rfl

theorem prepare_artifact (room : Option Nat)
    (hfound : ((discover "*.json" : CommandM DiskM _).run.run (artifactDisk room)).1 =
      .ok [⟨"a.json"⟩]) :
    (prepare artifactSettings "now" : CommandM DiskM _).run.run (artifactDisk room) =
      (.ok ([⟨"a.json"⟩], { events := [EventSet.loginEvent] }, artifactPlan),
        artifactDisk room) := by
  have hdiscover : (discover artifactSettings.pattern : CommandM DiskM _).run.run
      (artifactDisk room) = (.ok [⟨"a.json"⟩], artifactDisk room) :=
    Prod.ext hfound (Disk.onDisk.looks_discover _ _)
  rw [prepare, run_bind_of_ok hdiscover, run_bind_of_ok (loadFiles_artifact room)]
  rfl

end EventSchema
