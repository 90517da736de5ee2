import EventSchema.Proofs.Generation

/-!
# Which files a watcher follows

A run reads the files that a pattern matches; a watcher asks for a new run when a file changes that
has the extension of a schema (`isSchemaFile_iff`) and is not the output. The two go together as far
as the extension does: of the files that a pattern finds, exactly those that have it and are not the
output are followed, when they are found and after they are written
(`isRelevantChange_iff_of_discover`). Whether a file is the output is decided by absolute paths,
which tell places apart because names hold no slash (`components_absolute`). A pattern may find
other files as well, and these are read but not followed (`isRelevantChange_eq_false_of_discover`).
-/

set_option autoImplicit false

namespace EventSchema

/-! ### Extensions -/

namespace Path

variable {path : Path} {name stem extension : String}

theorem split_plain {text : List Char} (hplain : '.' ∉ text) :
    Text.split (· = '.') text = [text] :=
  Text.split_of_forall_not fun _ hc ↦ decide_eq_false fun hdot ↦ hplain (hdot ▸ hc)

theorem extension?_of_plain (hname : path.fileName? = some name) (hplain : '.' ∉ name.toList) :
    path.extension? = none := by
  rw [extension?, hname, Option.bind_eq_bind, Option.bind_some, split_plain hplain]
  rfl

theorem extension?_of_dotted (hname : path.fileName? = some (stem ++ "." ++ extension))
    (hplain : '.' ∉ extension.toList) :
    path.extension? = if stem = "" then none else some extension := by
  have htext : (stem ++ "." ++ extension).toList = stem.toList ++ '.' :: extension.toList := by
    simp [String.toList_append]
  obtain ⟨before, more, hparts⟩ := List.exists_cons_of_ne_nil
    (mt List.reverse_eq_nil_iff.mp (Text.split_ne_nil (· = '.') stem.toList))
  have hempty : (more.isEmpty && before.isEmpty) = true ↔ stem = "" := by
    have hsplit : Text.split (· = '.') stem.toList = [[]] ↔ before :: more = [[]] := by
      rw [← hparts, List.reverse_eq_iff, List.reverse_singleton]
    rw [← String.toList_eq_nil_iff, ← Text.split_eq_empty_iff, hsplit]
    simp [and_comm]
  rw [extension?, hname, Option.bind_eq_bind, Option.bind_some, htext,
    Text.split_append (by simp), split_plain hplain, List.reverse_append, List.reverse_singleton,
    List.singleton_append, hparts]
  simp only [hempty, String.ofList_toList]

theorem exists_last_dot (hdotted : '.' ∈ name.toList) :
    ∃ stem extension, name = stem ++ "." ++ extension ∧ '.' ∉ extension.toList := by
  obtain ⟨after, before, hsplit, hafter⟩ :=
    List.eq_append_cons_of_mem (List.mem_reverse.mpr hdotted)
  refine ⟨String.ofList before.reverse, String.ofList after.reverse, ?_, by simpa using hafter⟩
  apply String.toList_injective
  rw [← List.reverse_reverse name.toList, hsplit]
  simp [String.toList_append]

/-- The extension follows the last dot, unless that is the first character. -/
theorem extension?_eq_some_iff : path.extension? = some extension ↔
    ∃ stem, path.fileName? = some (stem ++ "." ++ extension) ∧ stem ≠ "" ∧
      '.' ∉ extension.toList := by
  constructor
  · intro hextension
    cases hname : path.fileName? with
    | none => simp [Path.extension?, hname] at hextension
    | some name =>
      by_cases hdotted : '.' ∈ name.toList
      · obtain ⟨stem, last, rfl, hplain⟩ := exists_last_dot hdotted
        rw [extension?_of_dotted hname hplain] at hextension
        split_ifs at hextension with hstem
        cases hextension
        exact ⟨stem, rfl, hstem, hplain⟩
      · rw [extension?_of_plain hname hdotted] at hextension
        cases hextension
  · rintro ⟨stem, hname, hstem, hplain⟩
    rw [extension?_of_dotted hname hplain, if_neg hstem]

end Path

/-- The file name ends in one of the extensions of schemas, in any letter case. -/
def HasSchemaExtension (path : Path) : Prop :=
  ∃ stem extension, path.fileName? = some (stem ++ "." ++ extension) ∧ stem ≠ "" ∧
    Language.lower extension.toList ∈ Watch.schemaExtensions

theorem not_mem_of_lower {extension : String}
    (hmem : Language.lower extension.toList ∈ Watch.schemaExtensions) :
    '.' ∉ extension.toList := by
  intro hdot
  have hlower : '.' ∈ (Language.lower extension.toList).toList := by
    rw [Language.lower, String.toList_ofList]
    exact List.mem_map.mpr ⟨'.', hdot, rfl⟩
  have hnone : ∀ known ∈ Watch.schemaExtensions, '.' ∉ known.toList := by decide
  exact hnone _ hmem hlower

theorem isSchemaFile_iff {path : Path} :
    Watch.isSchemaFile path = true ↔ HasSchemaExtension path := by
  have hfilter : Watch.isSchemaFile path = true ↔ ∃ extension, path.extension? = some extension ∧
      Language.lower extension.toList ∈ Watch.schemaExtensions := by
    rw [Watch.isSchemaFile]
    cases path.extension? with
    | none => simp
    | some extension => simp
  rw [hfilter]
  constructor
  · rintro ⟨extension, hextension, hmem⟩
    obtain ⟨stem, hname, hstem, -⟩ := Path.extension?_eq_some_iff.mp hextension
    exact ⟨stem, extension, hname, hstem, hmem⟩
  · rintro ⟨stem, extension, hname, hstem, hmem⟩
    have hplain := not_mem_of_lower hmem
    exact ⟨extension, Path.extension?_eq_some_iff.mpr ⟨stem, hname, hstem, hplain⟩, hmem⟩

/-! ### Absolute paths -/

namespace Disk

/-- Names as files and directories have them: not empty, no dots, and without a slash. -/
def Named (place : List String) : Prop := ∀ name ∈ place, (Path.Component.name name).IsStep

variable {disk : Disk} {place steps last : List String} {path output : Path}

theorem isSlash_of_mem_steps {step : String} (hstep : step ∈ Disk.steps path) :
    step ≠ "" ∧ ∀ c ∈ step.toList, Path.isSlash c = false := by
  obtain ⟨part, hpart, rfl⟩ := List.mem_map.mp hstep
  obtain ⟨hmem, hne⟩ := List.mem_filter.mp hpart
  rw [String.toList_ofList]
  exact ⟨by simpa using hne, fun c ↦ Text.isBreak_of_mem_split hmem⟩

theorem Walks.named (hwalks : Walks disk place steps last) (hplace : Named place)
    (hsteps : ∀ step ∈ steps, step ≠ "" ∧ ∀ c ∈ step.toList, Path.isSlash c = false) :
    Named last := by
  induction hwalks with
  | nil => exact hplace
  | here _ _ _ ih => exact ih hplace fun step hmem ↦ hsteps step (List.mem_cons_of_mem _ hmem)
  | up _ _ _ ih =>
    exact ih (fun name hmem ↦ hplace name (List.dropLast_subset _ hmem))
      fun step hmem ↦ hsteps step (List.mem_cons_of_mem _ hmem)
  | @name _ _ _ step hdot _ _ _ ih =>
    refine ih ?_ fun step hmem ↦ hsteps step (List.mem_cons_of_mem _ hmem)
    obtain ⟨hne, hslash⟩ := hsteps step List.mem_cons_self
    obtain ⟨hhere, hup⟩ : step ≠ "." ∧ step ≠ ".." := by simpa [isDot] using hdot
    exact List.forall_mem_append.mpr
      ⟨hplace, List.forall_mem_singleton.mpr ⟨hne, hhere, hup, hslash⟩⟩

/-- A path leads to names, if the working directory is one of names. -/
theorem named_of_locate (hcurrent : Named disk.current) (hlocated : disk.locate path = .ok place) :
    Named place := by
  obtain ⟨-, hwalks⟩ := locate_eq_ok_iff.mp hlocated
  refine hwalks.named ?_ fun step hmem ↦ ?_
  · rw [startOf]
    split_ifs
    · exact List.forall_mem_nil _
    · exact hcurrent
  · rcases List.mem_append.mp hmem with hstep | hdot
    · exact isSlash_of_mem_steps hstep
    · obtain rfl : step = "." := by
        split_ifs at hdot
        · exact List.mem_singleton.mp hdot
        · exact absurd hdot List.not_mem_nil
      exact ⟨by decide, by simp⟩

theorem intercalate_slash (place : List String) :
    ("/".intercalate place).toList =
      Text.join ['/'] ((place.map Path.Component.name).map Path.Component.chars) := by
  induction place with
  | nil => rfl
  | cons name rest ih =>
    cases rest with
    | nil => simp [Text.join, Path.Component.chars]
    | cons next more =>
      rw [String.intercalate_cons_cons, String.toList_append, ih]
      simp [Text.join, Path.Component.chars, String.toList_append]

/-- An absolute path has the names of its place. -/
theorem components_absolute (hplace : Named place) :
    (⟨"/" ++ "/".intercalate place⟩ : Path).components = .root :: place.map .name := by
  have hspelled : Path.IsSpelled (.root :: place.map .name) :=
    .absolute (List.forall_mem_map.mpr hplace)
  rw [← Path.components_ofComponents hspelled, Path.ofComponents]
  congr 2
  apply String.toList_injective
  rw [String.toList_append, intercalate_slash, String.toList_ofList]
  simp

/-- The path is that of the file at the place: it leads there, or it leads nowhere, as with a slash
at its end, but names the place. -/
def IsPathOf (disk : Disk) (place : List String) (path : Path) : Prop :=
  disk.locate path = .ok place ∨
    (∀ other, disk.locate path ≠ .ok other) ∧ path.components = .root :: place.map .name

/-- The absolute path of what is at a path, or the path as it is spelled. -/
def fullPath (disk : Disk) (path : Path) : Path := (disk.canonicalPath? path).getD path

theorem fullPath_of_locate (hlocated : disk.locate path = .ok place) :
    disk.fullPath path = ⟨"/" ++ "/".intercalate place⟩ := by
  rw [fullPath, canonicalPath?, hlocated, Option.getD_some]

theorem fullPath_of_error {fault : Fault} (hlocated : disk.locate path = .error fault) :
    disk.fullPath path = path := by
  rw [fullPath, canonicalPath?, hlocated, Option.getD_none]

/-- Two full paths are the same if the second path is that of the file that the first leads to. -/
theorem same_fullPath_iff (hcurrent : Named disk.current)
    (hlocated : disk.locate path = .ok place) :
    (disk.fullPath path).same (disk.fullPath output) = true ↔ disk.IsPathOf place output := by
  rw [fullPath_of_locate hlocated, Path.same, beq_iff_eq,
    components_absolute (named_of_locate hcurrent hlocated), IsPathOf]
  cases houtput : disk.locate output with
  | error fault =>
    rw [fullPath_of_error houtput]
    simp [eq_comm]
  | ok other =>
    rw [fullPath_of_locate houtput, components_absolute (named_of_locate hcurrent houtput),
      List.cons_inj_right,
      (List.map_injective_iff.mpr fun _ _ ↦ Path.Component.name.inj).eq_iff]
    simp [eq_comm]

theorem run_isRelevantChange (path output : Path) (disk : Disk) :
    (isRelevantChange path output : DiskM Bool).run disk =
      (Watch.isSchemaFile path && !(disk.fullPath path).same (disk.fullPath output), disk) := by
  rw [isRelevantChange]
  cases Watch.isSchemaFile path <;> rfl

end Disk

/-! ### Discovered files -/

namespace Disk

open FileSystem.OnDisk

theorem run_filterM_isFile (found : List Path) (disk : Disk) :
    (found.filterM fun path ↦ (FileSystem.isFile path : DiskM Bool) : CommandM DiskM _).run.run
        disk =
      (.ok (found.filter fun path ↦ disk.kindOf path = some .file), disk) := by
  have haux (kept : List Path) :
      (found.filterAuxM (fun path ↦ (FileSystem.isFile path : DiskM Bool)) kept :
        CommandM DiskM _).run.run disk =
      (.ok ((found.filter fun path ↦ disk.kindOf path = some .file).reverse ++ kept), disk) := by
    induction found generalizing kept with
    | nil => rfl
    | cons path rest ih =>
      have hkind : (FileSystem.isFile path : DiskM Bool).run disk =
          (decide (disk.kindOf path = some .file), disk) := rfl
      rw [List.filterAuxM, run_lift_bind hkind, ih]
      by_cases hfile : disk.kindOf path = some .file
      · simp [hfile]
      · simp [hfile]
  rw [List.filterM, run_bind_of_ok (haux []), List.append_nil, List.reverse_reverse]
  rfl

/-- What a pattern finds are files. -/
theorem kindOf_of_discover {disk looked : Disk} {pattern : String} {files : List Path}
    (hdiscover : (discover pattern : CommandM DiskM (List Path)).run.run disk =
      (.ok files, looked)) : looked = disk ∧ ∀ path ∈ files, disk.kindOf path = some .file := by
  have hlooked : looked = disk := by
    have hsame := Disk.onDisk.looks_discover pattern disk
    rw [hdiscover] at hsame
    exact hsame
  subst hlooked
  rw [discover] at hdiscover
  obtain ⟨glob, s, -, hdiscover⟩ := exists_of_run_bind_eq_ok hdiscover
  obtain ⟨found, t, -, hdiscover⟩ := exists_of_run_bind_eq_ok hdiscover
  rw [run_bind_of_ok (run_filterM_isFile found t)] at hdiscover
  obtain ⟨hfiles, rfl⟩ := Prod.mk.inj hdiscover
  refine ⟨rfl, fun path hmem ↦ ?_⟩
  rw [← Except.ok.inj hfiles, List.mem_mergeSort, List.mem_filter] at hmem
  simpa using hmem.2

/-- A path to a file leads to the place of the file. -/
theorem exists_filePlace {disk : Disk} {path : Path} (hkind : disk.kindOf path = some .file) :
    ∃ place content, FilePlace disk path place ∧ disk.at? place = some (some content) := by
  obtain ⟨entry, hentry, hkind⟩ := Option.map_eq_some_iff.mp hkind
  rw [ entry?] at hentry
  cases hlocated : disk.locate path with
  | error fault => simp [hlocated] at hentry
  | ok place =>
    rw [hlocated] at hentry
    cases entry with
    | directory entries => cases hkind
    | file content =>
      have hfile : disk.at? place = some (some content) := Entry.at?_eq_file_iff.mpr hentry
      exact ⟨place, content, filePlace_of_locate hlocated hfile, hfile⟩

/-- After a file was written its path leads where it led. -/
theorem Writes.locate {disk now : Disk} {path : Path} {content : String} {place : List String}
    (hwrites : disk.Writes path content now) (hplace : FilePlace disk path place) :
    now.locate path = .ok place := by
  have hnow := hwrites.touches.filePlace_iff.mpr hplace
  obtain ⟨hwritten, -, hafter⟩ := hwrites
  obtain rfl := hwritten.unique hplace
  refine hnow.locate ?_
  rw [hafter.at?, if_pos rfl]
  simp

end Disk

/-- Of the files that a pattern finds a watcher follows those with the extension of a schema, except
the output, when they are found and after they are written. -/
theorem isRelevantChange_iff_of_discover {disk looked : Disk} (hcurrent : Disk.Named disk.current)
    {pattern : String} {files : List Path}
    (hdiscover : (discover pattern : CommandM DiskM (List Path)).run.run disk =
      (.ok files, looked)) {path : Path} (hmem : path ∈ files) :
    ∃ place content, disk.locate path = .ok place ∧ disk.at? place = some (some content) ∧
      ∀ now, now = disk ∨ (∃ content, disk.Writes path content now) → ∀ output,
        (((isRelevantChange path output : DiskM Bool).run now).1 = true ↔
          HasSchemaExtension path ∧ ¬now.IsPathOf place output) := by
  obtain ⟨-, hfiles⟩ := Disk.kindOf_of_discover hdiscover
  obtain ⟨place, content, hplace, hfile⟩ := Disk.exists_filePlace (hfiles path hmem)
  have hlocated := hplace.locate (by simp [hfile])
  refine ⟨place, content, hlocated, hfile, fun now hnow output ↦ ?_⟩
  obtain ⟨hcurrentNow, hlocatedNow⟩ :
      Disk.Named now.current ∧ now.locate path = .ok place := by
    rcases hnow with rfl | ⟨written, hwrites⟩
    · exact ⟨hcurrent, hlocated⟩
    · exact ⟨hwrites.touches.current ▸ hcurrent, hwrites.locate hplace⟩
  rw [Disk.run_isRelevantChange, Bool.and_eq_true, isSchemaFile_iff, Bool.not_eq_true',
    ← Bool.not_eq_true, Disk.same_fullPath_iff hcurrentNow hlocatedNow]

/-- Two schemas beside each other, one of them with an extension of its own. -/
def schemaDisk : Disk where
  root := .directory [("work", .directory [("schemas", .directory [
    ("a.json", .file "\x7b\x7d"), ("b.schema", .file "\x7b\x7d")])])]
  current := ["work"]

theorem isRelevantChange_iff_of_discover_json :
    ((discover "schemas/*.json" : CommandM DiskM (List Path)).run.run schemaDisk).1 =
        .ok [⟨"schemas/a.json"⟩] ∧
      ((isRelevantChange ⟨"schemas/a.json"⟩ ⟨"out.json"⟩ : DiskM Bool).run schemaDisk).1 =
        true := by
  have hcurrent : Disk.Named schemaDisk.current := by
    simp [Disk.Named, schemaDisk, Path.Component.IsStep]
  have hfound : ((discover "schemas/*.json" : CommandM DiskM (List Path)).run.run schemaDisk).1 =
      .ok [⟨"schemas/a.json"⟩] := by decide +kernel
  have hdiscover : (discover "schemas/*.json" : CommandM DiskM (List Path)).run.run schemaDisk =
      (.ok [⟨"schemas/a.json"⟩], schemaDisk) :=
    Prod.ext hfound (Disk.onDisk.looks_discover _ _)
  obtain ⟨place, content, -, -, hfollows⟩ :=
    isRelevantChange_iff_of_discover hcurrent hdiscover List.mem_cons_self
  refine ⟨hfound, (hfollows schemaDisk (.inl rfl) ⟨"out.json"⟩).mpr ⟨?_, ?_⟩⟩
  · exact ⟨"a", "json", by decide +kernel, by decide, by decide +kernel⟩
  · have hnowhere : schemaDisk.locate ⟨"out.json"⟩ = .error .notFound := by decide +kernel
    rintro (hsame | ⟨-, hcomponents⟩)
    · cases hnowhere.symm.trans hsame
    · revert hcomponents
      rw [show (⟨"out.json"⟩ : Path).components = [.name "out.json"] by decide +kernel]
      simp

/-- A pattern may find a file that no watcher follows, though the output is elsewhere. -/
theorem isRelevantChange_eq_false_of_discover :
    ((discover "schemas/*.schema" : CommandM DiskM (List Path)).run.run schemaDisk).1 =
        .ok [⟨"schemas/b.schema"⟩] ∧
      schemaDisk.canonicalPath? ⟨"schemas/b.schema"⟩ = some ⟨"/work/schemas/b.schema"⟩ ∧
      schemaDisk.canonicalPath? ⟨"out.json"⟩ = none ∧
      ((isRelevantChange ⟨"schemas/b.schema"⟩ ⟨"out.json"⟩ : DiskM Bool).run schemaDisk).1 =
        false :=
  ⟨by decide +kernel, by decide +kernel, by decide +kernel, by decide +kernel⟩

end EventSchema
