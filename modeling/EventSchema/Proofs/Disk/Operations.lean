import EventSchema.Proofs.Disk.Places

/-!
# What operations do to a disk

An operation changes what stands at one place, or moves a file from one place to another; a write
that is broken off leaves the file with a part of its content. All else stays, and a failed
operation other than a write changes nothing. A file system over a disk is one of which this is true
(`FileSystem.OnDisk`), however and whenever its operations fail; the disk itself is one
(`Disk.onDisk`).
-/

set_option autoImplicit false

namespace EventSchema

namespace Disk

/-! ### Changes -/

/-- Just one place has changed. -/
structure SetsAt (before : Disk) (place : List String) (what : Option (Option String))
    (after : Disk) : Prop where
  current : after.current = before.current
  at? (other : List String) : after.at? other = if other = place then what else before.at? other

/-- The file under the path has the content, and was no directory. -/
inductive Writes (before : Disk) (path : Path) (content : String) (after : Disk) : Prop
  | intro {place : List String} (hplace : FilePlace before path place)
    (hfree : before.at? place ≠ some none)
    (hafter : SetsAt before place (some (some content)) after)

/-- The path led to nothing, and a directory is there now. -/
inductive Makes (before : Disk) (path : Path) (after : Disk) : Prop
  | intro {directory : List String} {name : String}
    (hlocated : before.locateLast path = .ok (directory, name))
    (hfree : before.at? (directory ++ [name]) = none)
    (hafter : SetsAt before (directory ++ [name]) (some none) after)

/-- The file under the first path is now the one under the second. -/
inductive Moves (before : Disk) (source target : Path) (after : Disk) : Prop
  | intro {old place : List String} {content : String} (hold : FilePlace before source old)
    (hfile : before.at? old = some (some content)) (hplace : FilePlace before target place)
    (hfree : before.at? place ≠ some none) (hcurrent : after.current = before.current)
    (hafter : ∀ other, after.at? other = if other = place then some (some content)
      else if other = old then none else before.at? other)

/-- The file under the path is gone. -/
inductive Removes (before : Disk) (path : Path) (after : Disk) : Prop
  | intro {place : List String} {content : String} (hplace : FilePlace before path place)
    (hfile : before.at? place = some (some content)) (hafter : SetsAt before place none after)

/-- A write that is broken off: nothing has changed, or a part of the content is there. -/
inductive Tears (before : Disk) (path : Path) (content : String) : Disk → Prop
  | untouched : Tears before path content before
  | part {text : String} {after : Disk} (hpart : text.toList <+: content.toList)
    (hwrites : Writes before path text after) : Tears before path content after

/-- An operation is done, or it fails and leaves something behind. -/
inductive Ends {ε σ : Type} (done left : σ → Prop) : Except ε Unit × σ → Prop
  | done {after : σ} (hdone : done after) : Ends done left (.ok (), after)
  | failed {error : ε} {after : σ} (hleft : left after) : Ends done left (.error error, after)

theorem Ends.imp {ε σ : Type} {done done' left left' : σ → Prop} {ran : Except ε Unit × σ}
    (hends : Ends done left ran) (hdone : ∀ after, done after → done' after)
    (hleft : ∀ after, left after → left' after) : Ends done' left' ran := by
  cases hends with
  | done hafter => exact .done (hdone _ hafter)
  | failed hafter => exact .failed (hleft _ hafter)

/-! ### The operations of a disk -/

section Operations

variable {disk : Disk} {path : Path} {place directory : List String} {name content : String}

theorem setsAt_put {leaf : Entry} (hleaf : ∀ first rest, leaf.at? (first :: rest) = none)
    (hdirectory : disk.at? directory = some none)
    (hfree : disk.at? (directory ++ [name]) ≠ some none) (room : Option Nat) :
    SetsAt disk (directory ++ [name]) (some leaf.content?)
      { disk with root := disk.root.put (directory ++ [name]) leaf, room } :=
  ⟨rfl, Entry.at?_put hleaf hdirectory hfree⟩

theorem ends_writeAt (hplace : FilePlace disk path place) (hfree : disk.at? place ≠ some none)
    (content : String) :
    Ends (Writes disk path content) (Tears disk path content) (disk.writeAt place content) := by
  obtain ⟨directory, name, hlocated, -, -, rfl⟩ := hplace.locateLast
  obtain ⟨-, -, -, hdirectory⟩ := locateLast_eq_ok_iff.mp hlocated
  have hput (text : String) (room : Option Nat) : Writes disk path text
      { disk with root := disk.root.put (directory ++ [name]) (.file text), room } :=
    .intro hplace hfree (setsAt_put (Entry.at?_file_cons text) hdirectory hfree room)
  rw [writeAt]
  split
  · exact .done (hput content _)
  · rename_i room hroom
    by_cases hlength : content.length ≤ room
    · have hwhole : String.ofList (content.toList.take room) = content := by
        rw [List.take_of_length_le (by rwa [String.length_toList]), String.ofList_toList]
      rw [if_pos hlength, hwhole]
      exact .done (hput content _)
    · rw [if_neg hlength]
      refine .failed (.part ?_ (hput _ _))
      rw [String.toList_ofList]
      exact List.take_prefix room content.toList

theorem ends_writeFile (disk : Disk) (path : Path) (content : String) :
    Ends (Writes disk path content) (Tears disk path content) (disk.writeFile path content) := by
  rw [writeFile]
  split
  · exact .failed .untouched
  · rename_i directory name hlocated
    by_cases hspelled : isDot name || asksDirectory path
    · rw [if_pos hspelled]
      exact .failed .untouched
    · rw [if_neg hspelled]
      rw [Bool.or_eq_true, not_or, Bool.not_eq_true, Bool.not_eq_true] at hspelled
      split
      · exact .failed .untouched
      · rename_i hentry
        refine ends_writeAt (filePlace_of_locateLast hlocated hspelled.1 hspelled.2) ?_ content
        intro hdirectory
        obtain ⟨entries, hentries⟩ := Entry.at?_eq_directory_iff.mp hdirectory
        exact hentry entries hentries

theorem ends_makeDirectory (disk : Disk) (path : Path) :
    Ends (Makes disk path) (· = disk) (disk.makeDirectory path) := by
  rw [makeDirectory]
  split
  · exact .failed rfl
  · exact .failed rfl
  · rename_i directory name hlocated
    by_cases hthere : isDot name || (disk.root.find? (directory ++ [name])).isSome
    · rw [if_pos hthere]
      exact .failed rfl
    · rw [if_neg hthere]
      rw [Bool.or_eq_true, not_or, Bool.not_eq_true, Bool.not_eq_true, Option.isSome_eq_false_iff,
        Option.isNone_iff_eq_none] at hthere
      have hfree : disk.at? (directory ++ [name]) = none := by
        rw [at?, Entry.at?, hthere.2, Option.map_none]
      obtain ⟨-, -, -, hdirectory⟩ := locateLast_eq_ok_iff.mp hlocated
      have hempty (first : String) (rest : List String) :
          (Entry.directory []).at? (first :: rest) = none := rfl
      exact .done (.intro hlocated hfree
        (setsAt_put hempty hdirectory (by simp [hfree]) disk.room))

theorem at?_erase (hplace : FilePlace disk path place)
    (hfile : disk.at? place = some (some content)) (other : List String) :
    (disk.root.erase place).at? other = if other = place then none else disk.at? other := by
  obtain ⟨directory, name, rfl, hdirectory⟩ := hplace.exists_directory
  have hfree : disk.at? (directory ++ [name]) ≠ some none := by simp [hfile]
  exact Entry.at?_erase hdirectory hfree other

/-- To take a file away and put it elsewhere is to move it. -/
theorem moves_put_erase {source target : Path} {old : List String}
    (hold : FilePlace disk source old) (hfile : disk.at? old = some (some content))
    (hplace : FilePlace disk target place) (hfree : disk.at? place ≠ some none) :
    Moves disk source target
      { disk with root := (disk.root.erase old).put place (.file content) } := by
  refine .intro hold hfile hplace hfree rfl fun other ↦ ?_
  have herased := at?_erase hold hfile
  obtain ⟨directory, name, rfl, hdirectory⟩ := hplace.exists_directory
  have hapart : directory ≠ old := by
    rintro rfl
    cases hfile.symm.trans hdirectory
  have hdirectory' : (disk.root.erase old).at? directory = some none := by
    rw [herased, if_neg hapart, hdirectory]
  have hfree' : (disk.root.erase old).at? (directory ++ [name]) ≠ some none := by
    rw [herased]
    split_ifs
    · simp
    · exact hfree
  rw [at?, Entry.at?_put (Entry.at?_file_cons content) hdirectory' hfree', herased]
  rfl

/-- A file goes to any place that is no directory, its own included. -/
theorem ends_move {source target : Path} {old : List String} (hold : FilePlace disk source old)
    (hentry : disk.root.find? old = some (.file content)) (hplace : FilePlace disk target place)
    (hfree : disk.at? place ≠ some none) :
    Ends (Moves disk source target) (· = disk)
      ((if old = place then (.ok (), disk)
      else (.ok (), { disk with root := (disk.root.erase old).put place (.file content) }) :
        Except Fault Unit × Disk)) := by
  have hfile : disk.at? old = some (some content) := Entry.at?_eq_file_iff.mpr hentry
  split_ifs with hsame
  · subst hsame
    refine .done (.intro hold hfile hplace hfree rfl fun other ↦ ?_)
    split_ifs with hother
    · rw [hother, hfile]
    · rfl
  · exact .done (moves_put_erase hold hfile hplace hfree)

theorem ends_renameFile (disk : Disk) (source target : Path) :
    Ends (Moves disk source target) (· = disk) (disk.renameFile source target) := by
  rw [renameFile]
  split
  · exact .failed rfl
  · exact .failed rfl
  · rename_i old directory name hold hlocated
    by_cases hplain : asksDirectory target
    · rw [if_pos hplain]
      exact .failed rfl
    · rw [if_neg hplain]
      by_cases hdot : isDot name
      · rw [if_pos hdot]
        exact .failed rfl
      · rw [if_neg hdot]
        rw [Bool.not_eq_true] at hplain hdot
        have hplace := filePlace_of_locateLast hlocated hdot hplain
        have hsource {content : String} (hentry : disk.root.find? old = some (.file content)) :
            FilePlace disk source old :=
          filePlace_of_locate hold (Entry.at?_eq_file_iff.mpr hentry)
        split
        · rename_i content other hentry htarget
          have hthere : disk.at? (directory ++ [name]) = some (some other) :=
            Entry.at?_eq_file_iff.mpr htarget
          exact ends_move (hsource hentry) hentry hplace (by simp [hthere])
        · rename_i content hentry htarget
          have hnothing : disk.at? (directory ++ [name]) = none := by
            rw [at?, Entry.at?, htarget, Option.map_none]
          exact ends_move (hsource hentry) hentry hplace (by simp [hnothing])
        · exact .failed rfl
        · exact .failed rfl
        · exact .failed rfl

theorem ends_removeFile (disk : Disk) (path : Path) :
    Ends (Removes disk path) (· = disk) (disk.removeFile path) := by
  rw [removeFile]
  split
  · exact .failed rfl
  · rename_i place hlocated
    split
    · rename_i content hentry
      have hfile : disk.at? place = some (some content) := Entry.at?_eq_file_iff.mpr hentry
      have hplace := filePlace_of_locate hlocated hfile
      exact .done (.intro hplace hfile ⟨rfl, at?_erase hplace hfile⟩)
    · exact .failed rfl
    · exact .failed rfl

end Operations

end Disk

/-- The state holds a disk, and the operations do to it what they should or fail. A failed write may
leave a part of the content; any other failed operation, and looking, leaves the disk as it was. -/
structure FileSystem.OnDisk {σ : Type} [FileSystem (StateM σ)] (disk : σ → Disk) : Prop where
  kind? (path : Path) (s : σ) :
    disk ((FileSystem.kind? path : StateM σ (Option EntryKind)).run s).2 = disk s
  names (path : Path) (s : σ) :
    disk ((FileSystem.names path : StateM σ (Except Fault (List String))).run s).2 = disk s
  read (path : Path) (s : σ) :
    disk ((FileSystem.read path : StateM σ (Except Fault String)).run s).2 = disk s
  write (path : Path) (content : String) (s : σ) :
    Disk.Ends (fun after ↦ (disk s).Writes path content (disk after))
      (fun after ↦ (disk s).Tears path content (disk after))
      ((FileSystem.write path content : StateM σ (Except Fault Unit)).run s)
  createDirectory (path : Path) (s : σ) :
    Disk.Ends (fun after ↦ (disk s).Makes path (disk after)) (fun after ↦ disk after = disk s)
      ((FileSystem.createDirectory path : StateM σ (Except Fault Unit)).run s)
  rename (source target : Path) (s : σ) :
    Disk.Ends (fun after ↦ (disk s).Moves source target (disk after))
      (fun after ↦ disk after = disk s)
      ((FileSystem.rename source target : StateM σ (Except Fault Unit)).run s)
  remove (path : Path) (s : σ) :
    Disk.Ends (fun after ↦ (disk s).Removes path (disk after)) (fun after ↦ disk after = disk s)
      ((FileSystem.remove path : StateM σ (Except Fault Unit)).run s)

theorem Disk.onDisk : FileSystem.OnDisk (id : Disk → Disk) where
  kind? _ _ := rfl
  names _ _ := rfl
  read _ _ := rfl
  write path content disk := disk.ends_writeFile path content
  createDirectory path disk := disk.ends_makeDirectory path
  rename source target disk := disk.ends_renameFile source target
  remove path disk := disk.ends_removeFile path

end EventSchema
