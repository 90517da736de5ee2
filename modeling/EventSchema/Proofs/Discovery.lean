import EventSchema.Discovery
import EventSchema.Proofs.Disk.Operations

/-!
# Programs that only look

To find the files of a pattern, and to read them and all that they refer to, changes nothing on the
disk, whatever is found and however it ends (`looks_discover`, `looks_loadFiles`).
-/

set_option autoImplicit false

namespace EventSchema

namespace FileSystem

/-- The program leaves the disk as it is. -/
def Looks {σ α : Type} (disk : σ → Disk) (program : StateM σ α) : Prop :=
  ∀ s, disk (program.run s).2 = disk s

section Looks

variable {σ α β ε : Type} {disk : σ → Disk}

theorem Looks.pure (value : α) : Looks disk (Pure.pure value : StateM σ α) := fun _ ↦ rfl

theorem Looks.bind {program : StateM σ α} {next : α → StateM σ β} (hprogram : Looks disk program)
    (hnext : ∀ value, Looks disk (next value)) : Looks disk (program >>= next) := fun s ↦
  (hnext _ _).trans (hprogram s)

theorem Looks.lift {program : StateM σ α} (hprogram : Looks disk program) :
    Looks disk (liftM program : ExceptT ε (StateM σ) α).run :=
  hprogram.bind fun _ ↦ .pure _

theorem Looks.return (value : α) : Looks disk (Pure.pure value : ExceptT ε (StateM σ) α).run :=
  .pure _

theorem Looks.throw (error : ε) : Looks disk (throw error : ExceptT ε (StateM σ) α).run :=
  .pure _

theorem Looks.andThen {program : ExceptT ε (StateM σ) α} {next : α → ExceptT ε (StateM σ) β}
    (hprogram : Looks disk program.run) (hnext : ∀ value, Looks disk (next value).run) :
    Looks disk (program >>= next).run := by
  rw [ExceptT.run_bind]
  refine hprogram.bind fun outcome ↦ ?_
  cases outcome with
  | ok value => exact hnext value
  | error error => exact .pure _

theorem Looks.mapM {next : α → ExceptT ε (StateM σ) β} (items : List α)
    (hnext : ∀ item, Looks disk (next item).run) : Looks disk (items.mapM next).run := by
  induction items with
  | nil => exact .return _
  | cons item rest ih =>
    rw [List.mapM_cons]
    exact (hnext item).andThen fun _ ↦ ih.andThen fun _ ↦ .return _

theorem Looks.filterM {keep : α → ExceptT ε (StateM σ) Bool} (items : List α)
    (hkeep : ∀ item, Looks disk (keep item).run) : Looks disk (items.filterM keep).run := by
  have haux (kept : List α) : Looks disk (List.filterAuxM keep items kept).run := by
    induction items generalizing kept with
    | nil => exact .return _
    | cons item rest ih => exact (hkeep item).andThen fun _ ↦ ih _
  exact (haux []).andThen fun _ ↦ .return _

theorem Looks.attempt {operation : StateM σ (Except Fault α)} (hoperation : Looks disk operation)
    (error : Fault → CommandError) :
    Looks disk (CommandM.attempt operation error).run :=
  hoperation.bind fun _ ↦ .pure _

theorem Looks.ofExcept (error : ε → CommandError) (outcome : Except ε α) :
    Looks disk (CommandM.ofExcept error outcome : CommandM (StateM σ) α).run := by
  cases outcome with
  | ok value => exact .return value
  | error cause => exact .throw _

end Looks

section OnDisk

variable {σ : Type} [FileSystem (StateM σ)] {disk : σ → Disk}

namespace OnDisk

variable (hdisk : OnDisk disk)

include hdisk

theorem looks_pathExists (path : Path) : Looks disk (pathExists path : StateM σ Bool) :=
  Looks.bind (hdisk.kind? path) fun _ ↦ .pure _

theorem looks_isFile (path : Path) : Looks disk (isFile path : StateM σ Bool) :=
  Looks.bind (hdisk.kind? path) fun _ ↦ .pure _

theorem looks_isDirectory (path : Path) : Looks disk (isDirectory path : StateM σ Bool) :=
  Looks.bind (hdisk.kind? path) fun _ ↦ .pure _

theorem looks_childrenOf (path : Path) :
    Looks disk (Glob.childrenOf path : ExceptT Fault (StateM σ) (List Path)).run := by
  rw [Glob.childrenOf]
  refine (hdisk.looks_isDirectory path).lift.andThen fun isDirectory ↦ ?_
  split_ifs
  · exact Looks.andThen (hdisk.names path) fun _ ↦ .return _
  · exact .return _

theorem looks_descend {visit : Path → ExceptT Fault (StateM σ) (List Path)}
    (hvisit : ∀ path, Looks disk (visit path).run) (last : Bool) (depth : Nat) (path : Path) :
    Looks disk (Glob.descend visit last depth path).run := by
  induction depth generalizing path with
  | zero => exact .return _
  | succ depth ih =>
    rw [Glob.descend]
    refine (hdisk.looks_isDirectory path).lift.andThen fun isDirectory ↦ ?_
    refine (hdisk.looks_childrenOf path).andThen fun children ↦ ?_
    refine (Looks.mapM children ih).andThen fun inner ↦ ?_
    cases last with
    | true => exact Looks.andThen (.return _) fun _ ↦ .return _
    | false => exact (hvisit path).andThen fun _ ↦ .return _

theorem looks_expandFrom : ∀ (components : List Glob.Component) (path : Path),
    Looks disk (Glob.expandFrom components path : ExceptT Fault (StateM σ) (List Path)).run
  | [], _ => .return _
  | .name text :: rest, path => by
    rw [Glob.expandFrom]
    split_ifs
    · refine (hdisk.looks_isDirectory path).lift.andThen fun found ↦ ?_
      cases found with
      | true => exact looks_expandFrom rest _
      | false => exact .return _
    · refine (hdisk.looks_pathExists _).lift.andThen fun found ↦ ?_
      cases found with
      | true => exact looks_expandFrom rest _
      | false => exact .return _
  | .wildcard tokens :: rest, path => by
    rw [Glob.expandFrom]
    refine (hdisk.looks_childrenOf path).andThen fun children ↦ ?_
    refine (hdisk.looks_isDirectory path).lift.andThen fun isDirectory ↦ ?_
    exact (Looks.mapM _ (looks_expandFrom rest)).andThen fun _ ↦ .return _
  | [.anyDirectories], path => by
    rw [Glob.expandFrom]
    refine (hdisk.looks_childrenOf path).andThen fun children ↦ ?_
    refine (Looks.mapM children ?_).andThen fun _ ↦ .return _
    exact hdisk.looks_descend (fun _ ↦ .return _) true _
  | .anyDirectories :: component :: rest, path => by
    rw [Glob.expandFrom]
    refine (hdisk.looks_childrenOf path).andThen fun children ↦ ?_
    refine (Looks.mapM children ?_).andThen fun _ ↦ .return _
    refine hdisk.looks_descend (fun child ↦ ?_) false _
    split_ifs
    · exact looks_expandFrom rest child
    · exact .return _

theorem looks_expand (glob : Glob) :
    Looks disk (glob.expand : ExceptT Fault (StateM σ) (List Path)).run := by
  rw [Glob.expand]
  refine (hdisk.looks_expandFrom _ _).andThen fun found ↦ ?_
  split_ifs
  · exact .filterM found fun path ↦ (hdisk.looks_isDirectory path).lift
  · exact .return _

theorem looks_discover (pattern : String) :
    Looks disk (discover pattern : CommandM (StateM σ) (List Path)).run := by
  rw [discover]
  refine (Looks.ofExcept _ _).andThen fun glob ↦ ?_
  refine (Looks.attempt (hdisk.looks_expand glob) _).andThen fun found ↦ ?_
  refine (Looks.filterM found fun path ↦ (hdisk.looks_isFile path).lift).andThen fun _ ↦ ?_
  exact .return _

theorem looks_gatherFrom (steps : Nat) (seen pending : List Path) (source : Source) :
    Looks disk (Source.gatherFrom steps seen pending source : StateM σ Source) := by
  induction steps generalizing seen pending source with
  | zero => exact .pure _
  | succ steps ih =>
    cases pending with
    | nil => exact .pure _
    | cons path pending =>
      rw [Source.gatherFrom]
      split_ifs
      · exact ih _ _ _
      · refine Looks.bind (hdisk.read path) fun outcome ↦ ?_
        split
        · exact ih _ _ _
        · exact ih _ _ _
        · exact ih _ _ _

theorem looks_loadFiles (files : List Path) :
    Looks disk (loadFiles files : CommandM (StateM σ) EventSet).run := by
  rw [loadFiles]
  exact (hdisk.looks_gatherFrom _ _ _ _).lift.andThen fun _ ↦ .ofExcept _ _

end OnDisk

end OnDisk

end FileSystem

end EventSchema
