import EventSchema.Proofs.Disk.Operations

/-!
# What several operations have changed

To make directories adds some and changes no file (`Disk.Grows`); to write, to break a write off and
to remove under one path changes at most the file at one place (`Disk.Touches`). Both are kept by
any number of such operations, and a file that is written and then moved stands where it was moved
to and nowhere else (`Disk.Moves.of_writes`).
-/

set_option autoImplicit false

namespace EventSchema.Disk

variable {before middle after : Disk} {path : Path} {place : List String} {content : String}

/-! ### Directories that are added -/

/-- Directories were added where nothing stood; all else is as it was. -/
structure Grows (before after : Disk) : Prop where
  current : after.current = before.current
  at? (place : List String) : after.at? place = before.at? place ∨
    before.at? place = none ∧ after.at? place = some none

theorem Grows.refl (disk : Disk) : disk.Grows disk := ⟨rfl, fun _ ↦ .inl rfl⟩

theorem Grows.trans (hfirst : before.Grows middle) (hsecond : middle.Grows after) :
    before.Grows after := by
  refine ⟨hsecond.current.trans hfirst.current, fun place ↦ ?_⟩
  rcases hfirst.at? place with hsame | ⟨hnone, hmade⟩
  · rw [← hsame]
    exact hsecond.at? place
  · rcases hsecond.at? place with hsame | ⟨hnone', -⟩
    · exact .inr ⟨hnone, hsame.trans hmade⟩
    · cases hmade.symm.trans hnone'

theorem Makes.grows (hmakes : before.Makes path after) : before.Grows after := by
  obtain ⟨hlocated, hfree, hafter⟩ := hmakes
  refine ⟨hafter.current, fun place ↦ ?_⟩
  rw [hafter.at?]
  split_ifs with hplace
  · exact .inr ⟨hplace ▸ hfree, rfl⟩
  · exact .inl rfl

theorem Grows.directory (hgrows : before.Grows after) (hdirectory : before.at? place = some none) :
    after.at? place = some none := by
  rcases hgrows.at? place with hsame | ⟨-, hmade⟩
  · exact hsame.trans hdirectory
  · exact hmade

theorem Grows.fileAt? (hgrows : before.Grows after) (place : List String) :
    after.fileAt? place = before.fileAt? place := by
  unfold Disk.fileAt?
  rcases hgrows.at? place with hsame | ⟨hnone, hmade⟩
  · rw [hsame]
  · rw [hnone, hmade]
    rfl

/-! ### One file that has changed -/

/-- At most the file at the place of a path has changed, come or gone. -/
structure Touches (before : Disk) (path : Path) (after : Disk) : Prop where
  current : after.current = before.current
  at? (place : List String) : after.at? place = before.at? place ∨
    before.FilePlace path place ∧ before.at? place ≠ some none ∧ after.at? place ≠ some none

theorem Touches.refl (disk : Disk) (path : Path) : disk.Touches path disk :=
  ⟨rfl, fun _ ↦ .inl rfl⟩

theorem Touches.directory_iff (htouches : before.Touches path after) (place : List String) :
    after.at? place = some none ↔ before.at? place = some none := by
  rcases htouches.at? place with hsame | ⟨-, hbefore, hafter⟩
  · rw [hsame]
  · exact iff_of_false hafter hbefore

theorem Touches.filePlace_iff (htouches : before.Touches path after) {other : Path} :
    after.FilePlace other place ↔ before.FilePlace other place := by
  constructor
  · intro hplace
    exact hplace.mono htouches.current.symm fun _ ↦ (htouches.directory_iff _).mp
  · intro hplace
    exact hplace.mono htouches.current fun _ ↦ (htouches.directory_iff _).mpr

theorem Touches.trans (hfirst : before.Touches path middle) (hsecond : middle.Touches path after) :
    before.Touches path after := by
  refine ⟨hsecond.current.trans hfirst.current, fun place ↦ ?_⟩
  rcases hsecond.at? place with hsame | ⟨hplace, hmiddle, hafter⟩
  · rw [hsame]
    exact hfirst.at? place
  · exact .inr ⟨hfirst.filePlace_iff.mp hplace, mt (hfirst.directory_iff place).mpr hmiddle, hafter⟩

theorem touches_of_setsAt {what : Option (Option String)} (hplace : before.FilePlace path place)
    (hfree : before.at? place ≠ some none) (hwhat : what ≠ some none)
    (hafter : before.SetsAt place what after) : before.Touches path after := by
  refine ⟨hafter.current, fun other ↦ ?_⟩
  by_cases hother : other = place
  · subst hother
    refine .inr ⟨hplace, hfree, ?_⟩
    rwa [hafter.at?, if_pos rfl]
  · exact .inl ((hafter.at? other).trans (if_neg hother))

theorem Writes.touches (hwrites : before.Writes path content after) :
    before.Touches path after := by
  obtain ⟨hplace, hfree, hafter⟩ := hwrites
  exact touches_of_setsAt hplace hfree (by simp) hafter

theorem Tears.touches (htears : before.Tears path content after) : before.Touches path after := by
  cases htears with
  | untouched => exact .refl before path
  | part _ hwrites => exact hwrites.touches

theorem Removes.touches (hremoves : before.Removes path after) : before.Touches path after := by
  obtain ⟨hplace, hfile, hafter⟩ := hremoves
  exact touches_of_setsAt hplace (by simp [hfile]) (by simp) hafter

/-- A path that has not been touched leads where it led. -/
theorem Touches.fileAt? (htouches : before.Touches path after)
    (hother : ¬after.FilePlace path place) : after.fileAt? place = before.fileAt? place := by
  rcases htouches.at? place with hsame | ⟨hplace, -, -⟩
  · rw [Disk.fileAt?, hsame, Disk.fileAt?]
  · exact absurd (htouches.filePlace_iff.mpr hplace) hother

/-- A file that is written and moved stands at the second place, and nothing at the first. -/
theorem Moves.of_writes {source target : Path} (hwrites : before.Writes source content middle)
    (hmoves : middle.Moves source target after) :
    ∃ old place, before.FilePlace source old ∧ before.FilePlace target place ∧
      before.at? old ≠ some none ∧ before.at? place ≠ some none ∧
      after.current = before.current ∧ ∀ other, after.at? other =
        if other = place then some (some content)
        else if other = old then none else before.at? other := by
  have htouches := hwrites.touches
  obtain ⟨hold, hfree, hafter⟩ := hwrites
  obtain ⟨hsource, hfile, hplace, hfree', hcurrent, hmoved⟩ := hmoves
  obtain rfl := hold.unique (htouches.filePlace_iff.mp hsource)
  rw [hafter.at?, if_pos rfl, Option.some_inj, Option.some_inj] at hfile
  subst hfile
  refine ⟨_, _, hold, htouches.filePlace_iff.mp hplace, hfree,
    mt (htouches.directory_iff _).mpr hfree', hcurrent.trans hafter.current, fun other ↦ ?_⟩
  rw [hmoved]
  split_ifs with hnew hother
  · rfl
  · rfl
  · exact (hafter.at? other).trans (if_neg hother)

end EventSchema.Disk
