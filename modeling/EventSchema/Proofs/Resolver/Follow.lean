import EventSchema.Proofs.Path.Normal
import EventSchema.Resolver

/-!
# Following one reference

What a resolver answers depends on its documents only through what paths lead to, known documents
before those of the source; reading and keeping a document does not change that (`run_load`). A
reference denotes nothing, a value in a document, or cannot be looked up (`Reference.find?`), and
following it does one thing in each case: it refuses a reference of no known form or a place that is
being followed, hands on an error, notes a reference to nothing, or goes on with the value, one
place deeper, and comes back with the chain that it started with.
-/

set_option autoImplicit false

namespace EventSchema

/-- What paths lead to: a document, nothing, or an error. -/
abbrev Library := Path → Except LoadError (Option Json)

/-- What a reference denotes: a value, the document that holds it, and the path from which the
references of that document are seen. -/
structure Target where
  document : Json
  path : Path
  value : Json

/-- What a reference in the document `root` at `current` denotes, none if it leads nowhere. -/
def Reference.find? (library : Library) (reference : Reference) (root : Json) (current : Path) :
    Except LoadError (Option Target) :=
  match reference with
  | .internal pointer => .ok ((pointer.lookup root).map fun value ↦ ⟨root, current, value⟩)
  | .external _ pointer =>
    let file := (reference.locate current).file
    (library file).map fun found ↦ found.bind fun document ↦
      (pointer.lookup document).map fun value ↦ ⟨document, file, value⟩

namespace Reference

theorem normalize_locate_file (reference : Reference) (current : Path) :
    (reference.locate current).file.normalize = (reference.locate current).file := by
  cases reference <;> exact Path.normalize_normalize _

/-- What a reference denotes stands in its own document or in the one that its place leads to. -/
theorem find?_eq_some {library : Library} {reference : Reference} {root : Json} {current : Path}
    {found : Target} (hfind : reference.find? library root current = .ok (some found)) :
    (reference.locate current).pointer.lookup found.document = some found.value ∧
      (found.document = root ∧ found.path = current ∧
          (reference.locate current).file = current.normalize ∨
        library found.path = .ok (some found.document) ∧
          found.path = (reference.locate current).file) := by
  cases reference with
  | internal pointer =>
    obtain ⟨value, hlookup, rfl⟩ : ∃ value, pointer.lookup root = some value ∧
        ⟨root, current, value⟩ = found := by
      simpa [find?] using hfind
    exact ⟨hlookup, .inl ⟨rfl, rfl, rfl⟩⟩
  | external file pointer =>
    rw [find?] at hfind
    cases hlibrary : library ((external file pointer).locate current).file with
    | error error => simp [hlibrary, Except.map] at hfind
    | ok document? =>
      obtain ⟨document, rfl, value, hlookup, rfl⟩ : ∃ document, document? = some document ∧
          ∃ value, pointer.lookup document = some value ∧
            ⟨document, ((external file pointer).locate current).file, value⟩ = found := by
        simpa [hlibrary, Except.map, Option.bind_eq_some_iff] using hfind
      exact ⟨hlookup, .inr ⟨hlibrary, rfl⟩⟩

end Reference

/-! ### Running a step -/

namespace ResolveM

variable {α β : Type}

@[simp] theorem run_return (value : α) (r : Resolver) :
    (pure value : ResolveM α).run.run r = some (.ok value, r) := rfl

@[simp] theorem run_fail (error : ResolutionError) (r : Resolver) :
    (throw error : ResolveM α).run.run r = some (.error error, r) := rfl

@[simp] theorem run_get_bind (next : Resolver → ResolveM α) (r : Resolver) :
    (get >>= next).run.run r = (next r).run.run r := rfl

@[simp] theorem run_set_bind (s : Resolver) (next : PUnit → ResolveM α) (r : Resolver) :
    (set s >>= next).run.run r = (next ⟨⟩).run.run s := rfl

@[simp] theorem run_modify_bind (change : Resolver → Resolver) (next : PUnit → ResolveM α)
    (r : Resolver) : (modify change >>= next).run.run r = (next ⟨⟩).run.run (change r) := rfl

theorem run_bind_of_ok {x : ResolveM α} {r s : Resolver} {value : α}
    (hfirst : x.run.run r = some (.ok value, s)) (next : α → ResolveM β) :
    (x >>= next).run.run r = (next value).run.run s := by
  rw [ExceptT.run_bind, StateT.run_bind, hfirst]
  rfl

theorem run_bind_of_error {x : ResolveM α} {r s : Resolver} {error : ResolutionError}
    (hfirst : x.run.run r = some (.error error, s)) (next : α → ResolveM β) :
    (x >>= next).run.run r = some (.error error, s) := by
  rw [ExceptT.run_bind, StateT.run_bind, hfirst]
  rfl

theorem run_bind_of_none {x : ResolveM α} {r : Resolver} (hfirst : x.run.run r = none)
    (next : α → ResolveM β) : (x >>= next).run.run r = none := by
  rw [ExceptT.run_bind, StateT.run_bind, hfirst]
  rfl

/-- A step in two halves that answers fails in the first half, or the second half gives the answer
from where the first one ends. -/
theorem exists_of_run_bind {x : ResolveM α} {next : α → ResolveM β} {r t : Resolver}
    {result : Except ResolutionError β} (hrun : (x >>= next).run.run r = some (result, t)) :
    (∃ error, x.run.run r = some (.error error, t) ∧ result = .error error) ∨
      ∃ value s, x.run.run r = some (.ok value, s) ∧
        (next value).run.run s = some (result, t) := by
  cases hx : x.run.run r with
  | none =>
    rw [run_bind_of_none hx] at hrun
    cases hrun
  | some first =>
    obtain ⟨outcome, s⟩ := first
    cases outcome with
    | error error =>
      rw [run_bind_of_error hx] at hrun
      cases hrun
      exact .inl ⟨error, rfl, rfl⟩
    | ok value =>
      rw [run_bind_of_ok hx] at hrun
      exact .inr ⟨value, s, rfl, hrun⟩

/-- A step that succeeds does so in both its halves. -/
theorem exists_of_run_bind_eq_ok {x : ResolveM α} {next : α → ResolveM β} {r t : Resolver}
    {result : β} (hrun : (x >>= next).run.run r = some (.ok result, t)) :
    ∃ value s, x.run.run r = some (.ok value, s) ∧
      (next value).run.run s = some (.ok result, t) := by
  obtain ⟨error, -, herror⟩ | hboth := exists_of_run_bind hrun
  · cases herror
  · exact hboth

end ResolveM

namespace Resolver

/-- Two resolvers for which paths lead to the same and which follow the same places. -/
structure Alike (r s : Resolver) : Prop where
  document? : s.document? = r.document?
  active : s.active = r.active

namespace Alike

variable {r s t : Resolver}

theorem refl (r : Resolver) : Alike r r := ⟨rfl, rfl⟩

theorem symm (h : Alike r s) : Alike s r := ⟨h.document?.symm, h.active.symm⟩

theorem trans (h : Alike r s) (h' : Alike s t) : Alike r t :=
  ⟨h'.document?.trans h.document?, h'.active.trans h.active⟩

end Alike

/-! ### Known documents -/

theorem lookup_entry_cons (key other : Path) (root : Json) (rest : List (Path × Json)) :
    ((key, root) :: rest).lookup other = if other = key then some root else rest.lookup other := by
  by_cases h : other = key
  · simp [h]
  · have hne : (other == key) = false := beq_false_of_ne h
    simp [List.lookup_cons, hne, h]

theorem lookup_putDocument (documents : List (Path × Json)) (path other : Path) (root : Json) :
    (putDocument documents path root).lookup other =
      if other = path then some root else documents.lookup other := by
  induction documents with
  | nil => rw [putDocument, lookup_entry_cons]
  | cons entry rest ih =>
    obtain ⟨key, document⟩ := entry
    rw [putDocument, lookup_entry_cons]
    by_cases hkey : key = path
    · rw [if_pos hkey, lookup_entry_cons, hkey]
      by_cases h : other = path <;> simp [h]
    · rw [if_neg hkey, lookup_entry_cons, ih]
      by_cases h : other = key
      · simp [h, hkey]
      · simp [h]

/-- Keeping a document that was read does not change what paths lead to. -/
theorem document?_putDocument {r : Resolver} {path : Path} {root : Json}
    (hunknown : r.documents.lookup path = none)
    (hread : r.source.document? path = .ok (some root)) (reads : List Path) :
    ({ r with documents := putDocument r.documents path root, reads } : Resolver).document? =
      r.document? := by
  funext other
  simp only [document?, lookup_putDocument]
  by_cases h : other = path
  · rw [h, hunknown, hread]
    simp
  · simp [h]

theorem document?_register (r : Resolver) (path : Path) (root : Json) (other : Path) :
    (r.register path root).document? other =
      if other = path.normalize then .ok (some root) else r.document? other := by
  rw [document?, document?, register, lookup_putDocument]
  by_cases h : other = path.normalize
  · rw [if_pos h, if_pos h]
  · rw [if_neg h, if_neg h]

/-- Loading gives what the path leads to, and changes neither that nor the chain. -/
theorem run_load (r : Resolver) (path : Path) :
    ∃ s, (load path).run.run r =
        some ((r.document? path).mapError ResolutionError.externalDocument, s) ∧
      Alike r s ∧ s.missing = r.missing := by
  rw [load, ResolveM.run_get_bind, document?]
  cases hlookup : r.documents.lookup path with
  | some root => exact ⟨r, rfl, .refl r, rfl⟩
  | none =>
    simp only [ResolveM.run_set_bind]
    cases hread : r.source.document? path with
    | error error => exact ⟨_, rfl, ⟨rfl, rfl⟩, rfl⟩
    | ok found =>
      cases found with
      | none => exact ⟨_, rfl, ⟨rfl, rfl⟩, rfl⟩
      | some root => exact ⟨_, rfl, ⟨document?_putDocument hlookup hread _, rfl⟩, rfl⟩

/-! ### The cases of a step -/

/-- What a reference leads to, loaded, agrees with what it denotes. -/
theorem run_target (r : Resolver) (reference : Reference) (root : Json) (current : Path) :
    ∃ (found : Except LoadError (Option (Json × Path))) (s : Resolver),
      (target reference root current).run.run r =
        some (found.mapError ResolutionError.externalDocument, s) ∧
      Alike r s ∧ s.missing = r.missing ∧
      reference.find? r.document? root current = found.map fun place ↦
        place.bind fun (document, path) ↦
          ((reference.locate current).pointer.lookup document).map fun value ↦
            ⟨document, path, value⟩ := by
  cases reference with
  | internal pointer => exact ⟨.ok (some (root, current)), r, rfl, .refl r, rfl, rfl⟩
  | external file pointer =>
    obtain ⟨s, hload, halike, hmissing⟩ :=
      run_load r ((Reference.external file pointer).locate current).file
    refine ⟨(r.document? ((Reference.external file pointer).locate current).file).map fun found ↦
      found.map fun document ↦ (document, ((Reference.external file pointer).locate current).file),
      s, ?_, halike, hmissing, ?_⟩
    · rw [target]
      cases hfound : r.document? ((Reference.external file pointer).locate current).file with
      | error error =>
        rw [hfound] at hload
        exact ResolveM.run_bind_of_error hload _
      | ok found =>
        rw [hfound] at hload
        exact ResolveM.run_bind_of_ok hload _
    · rw [Reference.find?]
      cases hfound : r.document? ((Reference.external file pointer).locate current).file with
      | error error => rfl
      | ok found => cases found <;> rfl

theorem run_inside_of_mem {r : Resolver} {location : Location} (hactive : location ∈ r.active)
    (rest : ResolveM Fragment) :
    (inside location rest).run.run r =
      some (.error (.cyclicReference (r.active.dropWhile (· ≠ location) ++ [location])), r) := by
  have henter : (enter location).run.run r =
      some (.error (.cyclicReference (r.active.dropWhile (· ≠ location) ++ [location])), r) := by
    rw [enter, ResolveM.run_get_bind, if_pos hactive]
    rfl
  exact ResolveM.run_bind_of_error henter _

theorem run_inside {r : Resolver} {location : Location} (hactive : location ∉ r.active)
    (rest : ResolveM Fragment) :
    (inside location rest).run.run r =
      (rest.run.run { r with active := r.active ++ [location] }).map
        fun answer ↦ (answer.1, answer.2.leave) := by
  have henter : (enter location).run.run r =
      some (.ok ⟨⟩, { r with active := r.active ++ [location] }) := by
    rw [enter, ResolveM.run_get_bind, if_neg hactive]
    rfl
  rw [inside, ResolveM.run_bind_of_ok henter, ExceptT.run_mk, StateT.run_bind]
  cases rest.run.run { r with active := r.active ++ [location] } <;> rfl

variable {next : Json → Path → Fragment → ResolveM Fragment} {root : Json} {current : Path}
  {text : String} {reference : Reference} {r : Resolver}

theorem run_follow_of_unsupported (hparse : Reference.parse? text = none) :
    (follow next root current text).run.run r =
      some (.error (.unsupportedReference text current.text), r) := by
  rw [follow, hparse]
  rfl

theorem run_follow_of_active (hparse : Reference.parse? text = some reference)
    (hactive : reference.locate current ∈ r.active) :
    (follow next root current text).run.run r =
      some (.error (.cyclicReference (r.active.dropWhile (· ≠ reference.locate current) ++
        [reference.locate current])), r) := by
  simp only [follow, hparse]
  exact run_inside_of_mem hactive _

theorem leave_of_alike {s : Resolver} {location : Location}
    (halike : Alike { r with active := r.active ++ [location] } s) : Alike r s.leave :=
  ⟨halike.document?, by simp [leave, halike.active]⟩

theorem run_follow_of_error (next : Json → Path → Fragment → ResolveM Fragment)
    (hparse : Reference.parse? text = some reference)
    (hactive : reference.locate current ∉ r.active) {error : LoadError}
    (hfind : reference.find? r.document? root current = .error error) :
    ∃ s, (follow next root current text).run.run r = some (.error (.externalDocument error), s) ∧
      Alike r s ∧ s.missing = r.missing := by
  obtain ⟨found, s, htarget, halike, hmissing, hfound⟩ :=
    run_target { r with active := r.active ++ [reference.locate current] } reference root current
  cases found with
  | ok found => exact absurd (hfind.symm.trans hfound) (by simp [Except.map])
  | error error' =>
    obtain rfl : error = error' := by
      simpa [Except.map] using hfind.symm.trans hfound
    refine ⟨s.leave, ?_, leave_of_alike halike, hmissing⟩
    simp only [follow, hparse]
    rw [run_inside hactive, ResolveM.run_bind_of_error htarget]
    rfl

/-- A reference to nothing is noted with the path of the document that holds it. -/
theorem run_follow_of_dangling (next : Json → Path → Fragment → ResolveM Fragment)
    (hparse : Reference.parse? text = some reference)
    (hactive : reference.locate current ∉ r.active)
    (hfind : reference.find? r.document? root current = .ok none) :
    ∃ s, (follow next root current text).run.run r = some (.ok .absent, s) ∧
      Alike r s ∧ s.missing = r.missing ++ [⟨text, current.text⟩] := by
  obtain ⟨found, s, htarget, halike, hmissing, hfound⟩ :=
    run_target { r with active := r.active ++ [reference.locate current] } reference root current
  cases found with
  | error error => exact absurd (hfind.symm.trans hfound) (by simp [Except.map])
  | ok found =>
    refine ⟨({ s with missing := s.missing ++ [⟨text, current.text⟩] } : Resolver).leave, ?_,
      leave_of_alike ⟨halike.document?, halike.active⟩, by rw [← hmissing]; rfl⟩
    simp only [follow, hparse]
    rw [run_inside hactive, ResolveM.run_bind_of_ok htarget]
    cases found with
    | none => rfl
    | some place =>
      obtain ⟨document, path⟩ := place
      have hlookup : (reference.locate current).pointer.lookup document = none := by
        simpa [Except.map] using (hfind.symm.trans hfound).symm
      simp only [hlookup]
      rfl

/-- What a reference denotes is handed on, one place deeper. -/
theorem run_follow_of_found (next : Json → Path → Fragment → ResolveM Fragment)
    (hparse : Reference.parse? text = some reference)
    (hactive : reference.locate current ∉ r.active) {found : Target}
    (hfind : reference.find? r.document? root current = .ok (some found)) :
    ∃ s, (follow next root current text).run.run r =
        ((next found.document found.path (.ofJson found.value)).run.run s).map
          (fun answer ↦ (answer.1, answer.2.leave)) ∧
      Alike { r with active := r.active ++ [reference.locate current] } s ∧
      s.missing = r.missing := by
  obtain ⟨place, s, htarget, halike, hmissing, hfound⟩ :=
    run_target { r with active := r.active ++ [reference.locate current] } reference root current
  cases place with
  | error error => exact absurd (hfind.symm.trans hfound) (by simp [Except.map])
  | ok place =>
    cases place with
    | none => exact absurd (hfind.symm.trans hfound) (by simp [Except.map])
    | some place =>
      obtain ⟨document, path⟩ := place
      obtain ⟨value, hlookup, rfl⟩ :
          ∃ value, (reference.locate current).pointer.lookup document = some value ∧
            ⟨document, path, value⟩ = found := by
        simpa [Except.map] using (hfind.symm.trans hfound).symm
      refine ⟨s, ?_, halike, hmissing⟩
      simp only [follow, hparse]
      rw [run_inside hactive, ResolveM.run_bind_of_ok htarget]
      simp only [hlookup]

/-- All that following a reference may come to. -/
inductive FollowOutcome (next : Json → Path → Fragment → ResolveM Fragment) (root : Json)
    (current : Path) (text : String) (r : Resolver) :
    Option (Except ResolutionError Fragment × Resolver) → Prop
  | unsupported (hparse : Reference.parse? text = none) :
    FollowOutcome next root current text r
      (some (.error (.unsupportedReference text current.text), r))
  | cyclic {reference : Reference} {chain : List Location}
    (hparse : Reference.parse? text = some reference)
    (hactive : reference.locate current ∈ r.active) :
    FollowOutcome next root current text r (some (.error (.cyclicReference chain), r))
  | unloadable {reference : Reference} {error : LoadError} {s : Resolver}
    (hparse : Reference.parse? text = some reference)
    (hfind : reference.find? r.document? root current = .error error) (halike : Alike r s) :
    FollowOutcome next root current text r (some (.error (.externalDocument error), s))
  | dangling {reference : Reference} {s : Resolver}
    (hparse : Reference.parse? text = some reference)
    (hfind : reference.find? r.document? root current = .ok none) (halike : Alike r s) :
    FollowOutcome next root current text r (some (.ok .absent, s))
  | found {reference : Reference} {found : Target} {s : Resolver}
    (hparse : Reference.parse? text = some reference)
    (hactive : reference.locate current ∉ r.active)
    (hfind : reference.find? r.document? root current = .ok (some found))
    (halike : Alike { r with active := r.active ++ [reference.locate current] } s) :
    FollowOutcome next root current text r
      (((next found.document found.path (.ofJson found.value)).run.run s).map
        fun answer ↦ (answer.1, answer.2.leave))

theorem followOutcome (next : Json → Path → Fragment → ResolveM Fragment) (root : Json)
    (current : Path) (text : String) (r : Resolver) :
    FollowOutcome next root current text r ((follow next root current text).run.run r) := by
  cases hparse : Reference.parse? text with
  | none => exact run_follow_of_unsupported hparse ▸ .unsupported hparse
  | some reference =>
    by_cases hactive : reference.locate current ∈ r.active
    · exact run_follow_of_active hparse hactive ▸ .cyclic hparse hactive
    · cases hfind : reference.find? r.document? root current with
      | error error =>
        obtain ⟨s, hrun, halike, -⟩ := run_follow_of_error next hparse hactive hfind
        exact hrun ▸ .unloadable hparse hfind halike
      | ok found =>
        cases found with
        | none =>
          obtain ⟨s, hrun, halike, -⟩ := run_follow_of_dangling next hparse hactive hfind
          exact hrun ▸ .dangling hparse hfind halike
        | some found =>
          obtain ⟨s, hrun, halike, -⟩ := run_follow_of_found next hparse hactive hfind
          exact hrun ▸ .found hparse hactive hfind halike

end Resolver

end EventSchema
