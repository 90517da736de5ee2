import EventSchema.Proofs.Fragment.Respelled
import EventSchema.Proofs.Resolver.Agreement
import EventSchema.Proofs.Resolver.Exactness
import Mathlib

/-!
# How a document is spelled

Neither the spelling of a document's path nor the way in which the document refers to itself shows
in what is resolved. Two spellings of a path that end in a file name and have one normal form see
every reference alike (`seenAlike_of_normalize`). A reference to a place of the document by its own
file name denotes what the bare pointer denotes (`locate_byName`), so respelling references of a
registered document changes neither the resolved schemas nor the cycles that are found, as long as
no reference that is met leads to the text of a respelled one (`resolve_of_respelled`).
-/

set_option autoImplicit false

namespace EventSchema

/-! ### Paths of one document -/

namespace Path

variable {path other : Path} {name : String}

theorem exists_components_of_fileName? (hname : path.fileName? = some name) :
    ∃ before, path.components = before ++ [.name name] := by
  rw [fileName?] at hname
  split at hname
  · rename_i text hlast
    cases hname
    exact List.getLast?_eq_some_iff.mp hlast
  · cases hname

theorem IsSpelled.isStep {components : List Component} (hspelled : IsSpelled components)
    (hmem : .name name ∈ components) : (Component.name name).IsStep := by
  cases hspelled with
  | relative hsteps => exact hsteps _ hmem
  | dotted hsteps | absolute hsteps =>
    rcases List.mem_cons.mp hmem with heq | hmem
    · cases heq
    · exact hsteps _ hmem

/-- A file name leads one step on from any place. -/
theorem foldl_components_fileName (hstep : (Component.name name).IsStep)
    (before : List Component) :
    (Path.mk ("./" ++ name)).components.foldl normalStep before = .name name :: before := by
  have htext : (Path.mk ("./" ++ name)).text.toList = ['.'] ++ '/' :: name.toList := by
    rw [String.toList_append]
    rfl
  have hsplit : Text.split isSlash name.toList = [(Component.name name).chars] :=
    Text.split_of_forall_not hstep.2.2.2
  have hsteps : steps [['.'], (Component.name name).chars] = [.name name] := by
    have hname := steps_map_chars (List.forall_mem_singleton.mpr hstep)
    rw [List.map_singleton] at hname
    rw [← List.singleton_append, steps_append, hname]
    rfl
  have hrelative : (Path.mk ("./" ++ name)).isAbsolute = false := by
    rw [isAbsolute, htext]
    rfl
  rw [foldl_components, htext, Text.split_append rfl, hsplit, hrelative]
  exact congrArg (List.foldl normalStep before) hsteps

/-- A file name, seen from the directory of the file, leads back to the file. -/
theorem normalize_join_fileName (hname : path.fileName? = some name) :
    (path.directory.join ⟨"./" ++ name⟩).normalize = path.normalize := by
  obtain ⟨before, hcomponents⟩ := exists_components_of_fileName? hname
  have hspelled := isSpelled_components path
  rw [hcomponents] at hspelled
  have hstep := hspelled.isStep (List.mem_append_right before List.mem_cons_self)
  have hbefore := hspelled.dropLast
  rw [List.dropLast_concat] at hbefore
  have hrelative : (Path.mk ("./" ++ name)).isAbsolute = false := by
    rw [isAbsolute, String.toList_append]
    rfl
  rw [normalize_eq_normalize_iff, foldl_components_join _ hrelative,
    foldl_components_fileName hstep, directory_of_components hcomponents,
    components_ofComponents hbefore, hcomponents, List.foldl_append]
  rfl

/-- References are seen alike from two spellings of a path with one normal form. -/
theorem seenAlike_of_normalize (hpath : path.fileName?.isSome) (hother : other.fileName?.isSome)
    (hnormal : other.normalize = path.normalize) : path.SeenAlike (fun _ ↦ "") other := by
  have hdirectory : other.directory.normalize = path.directory.normalize := by
    rw [← normalize_directory hpath, ← normalize_directory hother, hnormal]
  refine ⟨fun reference ↦ ?_, rfl⟩
  cases reference with
  | internal pointer => rw [Reference.locate, Reference.locate, hnormal]
  | external file pointer =>
    rw [Reference.locate, Reference.locate, normalize_join_congr hdirectory]

theorem seenAlike_normalize (path : Path) (hpath : path.fileName?.isSome) :
    path.SeenAlike (fun _ ↦ "") path.normalize := by
  refine ⟨fun reference ↦ ?_, rfl⟩
  cases reference with
  | internal pointer => rw [Reference.locate, Reference.locate, normalize_normalize]
  | external file pointer =>
    rw [Reference.locate, Reference.locate, normalize_join_congr (normalize_directory hpath)]

end Path

namespace Reference

variable {name text : String} {pointer : Pointer}

/-- A pointer is read alike with its `#` and without it. -/
theorem parseChars?_of_mark {rest : List Char}
    (hparse : Pointer.parseChars? ('#' :: rest) = some pointer) :
    Pointer.parseChars? rest = some pointer := by
  cases rest with
  | nil => exact hparse
  | cons c more =>
    by_cases hmark : c = '#'
    · subst hmark
      cases hparse
    · rw [← hparse]
      unfold Pointer.parseChars?
      simp [hmark]

/-- A bare pointer is written behind `#`. -/
theorem exists_of_parse?_internal (hparse : parse? text = some (.internal pointer)) :
    ∃ rest, text.toList = '#' :: rest ∧ Pointer.parseChars? rest = some pointer := by
  rw [parse?, parseChars?] at hparse
  split_ifs at hparse with hhead hrelative
  · obtain ⟨rest, htext⟩ := List.head?_eq_some_iff.mp hhead
    rw [htext] at hparse
    obtain ⟨other, hother, heq⟩ := Option.map_eq_some_iff.mp hparse
    cases heq
    exact ⟨rest, htext, parseChars?_of_mark hother⟩
  · obtain ⟨other, -, heq⟩ := Option.map_eq_some_iff.mp hparse
    cases heq

theorem parse?_byName (hname : '#' ∉ name.toList)
    (hparse : parse? text = some (.internal pointer)) :
    parse? ("./" ++ name ++ text) = some (.external ⟨"./" ++ name⟩ pointer) := by
  obtain ⟨rest, htext, hpointer⟩ := exists_of_parse?_internal hparse
  have hfile : ("./" ++ name).toList = '.' :: '/' :: name.toList := by
    rw [String.toList_append]
    rfl
  have hmark : '#' ∉ ("./" ++ name).toList := by
    rw [hfile]
    simp [hname]
  have hsplit : Text.splitOnce '#' ("./" ++ name ++ text).toList =
      some (("./" ++ name).toList, rest) := by
    rw [Text.splitOnce_eq_some_iff]
    exact ⟨by rw [String.toList_append, htext], hmark⟩
  have hchars : ("./" ++ name ++ text).toList = '.' :: '/' :: (name.toList ++ text.toList) := by
    rw [String.toList_append, hfile]
    rfl
  have hrelative : isRelative ("./" ++ name ++ text).toList = true := by
    rw [hchars]
    rfl
  have hhead : ¬("./" ++ name ++ text).toList.head? = some '#' := by
    rw [hchars]
    simp
  rw [parse?, parseChars?, if_neg hhead, if_pos hrelative, hsplit]
  simp only [Option.getD_some, hpointer, Option.map_some, String.ofList_toList]

/-- A reference by the document's own file name denotes the place of the bare pointer. -/
theorem locate_byName {current : Path} (hname : current.fileName? = some name) :
    (Reference.external ⟨"./" ++ name⟩ pointer).locate current =
      (Reference.internal pointer).locate current := by
  rw [locate, locate, Path.normalize_join_fileName hname]

end Reference

/-! ### A document and its respelling -/

/-- Two libraries that hold a document and its respelling at one normal path, and agree at all
others. -/
structure Library.Respelled (name : String) (current : Path) (root root' : Json)
    (library library' : Library) : Prop where
  respelled : root.Respelled name root'
  left : library current.normalize = .ok (some root)
  right : library' current.normalize = .ok (some root')
  others : ∀ path, path ≠ current.normalize → library' path = library path

namespace Resolver

/-- Counterparts in the two libraries: a fragment of the document and its respelling, each seen from
a spelling of the path, or the same fragment of another document. -/
inductive Counterpart (name : String) (current : Path) (root root' : Json) :
    Json → Path → Fragment → Json → Path → Fragment → Prop
  | own {path path' : Path} {fragment fragment' : Fragment}
    (hseen : current.SeenAlike (fun _ ↦ "") path) (hseen' : current.SeenAlike (fun _ ↦ "") path')
    (hfragment : fragment.Respelled name fragment') :
    Counterpart name current root root' root path fragment root' path' fragment'
  | other (document : Json) (path : Path) (fragment : Fragment) :
    Counterpart name current root root' document path fragment document path fragment

variable {name : String} {current : Path} {root root' : Json} {library library' : Library}

/-- What is found in the two libraries. -/
abbrev SameTarget (name : String) (current : Path) (root root' : Json) (found found' : Target) :
    Prop :=
  Counterpart name current root root' found.document found.path (.ofJson found.value)
    found'.document found'.path (.ofJson found'.value)

/-- The pointer does not lead to the text of a respelled reference. -/
def Kept (root root' : Json) (pointer : Pointer) : Prop :=
  ∀ text, pointer.lookup root = some (.string text) → pointer.lookup root' = some (.string text)

theorem sameTarget_own (hrespelled : root.Respelled name root') {pointer : Pointer}
    (hkept : Kept root root' pointer) {path path' : Path}
    (hseen : current.SeenAlike (fun _ ↦ "") path)
    (hseen' : current.SeenAlike (fun _ ↦ "") path') :
    Option.Rel (SameTarget name current root root')
      ((pointer.lookup root).map fun value ↦ ⟨root, path, value⟩)
      ((pointer.lookup root').map fun value ↦ ⟨root', path', value⟩) := by
  have hrel := lookup_of_respelled hrespelled pointer hkept
  generalize pointer.lookup root = value at hrel ⊢
  generalize pointer.lookup root' = value' at hrel ⊢
  cases hrel with
  | none => exact .none
  | some hvalue => exact .some (.own hseen hseen' (.ofJson hvalue))

theorem sameTarget_other (document : Json) (path : Path) (pointer : Pointer) :
    Option.Rel (SameTarget name current root root')
      ((pointer.lookup document).map fun value ↦ ⟨document, path, value⟩)
      ((pointer.lookup document).map fun value ↦ ⟨document, path, value⟩) := by
  cases pointer.lookup document with
  | none => exact .none
  | some value => exact .some (.other document path (.ofJson value))

variable (hlibraries : library.Respelled name current root root' library')
  (hcurrent : current.fileName? = some name)

include hlibraries hcurrent

/-- A reference to a file finds counterparts. -/
theorem sameTarget_external {path path' file : Path} {pointer : Pointer}
    (hlocate : (Reference.external file pointer).locate path' =
      (Reference.external file pointer).locate path)
    (hkept : ((Reference.external file pointer).locate path).file = current.normalize →
      Kept root root' pointer) (document document' : Json) :
    Matched Eq (Option.Rel (SameTarget name current root root'))
      ((Reference.external file pointer).find? library document path)
      ((Reference.external file pointer).find? library' document' path') := by
  rw [Reference.find?, Reference.find?, hlocate]
  by_cases hown : ((Reference.external file pointer).locate path).file = current.normalize
  · have hseen := current.seenAlike_normalize (Option.isSome_of_eq_some hcurrent)
    simp only [hown, hlibraries.left, hlibraries.right, Except.map, Option.bind_some]
    exact .ok (sameTarget_own hlibraries.respelled (hkept hown) hseen hseen)
  · rw [hlibraries.others _ hown]
    cases library ((Reference.external file pointer).locate path).file with
    | error error => exact .error rfl
    | ok found =>
      cases found with
      | none => exact .ok .none
      | some document => exact .ok (sameTarget_other document _ pointer)

/-- Counterparts of a reference denote one place, and find counterparts there. -/
theorem sameTarget_of_respelled {text text' : String} (hname : '#' ∉ name.toList)
    (htext : Reference.Respelled name text text') {reference : Reference}
    (hparse : Reference.parse? text = some reference) {path path' : Path}
    (hseen : current.SeenAlike (fun _ ↦ "") path) (hseen' : current.SeenAlike (fun _ ↦ "") path')
    (hkept : (reference.locate path).file = current.normalize →
      Kept root root' (reference.locate path).pointer) :
    ∃ reference', Reference.parse? text' = some reference' ∧
      reference'.locate path' = reference.locate path ∧
      Matched Eq (Option.Rel (SameTarget name current root root'))
        (reference.find? library root path) (reference'.find? library' root' path') := by
  have hlocate (other : Reference) : other.locate path' = other.locate path :=
    (hseen'.locate other).trans (hseen.locate other).symm
  have hfile (pointer : Pointer) :
      ((Reference.internal pointer).locate path).file = current.normalize :=
    congrArg Location.file (hseen.locate (.internal pointer))
  cases htext with
  | same =>
    refine ⟨reference, hparse, hlocate reference, ?_⟩
    cases reference with
    | internal pointer =>
      exact .ok (sameTarget_own hlibraries.respelled (hkept (hfile pointer)) hseen hseen')
    | external file pointer =>
      exact sameTarget_external hlibraries hcurrent (hlocate _) hkept root root'
  | @byName pointer hinternal =>
    cases hparse.symm.trans hinternal
    have hplace : (Reference.external ⟨"./" ++ name⟩ pointer).locate path' =
        (Reference.internal pointer).locate path := by
      rw [hseen'.locate, Reference.locate_byName hcurrent, hseen.locate]
    refine ⟨_, Reference.parse?_byName hname hinternal, hplace, ?_⟩
    have hnormal := current.seenAlike_normalize (Option.isSome_of_eq_some hcurrent)
    rw [Reference.find?, Reference.find?, hplace]
    simp only [hfile pointer, hlibraries.right, Except.map, Option.bind_some]
    exact .ok (sameTarget_own hlibraries.respelled (hkept (hfile pointer)) hseen hnormal)

omit hlibraries hcurrent

/-- The resolvers hold the two libraries, and follow the same places. -/
structure Paired (library library' : Library) (r s : Resolver) : Prop where
  left : r.document? = library
  right : s.document? = library'
  active : s.active = r.active

/-- Two answers with the same result but for the files that errors name, of resolvers that are left
alike to those that were asked. -/
inductive SameOutcome {α : Type} (r s : Resolver) :
    Option (Except ResolutionError α × Resolver) → Option (Except ResolutionError α × Resolver) →
      Prop
  | none : SameOutcome r s none none
  | some {result result' : Except ResolutionError α} {r' s' : Resolver}
    (hresult : SameResult (fun _ ↦ "") result result') (hleft : Alike r r') (hright : Alike s s') :
    SameOutcome r s (some (result, r')) (some (result', s'))

namespace SameOutcome

variable {α : Type} {r s r' s' : Resolver}
  {answer answer' : Option (Except ResolutionError α × Resolver)}

theorem of_alike (hleft : Alike r r') (hright : Alike s s')
    (hanswer : SameOutcome r' s' answer answer') : SameOutcome r s answer answer' := by
  cases hanswer with
  | none => exact .none
  | some hresult hleft' hright' =>
    exact .some hresult (hleft.trans hleft') (hright.trans hright')

/-- Both leave the places that they entered. -/
theorem left {location location' : Location}
    (hleft : Alike { r with active := r.active ++ [location] } r')
    (hright : Alike { s with active := s.active ++ [location'] } s')
    (hanswer : SameOutcome r' s' answer answer') :
    SameOutcome r s (answer.map fun answer ↦ (answer.1, answer.2.leave))
      (answer'.map fun answer ↦ (answer.1, answer.2.leave)) := by
  cases hanswer with
  | none => exact .none
  | some hresult hleft' hright' =>
    exact .some hresult (leave_of_alike (hleft.trans hleft'))
      (leave_of_alike (hright.trans hright'))

end SameOutcome

/-- Pairs of computations with the same outcomes from paired resolvers. -/
def pairing (library library' : Library) : Coupling ResolveM ResolveM where
  Holds x y := ∀ r s, Paired library library' r s → SameOutcome r s (x.run.run r) (y.run.run s)
  holds_pure value r s _ := .some (.ok rfl) (.refl r) (.refl s)
  holds_bind := by
    intro α β x y f g hfirst hnext r s hpaired
    have hanswer := hfirst r s hpaired
    generalize hx : x.run.run r = first at hanswer
    generalize hy : y.run.run s = first' at hanswer
    cases hanswer with
    | none =>
      rw [ResolveM.run_bind_of_none hx, ResolveM.run_bind_of_none hy]
      exact .none
    | @some _ _ r' s' hresult hleft hright =>
      cases hresult with
      | error herror =>
        rw [ResolveM.run_bind_of_error hx, ResolveM.run_bind_of_error hy]
        exact .some (.error herror) hleft hright
      | @ok value _ hvalue =>
        subst hvalue
        rw [ResolveM.run_bind_of_ok hx, ResolveM.run_bind_of_ok hy]
        have hreached : Paired library library' r' s' :=
          ⟨hleft.document?.trans hpaired.left, hright.document?.trans hpaired.right,
            hright.active.trans (hpaired.active.trans hleft.active.symm)⟩
        exact .of_alike hleft hright (hnext value r' s' hreached)

/-! ### Following counterparts -/

/-- Two references to one place that find counterparts have the same outcome, if going on with
counterparts does. -/
theorem pairing_follow {next next' : Json → Path → Fragment → ResolveM Fragment}
    {document document' : Json} {path path' : Path} {text text' : String}
    {reference reference' : Reference} (hparse : Reference.parse? text = some reference)
    (hparse' : Reference.parse? text' = some reference')
    (hlocate : reference'.locate path' = reference.locate path)
    (hfind : Matched Eq (Option.Rel (SameTarget name current root root'))
      (reference.find? library document path) (reference'.find? library' document' path'))
    (hnext : ∀ found found', reference.find? library document path = .ok (some found) →
      SameTarget name current root root' found found' →
      (pairing library library').Holds (next found.document found.path (.ofJson found.value))
        (next' found'.document found'.path (.ofJson found'.value))) :
    (pairing library library').Holds (follow next document path text)
      (follow next' document' path' text') := by
  intro r s hpaired
  rw [← hpaired.left, ← hpaired.right] at hfind
  by_cases hactive : reference.locate path ∈ r.active
  · have hactive' : reference'.locate path' ∈ s.active := by
      rwa [hlocate, hpaired.active]
    rw [run_follow_of_active hparse hactive, run_follow_of_active hparse' hactive',
      hpaired.active, hlocate]
    exact .some (.error rfl) (.refl r) (.refl s)
  · have hactive' : reference'.locate path' ∉ s.active := by
      rwa [hlocate, hpaired.active]
    generalize hfound : reference.find? r.document? document path = found,
      hfound' : reference'.find? s.document? document' path' = found' at hfind
    cases hfind with
    | @error error _ herror =>
      subst herror
      obtain ⟨r', hr, hleft, -⟩ := run_follow_of_error next hparse hactive hfound
      obtain ⟨s', hs, hright, -⟩ := run_follow_of_error next' hparse' hactive' hfound'
      rw [hr, hs]
      exact .some (.error rfl) hleft hright
    | ok hrel =>
      cases hrel with
      | none =>
        obtain ⟨r', hr, hleft, -⟩ := run_follow_of_dangling next hparse hactive hfound
        obtain ⟨s', hs, hright, -⟩ := run_follow_of_dangling next' hparse' hactive' hfound'
        rw [hr, hs]
        exact .some (.ok rfl) hleft hright
      | @some found found' hsame =>
        obtain ⟨r', hr, hleft, -⟩ := run_follow_of_found next hparse hactive hfound
        obtain ⟨s', hs, hright, -⟩ := run_follow_of_found next' hparse' hactive' hfound'
        have hentered : Paired library library' r' s' := by
          refine ⟨hleft.document?.trans hpaired.left, hright.document?.trans hpaired.right, ?_⟩
          rw [hleft.active, hright.active, hlocate, hpaired.active]
        rw [hpaired.left] at hfound
        rw [hr, hs]
        exact .left hleft hright (hnext found found' hfound hsame r' s' hentered)

theorem pairing_unsupported {next next' : Json → Path → Fragment → ResolveM Fragment}
    {document document' : Json} {path path' : Path} {text : String}
    (hparse : Reference.parse? text = none) :
    (pairing library library').Holds (follow next document path text)
      (follow next' document' path' text) := by
  intro r s _
  rw [run_follow_of_unsupported hparse, run_follow_of_unsupported hparse]
  exact .some (.error rfl) (.refl r) (.refl s)

/-- Counterparts resolve with the same outcome. The induction is on the depth; what a reference
denotes are counterparts again. -/
theorem pairing_resolveWithin {fragment : Fragment}
    (hlibraries : library.Respelled name current root root' library')
    (hcurrent : current.fileName? = some name) (hname : '#' ∉ name.toList)
    (hkept : ∀ document path text reference,
      Met library root current fragment document path text →
      Reference.parse? text = some reference →
      (reference.locate path).file = current.normalize →
      Kept root root' (reference.locate path).pointer)
    (depth : Nat) {document document' : Json} {path path' : Path} {part part' : Fragment}
    (hcounterpart : Counterpart name current root root' document path part document' path' part')
    (hmet : ∀ text ∈ part.followed, Met library root current fragment document path text) :
    (pairing library library').Holds (resolveWithin depth document path part)
      (resolveWithin depth document' path' part') := by
  induction depth generalizing document document' path path' part part' with
  | zero => exact fun r s _ ↦ .none
  | succ depth ih =>
    have hnext {text : String} {reference : Reference} (htext : text ∈ part.followed)
        (hparse : Reference.parse? text = some reference) (found found' : Target)
        (hfound : reference.find? library document path = .ok (some found))
        (hsame : SameTarget name current root root' found found') :
        (pairing library library').Holds
          (resolveWithin depth found.document found.path (.ofJson found.value))
          (resolveWithin depth found'.document found'.path (.ofJson found'.value)) :=
      ih hsame fun other hother ↦ .inside (hmet text htext) hparse hfound hother
    rw [resolveWithin, resolveWithin]
    cases hcounterpart with
    | own hseen hseen' hfragment =>
      have hfollow (text : String) (htext : text ∈ part.followed) (text' : String)
          (hrespelled : Reference.Respelled name text text') :
          (pairing library library').Holds (follow (resolveWithin depth) root path text)
            (follow (resolveWithin depth) root' path' text') := by
        cases hparse : Reference.parse? text with
        | none =>
          cases hrespelled with
          | same => exact pairing_unsupported hparse
          | byName hinternal => cases hparse.symm.trans hinternal
        | some reference =>
          obtain ⟨reference', hparse', hlocate, hfind⟩ := sameTarget_of_respelled hlibraries
            hcurrent hname hrespelled hparse hseen hseen'
            (hkept _ _ _ _ (hmet text htext) hparse)
          exact pairing_follow hparse hparse' hlocate hfind (hnext htext hparse)
      cases hfragment with
      | same =>
        exact (pairing library library').expand part fun text htext ↦
          hfollow text htext text (.same text)
      | ofJson hvalue => exact (walks_of_respelled hvalue).2 hfollow
    | other =>
      refine (pairing library library').expand part fun text htext ↦ ?_
      cases hparse : Reference.parse? text with
      | none => exact pairing_unsupported hparse
      | some reference =>
        refine pairing_follow hparse hparse rfl ?_ (hnext htext hparse)
        cases reference with
        | internal pointer => exact .ok (sameTarget_other document path pointer)
        | external file pointer =>
          exact sameTarget_external hlibraries hcurrent rfl
            (hkept _ _ _ _ (hmet text htext) hparse) document document

/-- The spelling of a document does not show in what is resolved. Two spellings of its path that
end in a file name and have one normal form give the same schema, or the same error but for the
files that it names. So do the document and its respelling by its own file name, registered at the
path, if no reference that is met leads to the text of a respelled one. -/
theorem resolve_of_respelled (r : Resolver) (fragment : Fragment) (root : Json) (current : Path) :
    (∀ other : Path, current.fileName?.isSome → other.fileName?.isSome →
        other.normalize = current.normalize →
        SameResult (fun _ ↦ "") (r.resolve fragment root current).1
          (r.resolve fragment root other).1) ∧
      ∀ (name : String) (fragment' : Fragment) (root' : Json), current.fileName? = some name →
        '#' ∉ name.toList → root.Respelled name root' → fragment.Respelled name fragment' →
        (∀ document path text reference,
          Met (r.register current root).document? root current fragment document path text →
          Reference.parse? text = some reference →
          (reference.locate path).file = current.normalize →
          Kept root root' (reference.locate path).pointer) →
        SameResult (fun _ ↦ "") ((r.register current root).resolve fragment root current).1
          ((r.register current root').resolve fragment' root' current).1 := by
  refine ⟨fun other hcurrent hother hnormal ↦ ?_, ?_⟩
  · exact (resolve_of_seenAlike (.refl r) fragment root
      (Path.seenAlike_of_normalize hcurrent hother hnormal)).1
  intro name fragment' root' hcurrent hname hrespelled hfragment hkept
  have hlibraries : Library.Respelled name current root root' (r.register current root).document?
      (r.register current root').document? := by
    refine ⟨hrespelled, ?_, ?_, fun path hpath ↦ ?_⟩
    · rw [document?_register, if_pos rfl]
    · rw [document?_register, if_pos rfl]
    · rw [document?_register, document?_register, if_neg hpath, if_neg hpath]
  have hcounterpart : Counterpart name current root root' root current fragment root' current
      fragment' := .own (.refl _ current) (.refl _ current) hfragment
  obtain ⟨depth, hdepth⟩ := exists_gt
    ((denoted (r.register current root).document? root current fragment).ncard +
      (denoted (r.register current root').document? root' current fragment').ncard)
  obtain ⟨answer, hleft, -⟩ := exists_run_of_ncard_lt (r.register current root) fragment root
    current (lt_of_le_of_lt (Nat.le_add_right _ _) hdepth)
  obtain ⟨answer', hright, -⟩ := exists_run_of_ncard_lt (r.register current root') fragment' root'
    current (lt_of_le_of_lt (Nat.le_add_left _ _) hdepth)
  have hsame := pairing_resolveWithin hlibraries hcurrent hname hkept depth hcounterpart
    (fun text htext ↦ .here htext) _ _ ⟨rfl, rfl, rfl⟩
  rw [hleft, hright, run_eq_resolve _ fragment root current hleft,
    run_eq_resolve _ fragment' root' current hright] at hsame
  generalize (r.register current root).resolve fragment root current = answer at hsame ⊢
  generalize (r.register current root').resolve fragment' root' current = answer' at hsame ⊢
  cases hsame with
  | some hresult _ _ => exact hresult

/-- A document with a reference to a place of its own, and the same one with its file name. -/
def namedRoot (text : String) : Json :=
  .object [("a", .object [("$ref", .string text)]), ("b", .object [("type", .string "string")])]

theorem respelled_reference {name text text' : String}
    (htext : Reference.Respelled name text text') :
    Json.Respelled name (.object [("$ref", .string text)]) (.object [("$ref", .string text')]) :=
  .reference .nil List.not_mem_nil htext .nil

theorem resolve_of_respelled_namedRoot :
    SameResult (fun _ ↦ "")
        (({ source := {} } : Resolver).resolve (.reference "#/a") (namedRoot "#/b")
          ⟨"d/a.json"⟩).1
        (({ source := {} } : Resolver).resolve (.reference "#/a") (namedRoot "#/b")
          ⟨"./d//e/../a.json"⟩).1 ∧
      SameResult (fun _ ↦ "")
        ((({ source := {} } : Resolver).register ⟨"d/a.json"⟩ (namedRoot "#/b")).resolve
          (.reference "#/a") (namedRoot "#/b") ⟨"d/a.json"⟩).1
        ((({ source := {} } : Resolver).register ⟨"d/a.json"⟩ (namedRoot "./a.json#/b")).resolve
          (.reference "#/a") (namedRoot "./a.json#/b") ⟨"d/a.json"⟩).1 := by
  obtain ⟨hpaths, hreferences⟩ := resolve_of_respelled { source := {} } (.reference "#/a")
    (namedRoot "#/b") ⟨"d/a.json"⟩
  have hparse : Reference.parse? "#/a" = some (.internal ⟨["a"]⟩) := by decide +kernel
  have hparse' : Reference.parse? "#/b" = some (.internal ⟨["b"]⟩) := by decide +kernel
  have hrespelled : (namedRoot "#/b").Respelled "a.json" (namedRoot "./a.json#/b") := by
    refine .object (.cons "a" (respelled_reference (.byName hparse'))
      (.cons "b" (.same _) .nil)) fun _ _ hshape ↦ ?_
    exact absurd hshape (by simp [Fragment.shape, Entries.get?])
  refine ⟨hpaths _ (by decide +kernel) (by decide +kernel) (by decide +kernel),
    hreferences "a.json" _ _ (by decide +kernel) (by decide) hrespelled (.same _) ?_⟩
  have honly (document : Json) (path : Path) (text : String)
      (hmet : Met (({ source := {} } : Resolver).register ⟨"d/a.json"⟩
        (namedRoot "#/b")).document? (namedRoot "#/b") ⟨"d/a.json"⟩ (.reference "#/a") document
          path text) : document = namedRoot "#/b" ∧ (text = "#/a" ∨ text = "#/b") := by
    induction hmet with
    | here hfollowed => exact ⟨rfl, .inl (by simpa [Fragment.followed] using hfollowed)⟩
    | @inside document path text other reference found hmet hknown hfind hother ih =>
      obtain ⟨rfl, rfl | rfl⟩ := ih
      · cases hparse.symm.trans hknown
        obtain rfl : ⟨namedRoot "#/b", path, .object [("$ref", .string "#/b")]⟩ = found :=
          Option.some.inj (Except.ok.inj hfind)
        exact ⟨rfl, .inr (by simpa [ofJson_reference, Fragment.followed] using hother)⟩
      · cases hparse'.symm.trans hknown
        obtain rfl : ⟨namedRoot "#/b", path, .object [("type", .string "string")]⟩ = found :=
          Option.some.inj (Except.ok.inj hfind)
        have hleaf : Fragment.ofJson (.object [("type", .string "string")]) =
            .primitive .string none [] := by cbv
        rw [hleaf, Fragment.followed, Json.followedInChoices, Json.followedInMembers] at hother
        exact absurd hother List.not_mem_nil
  intro document path text reference hmet hknown _ content hcontent
  obtain ⟨rfl, rfl | rfl⟩ := honly document path text hmet
  · cases hparse.symm.trans hknown
    exact absurd (Option.some.inj hcontent) (by simp)
  · cases hparse'.symm.trans hknown
    exact absurd (Option.some.inj hcontent) (by simp)

/-- A document with a reference to the text of another one. -/
def quotedRoot (start : String) : Json :=
  .object [("a", .object [("$ref", .string (start ++ "#/b"))]), ("b", .object []),
    ("c", .object [("$ref", .string (start ++ "#/a/$ref"))])]

/-- Where a reference leads to the text of another one, the text shows in the schema. -/
theorem respelled_text_shows :
    (quotedRoot "").Respelled "a.json" (quotedRoot "./a.json") ∧
      ((({ source := {} } : Resolver).register ⟨"a.json"⟩ (quotedRoot "")).resolve
        (.reference "#/c") (quotedRoot "") ⟨"a.json"⟩).1 = .ok (.any (.string "#/b")) ∧
      ((({ source := {} } : Resolver).register ⟨"a.json"⟩ (quotedRoot "./a.json")).resolve
        (.reference "#/c") (quotedRoot "./a.json") ⟨"a.json"⟩).1 =
          .ok (.any (.string "./a.json#/b")) := by
  have hparse : Reference.parse? "#/b" = some (.internal ⟨["b"]⟩) := by decide +kernel
  have hparse' : Reference.parse? "#/a/$ref" = some (.internal ⟨["a", "$ref"]⟩) := by
    decide +kernel
  refine ⟨?_, by cbv, by cbv⟩
  refine .object (.cons "a" (respelled_reference (.byName hparse)) (.cons "b" (.same _)
    (.cons "c" (respelled_reference (.byName hparse')) .nil))) fun _ _ hshape ↦ ?_
  exact absurd hshape (by simp [Fragment.shape, Entries.get?])

end Resolver

end EventSchema
