import EventSchema.Proofs.Outcome
import EventSchema.Proofs.Resolver.Termination

/-!
# Resolvers that are alike

The documents that a resolver read, and the missing references that it noted, do not show in what
it does next: resolvers for which paths lead to the same and which follow the same places give the
same results and note the same missing references, in the same order (`resolve_of_alike`). Nor does
the spelling of the path of a document, where it does not change what references denote, show in
more than the files that are named (`resolve_of_seenAlike`).
-/

set_option autoImplicit false

namespace EventSchema

/-! ### Respelling files -/

section Respelling

variable (spell : String → String)

def LoadError.respell : LoadError → LoadError
  | .content file error => .content (spell file) error
  | .unreadable file reason => .unreadable (spell file) reason

def ResolutionError.respell : ResolutionError → ResolutionError
  | .unsupportedReference reference file => .unsupportedReference reference (spell file)
  | .cyclicReference chain => .cyclicReference chain
  | .externalDocument error => .externalDocument (error.respell spell)

def MissingReference.respell (missing : MissingReference) : MissingReference :=
  { missing with file := spell missing.file }

end Respelling

theorem ResolutionError.respell_id (error : ResolutionError) : error.respell id = error := by
  cases error with
  | externalDocument error => cases error <;> rfl
  | _ => rfl

theorem MissingReference.respell_id : MissingReference.respell id = id := rfl

/-- Paths from which references are seen alike, and which are spelled alike. -/
structure Path.SeenAlike (spell : String → String) (path other : Path) : Prop where
  locate (reference : Reference) : reference.locate other = reference.locate path
  text : spell path.text = spell other.text

theorem Path.SeenAlike.refl (spell : String → String) (path : Path) : path.SeenAlike spell path :=
  ⟨fun _ ↦ rfl, rfl⟩

/-- A reference denotes the same in the document at either path, and what it denotes is seen
alike. -/
theorem Reference.find?_of_seenAlike {spell : String → String} {path other : Path}
    (hseen : path.SeenAlike spell other) (library : Library) (reference : Reference) (root : Json) :
    Matched Eq (Option.Rel fun found found' ↦ found'.document = found.document ∧
        found'.value = found.value ∧ found.path.SeenAlike spell found'.path)
      (reference.find? library root path) (reference.find? library root other) := by
  cases reference with
  | internal pointer =>
    rw [find?, find?]
    cases pointer.lookup root with
    | none => exact .ok .none
    | some value => exact .ok (.some ⟨rfl, rfl, hseen⟩)
  | external file pointer =>
    rw [find?, find?, hseen.locate]
    cases library ((external file pointer).locate path).file with
    | error error => exact .error rfl
    | ok found =>
      cases found with
      | none => exact .ok .none
      | some document =>
        simp only [Except.map, Option.bind_some]
        cases pointer.lookup document with
        | none => exact .ok .none
        | some value => exact .ok (.some ⟨rfl, rfl, .refl _ _⟩)

namespace Resolver

variable {spell : String → String}

/-- Two results that are the same but for the spelling of files. -/
abbrev SameResult (spell : String → String) {α : Type} :
    Except ResolutionError α → Except ResolutionError α → Prop :=
  Matched (fun error error' ↦ error.respell spell = error'.respell spell) Eq

/-- Two answers, from `r` and from `s`: the same result and the same new missing references, but for
the spelling of files. -/
inductive SameAnswer {α : Type} (spell : String → String) (r s : Resolver) :
    Option (Except ResolutionError α × Resolver) → Option (Except ResolutionError α × Resolver) →
      Prop
  | none : SameAnswer spell r s none none
  | some {result result' : Except ResolutionError α} {r' s' : Resolver}
    (noted noted' : List MissingReference) (hresult : SameResult spell result result')
    (hnoted : noted.map (·.respell spell) = noted'.map (·.respell spell))
    (hleft : Alike r r') (hright : Alike s s') (hmissing : r'.missing = r.missing ++ noted)
    (hmissing' : s'.missing = s.missing ++ noted') :
    SameAnswer spell r s (some (result, r')) (some (result', s'))

namespace SameAnswer

variable {α : Type} {r s r' s' : Resolver}

/-- Nothing is noted. -/
theorem silent {result result' : Except ResolutionError α}
    (hresult : SameResult spell result result') (hleft : Alike r r') (hright : Alike s s')
    (hmissing : r'.missing = r.missing) (hmissing' : s'.missing = s.missing) :
    SameAnswer spell r s (Option.some (result, r')) (Option.some (result', s')) := by
  refine .some [] [] hresult rfl hleft hright ?_ ?_
  · rw [hmissing, List.append_nil]
  · rw [hmissing', List.append_nil]

theorem unchanged (r s : Resolver) {result result' : Except ResolutionError α}
    (hresult : SameResult spell result result') :
    SameAnswer spell r s (Option.some (result, r)) (Option.some (result', s)) :=
  .silent hresult (.refl r) (.refl s) rfl rfl

/-- What was noted before comes first. -/
theorem of_append {noted noted' : List MissingReference}
    {answer answer' : Option (Except ResolutionError α × Resolver)}
    (hnoted : noted.map (·.respell spell) = noted'.map (·.respell spell)) (hleft : Alike r r')
    (hright : Alike s s') (hmissing : r'.missing = r.missing ++ noted)
    (hmissing' : s'.missing = s.missing ++ noted')
    (hanswer : SameAnswer spell r' s' answer answer') :
    SameAnswer spell r s answer answer' := by
  cases hanswer with
  | none => exact .none
  | @some result result' r'' s'' more more' hresult hmore hleft' hright' hadded hadded' =>
    refine .some (noted ++ more) (noted' ++ more') hresult ?_ (hleft.trans hleft')
      (hright.trans hright') ?_ ?_
    · rw [List.map_append, List.map_append, hnoted, hmore]
    · rw [hadded, hmissing, List.append_assoc]
    · rw [hadded', hmissing', List.append_assoc]

/-- Both leave the place that they entered. -/
theorem left {location : Location}
    {answer answer' : Option (Except ResolutionError α × Resolver)}
    (hleft : Alike { r with active := r.active ++ [location] } r')
    (hright : Alike { s with active := s.active ++ [location] } s')
    (hmissing : r'.missing = r.missing) (hmissing' : s'.missing = s.missing)
    (hanswer : SameAnswer spell r' s' answer answer') :
    SameAnswer spell r s (answer.map fun answer ↦ (answer.1, answer.2.leave))
      (answer'.map fun answer ↦ (answer.1, answer.2.leave)) := by
  cases hanswer with
  | none => exact .none
  | @some result result' r'' s'' noted noted' hresult hnoted hleft' hright' hadded hadded' =>
    refine .some noted noted' hresult hnoted (leave_of_alike (hleft.trans hleft'))
      (leave_of_alike (hright.trans hright')) ?_ ?_
    · rw [← hmissing]
      exact hadded
    · rw [← hmissing']
      exact hadded'

end SameAnswer

/-- Pairs of computations that give the same answers from resolvers that are alike. -/
def agreement (spell : String → String) : Coupling ResolveM ResolveM where
  Holds x y := ∀ r s, Alike r s → SameAnswer spell r s (x.run.run r) (y.run.run s)
  holds_pure value r s _ := .unchanged r s (.ok rfl)
  holds_bind := by
    intro α β x y f g hfirst hnext r s halike
    have hanswer := hfirst r s halike
    generalize hx : x.run.run r = first at hanswer
    generalize hy : y.run.run s = first' at hanswer
    cases hanswer with
    | none =>
      rw [ResolveM.run_bind_of_none hx, ResolveM.run_bind_of_none hy]
      exact .none
    | @some _ _ r' s' _ _ hresult hnoted hleft hright hmissing hmissing' =>
      cases hresult with
      | error herror =>
        rw [ResolveM.run_bind_of_error hx, ResolveM.run_bind_of_error hy]
        exact .some _ _ (.error herror) hnoted hleft hright hmissing hmissing'
      | @ok value _ hvalue =>
        subst hvalue
        rw [ResolveM.run_bind_of_ok hx, ResolveM.run_bind_of_ok hy]
        have hreached := (hleft.symm.trans halike).trans hright
        exact .of_append hnoted hleft hright hmissing hmissing' (hnext value r' s' hreached)

/-- Following a reference agrees if going on with what it denotes does. -/
theorem agreement_follow {next : Json → Path → Fragment → ResolveM Fragment}
    (hnext : ∀ root fragment {current other : Path}, current.SeenAlike spell other →
      (agreement spell).Holds (next root current fragment) (next root other fragment))
    (root : Json) {current other : Path} (hseen : current.SeenAlike spell other) (text : String) :
    (agreement spell).Holds (follow next root current text) (follow next root other text) := by
  intro r s halike
  cases hparse : Reference.parse? text with
  | none =>
    rw [run_follow_of_unsupported hparse, run_follow_of_unsupported hparse]
    exact .unchanged r s (.error (congrArg (ResolutionError.unsupportedReference text) hseen.text))
  | some reference =>
    have hlocate := hseen.locate reference
    by_cases hactive : reference.locate current ∈ r.active
    · have hactive' : reference.locate other ∈ s.active := hlocate ▸ halike.active ▸ hactive
      rw [run_follow_of_active hparse hactive, run_follow_of_active hparse hactive', halike.active,
        hlocate]
      exact .unchanged r s (.error rfl)
    · have hactive' : reference.locate other ∉ s.active := hlocate ▸ halike.active ▸ hactive
      have hmatched := Reference.find?_of_seenAlike hseen r.document? reference root
      generalize hfind : reference.find? r.document? root current = found,
        hfind' : reference.find? r.document? root other = found' at hmatched
      rw [← halike.document?] at hfind'
      cases hmatched with
      | @error error _ herror =>
        subst herror
        obtain ⟨r', hr, hleft, hmissing⟩ := run_follow_of_error next hparse hactive hfind
        obtain ⟨s', hs, hright, hmissing'⟩ := run_follow_of_error next hparse hactive' hfind'
        rw [hr, hs]
        exact .silent (.error rfl) hleft hright hmissing hmissing'
      | ok hfound =>
        cases hfound with
        | none =>
          obtain ⟨r', hr, hleft, hmissing⟩ := run_follow_of_dangling next hparse hactive hfind
          obtain ⟨s', hs, hright, hmissing'⟩ := run_follow_of_dangling next hparse hactive' hfind'
          have hnoted : [(⟨text, current.text⟩ : MissingReference)].map (·.respell spell) =
              [(⟨text, other.text⟩ : MissingReference)].map (·.respell spell) := by
            rw [List.map_singleton, List.map_singleton, MissingReference.respell,
              MissingReference.respell, hseen.text]
          rw [hr, hs]
          exact .some _ _ (.ok rfl) hnoted hleft hright hmissing hmissing'
        | @some found found' hfound =>
          obtain ⟨hdocument, hvalue, hseen'⟩ := hfound
          obtain ⟨r', hr, hleft, hmissing⟩ := run_follow_of_found next hparse hactive hfind
          obtain ⟨s', hs, hright, hmissing'⟩ := run_follow_of_found next hparse hactive' hfind'
          have hentered : Alike r' s' := by
            refine (hleft.symm.trans ?_).trans hright
            exact ⟨halike.document?, by rw [halike.active, hlocate]⟩
          rw [hr, hs, hdocument, hvalue]
          exact .left hleft (hlocate ▸ hright) hmissing hmissing'
            (hnext _ _ hseen' r' s' hentered)

theorem agreement_resolveWithin (depth : Nat) (root : Json) (fragment : Fragment)
    {current other : Path} (hseen : current.SeenAlike spell other) :
    (agreement spell).Holds (resolveWithin depth root current fragment)
      (resolveWithin depth root other fragment) := by
  induction depth generalizing root current other fragment with
  | zero => exact fun r s _ ↦ .none
  | succ depth ih =>
    refine (agreement spell).expand fragment fun text _ ↦ ?_
    exact agreement_follow (fun root fragment _ _ hseen ↦ ih root fragment hseen) root hseen text

/-- Resolvers that are alike give the same result and note the same missing references, but for the
spelling of the files. -/
theorem resolve_of_seenAlike {r s : Resolver} (halike : Alike r s) (fragment : Fragment)
    (root : Json) {current other : Path} (hseen : current.SeenAlike spell other) :
    SameResult spell (r.resolve fragment root current).1 (s.resolve fragment root other).1 ∧
      ∃ noted noted', noted.map (·.respell spell) = noted'.map (·.respell spell) ∧
        (r.resolve fragment root current).2.missing = r.missing ++ noted ∧
        (s.resolve fragment root other).2.missing = s.missing ++ noted' := by
  obtain ⟨depth, hdepth⟩ := exists_gt ((denoted r.document? root current fragment).ncard +
    (denoted s.document? root other fragment).ncard)
  obtain ⟨answer, hr, -⟩ := exists_run_of_ncard_lt r fragment root current
    (lt_of_le_of_lt (Nat.le_add_right _ _) hdepth)
  obtain ⟨answer', hs, -⟩ := exists_run_of_ncard_lt s fragment root other
    (lt_of_le_of_lt (Nat.le_add_left _ _) hdepth)
  have hsame := agreement_resolveWithin depth root fragment hseen r s halike
  rw [hr, hs, run_eq_resolve r fragment root current hr,
    run_eq_resolve s fragment root other hs] at hsame
  generalize r.resolve fragment root current = answer at hsame
  generalize s.resolve fragment root other = answer' at hsame
  cases hsame with
  | some noted noted' hresult hnoted _ _ hmissing hmissing' =>
    exact ⟨hresult, noted, noted', hnoted, hmissing, hmissing'⟩

/-- Resolvers that are alike give the same result and note the same missing references. -/
theorem resolve_of_alike {r s : Resolver} (halike : Alike r s) (fragment : Fragment) (root : Json)
    (current : Path) :
    (r.resolve fragment root current).1 = (s.resolve fragment root current).1 ∧
      ∃ noted, (r.resolve fragment root current).2.missing = r.missing ++ noted ∧
        (s.resolve fragment root current).2.missing = s.missing ++ noted := by
  obtain ⟨hresult, noted, noted', hnoted, hmissing, hmissing'⟩ :=
    resolve_of_seenAlike halike fragment root (.refl id current)
  obtain rfl : noted = noted' := by simpa [MissingReference.respell_id] using hnoted
  refine ⟨?_, noted, hmissing, hmissing'⟩
  generalize (r.resolve fragment root current).1 = result,
    (s.resolve fragment root current).1 = result' at hresult
  cases hresult with
  | ok hvalue => rw [hvalue]
  | error herror =>
    rw [ResolutionError.respell_id, ResolutionError.respell_id] at herror
    rw [herror]

end Resolver

end EventSchema
