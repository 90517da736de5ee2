import EventSchema.Proofs.Fragment.Coupling
import EventSchema.Proofs.Fragment.References
import EventSchema.Proofs.Resolver.Follow
import Mathlib.Data.Set.Card

/-!
# Resolving ends

The references that a resolver can meet stand in the fragment or in a document that references
lead to (`Stands`), and the places that they denote are finitely many (`finite_denoted`), since
every document at hand holds finitely many references. No place is followed inside itself, so each
reference that is followed leaves one place fewer for those inside it: a resolver that may go as
deep as there are places always answers (`exists_run_resolveWithin`), whatever cycles the
references form and however they are spelled.
-/

set_option autoImplicit false

namespace EventSchema.Resolver

/-- The references that stand in the fragment or in a document that references lead to, each with
that document and the path from which it is seen. -/
inductive Stands (library : Library) (root : Json) (current : Path) (fragment : Fragment) :
    Json → Path → String → Prop
  | inFragment {text : String} (hfollowed : text ∈ fragment.followed) :
    Stands library root current fragment root current text
  | inDocument {document : Json} {path : Path} {text : String} {reference : Reference}
    {found : Target} {other : String}
    (hstands : Stands library root current fragment document path text)
    (hparse : Reference.parse? text = some reference)
    (hfind : reference.find? library document path = .ok (some found))
    (hother : other ∈ found.document.referenceTexts) :
    Stands library root current fragment found.document found.path other

/-- The places that those references denote. -/
def denoted (library : Library) (root : Json) (current : Path) (fragment : Fragment) :
    Set Location :=
  {location | ∃ document path text reference, Stands library root current fragment document path
    text ∧ Reference.parse? text = some reference ∧ reference.locate path = location}

/-! ### The places are finitely many -/

theorem mem_of_lookup {documents : List (Path × Json)} {path : Path} {root : Json}
    (hlookup : documents.lookup path = some root) : (path, root) ∈ documents := by
  obtain ⟨before, after, rfl, -⟩ := List.lookup_eq_some_iff.mp hlookup
  simp

theorem mem_unreadDocuments {r : Resolver} {path : Path} {root : Json}
    (hnormal : path.normalize = path) (hunknown : r.documents.lookup path = none)
    (hread : r.source.document? path = .ok (some root)) : (path, root) ∈ r.unreadDocuments := by
  rw [Source.document?, Source.read, hnormal] at hread
  cases hfailure : r.source.failures.lookup path with
  | some reason => simp [hfailure] at hread
  | none =>
    cases hcontent : r.source.files.lookup path with
    | none => simp [hfailure, hcontent] at hread
    | some content =>
      cases hroot : readContent path content with
      | error error => simp [hfailure, hcontent, hroot, Except.map, Except.mapError] at hread
      | ok value =>
        obtain rfl : value = root := by
          simpa [hfailure, hcontent, hroot, Except.map, Except.mapError] using hread
        obtain ⟨before, after, hfiles, -⟩ := List.lookup_eq_some_iff.mp hcontent
        refine List.mem_filterMap.mpr ⟨(path, content), by simp [hfiles], ?_⟩
        simp [hunknown, hroot, Except.toOption]

/-- A document that a normal path leads to is at hand. -/
theorem mem_documents_of_document? {r : Resolver} {path : Path} {root : Json}
    (hnormal : path.normalize = path) (hdocument : r.document? path = .ok (some root)) :
    (path, root) ∈ r.documents ++ r.unreadDocuments := by
  rw [document?] at hdocument
  cases hlookup : r.documents.lookup path with
  | some known =>
    obtain rfl : known = root := by simpa [hlookup] using hdocument
    exact List.mem_append_left _ (mem_of_lookup hlookup)
  | none =>
    rw [hlookup] at hdocument
    exact List.mem_append_right _ (mem_unreadDocuments hnormal hlookup hdocument)

section Places

variable {r : Resolver} {root : Json} {current : Path} {fragment : Fragment}

/-- A reference stands in the fragment, or in a document at hand. -/
theorem Stands.mem {document : Json} {path : Path} {text : String}
    (hstands : Stands r.document? root current fragment document path text) :
    (path, document) ∈ (current, root) :: (r.documents ++ r.unreadDocuments) ∧
      ((path = current ∧ text ∈ fragment.followed) ∨ text ∈ document.referenceTexts) := by
  induction hstands with
  | inFragment hfollowed => exact ⟨List.mem_cons_self, .inl ⟨rfl, hfollowed⟩⟩
  | @inDocument document path text reference found other hstands hparse hfind hother ih =>
    refine ⟨?_, .inr hother⟩
    obtain ⟨-, ⟨hdocument, hpath, -⟩ | ⟨hlibrary, hfile⟩⟩ := Reference.find?_eq_some hfind
    · rw [hdocument, hpath]
      exact ih.1
    · have hnormal : found.path.normalize = found.path := by
        rw [hfile, Reference.normalize_locate_file]
      exact List.mem_cons_of_mem _ (mem_documents_of_document? hnormal hlibrary)

theorem denoted_subset_places :
    denoted r.document? root current fragment ⊆ {l | l ∈ r.places root current fragment} := by
  rintro location ⟨document, path, text, reference, hstands, hparse, rfl⟩
  have hlocations {texts : List String} (htext : text ∈ texts) :
      reference.locate path ∈ Reference.locations path texts :=
    List.mem_filterMap.mpr ⟨text, htext, by rw [hparse, Option.map_some]⟩
  obtain ⟨hmem, ⟨rfl, htext⟩ | htext⟩ := hstands.mem
  · exact List.mem_append_left _ (hlocations htext)
  · exact List.mem_append_right _ (List.mem_flatMap.mpr ⟨_, hmem, hlocations htext⟩)

theorem finite_denoted : (denoted r.document? root current fragment).Finite :=
  (List.finite_toSet _).subset denoted_subset_places

theorem ncard_denoted_lt :
    (denoted r.document? root current fragment).ncard < r.depthLimit root current fragment := by
  classical
  have hlist : {l | l ∈ r.places root current fragment} =
      ((r.places root current fragment).toFinset : Set Location) := by
    ext location
    simp
  refine Nat.lt_succ_of_le ?_
  calc (denoted r.document? root current fragment).ncard
      ≤ {l | l ∈ r.places root current fragment}.ncard :=
        Set.ncard_le_ncard denoted_subset_places (List.finite_toSet _)
    _ = (r.places root current fragment).toFinset.card := by rw [hlist, Set.ncard_coe_finset]
    _ ≤ (r.places root current fragment).length := List.toFinset_card_le _

end Places

/-! ### Resolving ends -/

/-- The places that are not followed yet. -/
def remaining (places : Set Location) (r : Resolver) : Set Location :=
  places \ {location | location ∈ r.active}

theorem ncard_remaining_lt {places : Set Location} (hfinite : places.Finite) {r s : Resolver}
    {location : Location} (hplace : location ∈ places) (hactive : location ∉ r.active)
    (hs : s.active = r.active ++ [location]) :
    (remaining places s).ncard < (remaining places r).ncard := by
  refine Set.ncard_lt_ncard ⟨?_, fun hsubset ↦ ?_⟩ hfinite.sdiff
  · rintro other ⟨hother, hnot⟩
    exact ⟨hother, fun h ↦ hnot (by simp_all)⟩
  · obtain ⟨-, hnot⟩ := hsubset ⟨hplace, hactive⟩
    exact hnot (by simp [hs])

/-- Computations that answer from every resolver alike to the given one, and leave it alike. -/
def ending (r : Resolver) : Coupling ResolveM ResolveM where
  Holds x _ := ∀ s, Alike r s → ∃ answer, x.run.run s = some answer ∧ Alike r answer.2
  holds_pure value s hs := ⟨(.ok value, s), rfl, hs⟩
  holds_bind := by
    intro α β x y f g hfirst hnext s hs
    obtain ⟨⟨result, t⟩, hx, ht⟩ := hfirst s hs
    cases result with
    | error error => exact ⟨(.error error, t), ResolveM.run_bind_of_error hx f, ht⟩
    | ok value =>
      obtain ⟨answer, hf, hanswer⟩ := hnext value t ht
      exact ⟨answer, (ResolveM.run_bind_of_ok hx f).trans hf, hanswer⟩

/-- A resolver that may go deeper than there are places left to follow answers. The induction is on
the depth; each step into a reference takes its place from those that are left. -/
theorem exists_run_resolveWithin {library : Library} {root : Json} {current : Path}
    {fragment : Fragment} (hfinite : (denoted library root current fragment).Finite)
    (depth : Nat) (document : Json) (path : Path) (part : Fragment) (r : Resolver)
    (hlibrary : r.document? = library)
    (hstands : ∀ text ∈ part.followed, Stands library root current fragment document path text)
    (hdepth : (remaining (denoted library root current fragment) r).ncard < depth) :
    ∃ answer, (resolveWithin depth document path part).run.run r = some answer ∧
      Alike r answer.2 := by
  induction depth generalizing document path part r with
  | zero => exact absurd hdepth (Nat.not_lt_zero _)
  | succ depth ih =>
    rw [resolveWithin]
    have hfollow (text : String) (htext : text ∈ part.followed) :
        (ending r).Holds (follow (resolveWithin depth) document path text)
          (follow (resolveWithin depth) document path text) := by
      intro s hs
      have houtcome := followOutcome (resolveWithin depth) document path text s
      generalize (follow (resolveWithin depth) document path text).run.run s = answer at houtcome
      cases houtcome with
      | unsupported hparse => exact ⟨_, rfl, hs⟩
      | cyclic hparse hactive => exact ⟨_, rfl, hs⟩
      | unloadable hparse hfind halike => exact ⟨_, rfl, hs.trans halike⟩
      | dangling hparse hfind halike => exact ⟨_, rfl, hs.trans halike⟩
      | @found reference found t hparse hactive hfind halike =>
        have hdocument : s.document? = library := hs.document?.trans hlibrary
        rw [hdocument] at hfind
        have hplace : reference.locate path ∈ denoted library root current fragment :=
          ⟨document, path, text, reference, hstands text htext, hparse, rfl⟩
        have hless : (remaining (denoted library root current fragment) t).ncard < depth := by
          have hlt := ncard_remaining_lt hfinite hplace hactive halike.active
          rw [remaining, remaining, hs.active, ← remaining, ← remaining] at hlt
          exact lt_of_lt_of_le hlt (Nat.le_of_lt_succ hdepth)
        have hinside (other : String) (hother : other ∈ (Fragment.ofJson found.value).followed) :
            Stands library root current fragment found.document found.path other := by
          refine .inDocument (hstands text htext) hparse hfind ?_
          exact Pointer.referenceTexts_lookup (Reference.find?_eq_some hfind).1
            (Json.followed_ofJson_subset _ hother)
        obtain ⟨answer, hrun, hanswer⟩ := ih found.document found.path (.ofJson found.value) t
          (halike.document?.trans hdocument) hinside hless
        rw [hrun]
        exact ⟨_, rfl, hs.trans (leave_of_alike (halike.trans hanswer))⟩
    exact (ending r).expand part hfollow r (.refl r)

/-! ### A deeper limit changes no answer -/

/-- Pairs of computations of which the second gives every answer of the first. -/
def extension : Coupling ResolveM ResolveM where
  Holds x y := ∀ r answer, x.run.run r = some answer → y.run.run r = some answer
  holds_pure _ _ _ hanswer := hanswer
  holds_bind := by
    intro α β x y f g hfirst hnext r answer hrun
    obtain ⟨result, t⟩ := answer
    obtain ⟨error, hx, rfl⟩ | ⟨value, s, hx, hf⟩ := ResolveM.exists_of_run_bind hrun
    · exact ResolveM.run_bind_of_error (hfirst r _ hx) g
    · exact (ResolveM.run_bind_of_ok (hfirst r _ hx) g).trans (hnext value s _ hf)

theorem extension_refl {α : Type} (x : ResolveM α) : extension.Holds x x :=
  fun _ _ hanswer ↦ hanswer

theorem extension_inside (location : Location) {x y : ResolveM Fragment}
    (hrest : extension.Holds x y) :
    extension.Holds (inside location x) (inside location y) := by
  intro r answer hrun
  by_cases hactive : location ∈ r.active
  · rw [run_inside_of_mem hactive] at hrun ⊢
    exact hrun
  · rw [run_inside hactive] at hrun ⊢
    obtain ⟨inner, hinner, rfl⟩ := Option.map_eq_some_iff.mp hrun
    rw [hrest _ _ hinner, Option.map_some]

theorem extension_follow {next next' : Json → Path → Fragment → ResolveM Fragment}
    (hnext : ∀ root current fragment,
      extension.Holds (next root current fragment) (next' root current fragment))
    (root : Json) (current : Path) (text : String) :
    extension.Holds (follow next root current text) (follow next' root current text) := by
  rw [follow, follow]
  cases Reference.parse? text with
  | none => exact extension_refl _
  | some reference =>
    refine extension_inside _ (extension.holds_bind (extension_refl _) fun place ↦ ?_)
    cases place with
    | none => exact extension_refl _
    | some place =>
      obtain ⟨document, path⟩ := place
      cases hlookup : (reference.locate current).pointer.lookup document with
      | none => simpa only [hlookup] using extension_refl _
      | some value => simpa only [hlookup] using hnext document path (.ofJson value)

theorem extension_resolveWithin {depth deeper : Nat} (hdepth : depth ≤ deeper) (root : Json)
    (current : Path) (fragment : Fragment) :
    extension.Holds (resolveWithin depth root current fragment)
      (resolveWithin deeper root current fragment) := by
  induction depth generalizing deeper root current fragment with
  | zero =>
    intro r answer hrun
    cases hrun
  | succ depth ih =>
    obtain ⟨deeper, rfl⟩ : ∃ n, deeper = n + 1 := ⟨deeper - 1, by omega⟩
    rw [resolveWithin, resolveWithin]
    exact extension.expand fragment fun text _ ↦
      extension_follow (fun root current fragment ↦ ih (by omega) root current fragment)
        root current text

/-! ### The answer of a resolver -/

section Resolve

variable (r : Resolver) (fragment : Fragment) (root : Json) (current : Path)

theorem exists_run_of_ncard_lt {depth : Nat}
    (hdepth : (denoted r.document? root current fragment).ncard < depth) :
    ∃ answer, (resolveWithin depth root current fragment).run.run r = some answer ∧
      Alike r answer.2 := by
  refine exists_run_resolveWithin finite_denoted depth root current fragment r rfl
    (fun _ hfollowed ↦ .inFragment hfollowed) (lt_of_le_of_lt ?_ hdepth)
  exact Set.ncard_le_ncard Set.sdiff_subset finite_denoted

theorem run_resolve :
    (resolveWithin (r.depthLimit root current fragment) root current fragment).run.run r =
      some (r.resolve fragment root current) := by
  obtain ⟨answer, hrun, -⟩ := exists_run_of_ncard_lt r fragment root current ncard_denoted_lt
  rw [resolve, hrun, Option.getD_some]

/-- Every depth that gives an answer gives the answer of the resolver. -/
theorem run_eq_resolve {depth : Nat} {answer : Except ResolutionError Fragment × Resolver}
    (hrun : (resolveWithin depth root current fragment).run.run r = some answer) :
    answer = r.resolve fragment root current := by
  have hleft := extension_resolveWithin (le_max_left depth (r.depthLimit root current fragment))
    root current fragment r _ hrun
  have hright := extension_resolveWithin (le_max_right depth (r.depthLimit root current fragment))
    root current fragment r _ (run_resolve r fragment root current)
  exact Option.some_injective _ (hleft.symm.trans hright)

theorem alike_resolve : Alike r (r.resolve fragment root current).2 := by
  obtain ⟨answer, hrun, halike⟩ := exists_run_of_ncard_lt r fragment root current ncard_denoted_lt
  rwa [← run_eq_resolve r fragment root current hrun]

/-- Resolving ends: the places that the references at hand denote are finitely many, and a resolver
that may follow one reference inside another as often as there are places gives its answer. -/
theorem resolve_ends :
    (denoted r.document? root current fragment).Finite ∧
      ∀ depth, (denoted r.document? root current fragment).ncard < depth →
        (resolveWithin depth root current fragment).run.run r =
          some (r.resolve fragment root current) := by
  refine ⟨finite_denoted, ?_⟩
  intro depth hdepth
  obtain ⟨answer, hrun, -⟩ := exists_run_of_ncard_lt r fragment root current hdepth
  rw [hrun, run_eq_resolve r fragment root current hrun]

end Resolve

/-- A document that refers to its own first member under other spellings of its path and index. -/
def respelledCycle : Json :=
  .object [("a", .array [.object [("$ref", .string "../d/x.json#/a/00")]])]

theorem resolve_ends_respelledCycle :
    (resolveWithin 4 respelledCycle ⟨"d/x.json"⟩ (.reference "#/a/0")).run.run { source := {} } =
      some (({ source := {} } : Resolver).resolve (.reference "#/a/0") respelledCycle
        ⟨"d/x.json"⟩) := by
  refine (resolve_ends { source := {} } (.reference "#/a/0") respelledCycle ⟨"d/x.json"⟩).2 4 ?_
  have hlimit : ({ source := {} } : Resolver).depthLimit respelledCycle ⟨"d/x.json"⟩
      (.reference "#/a/0") ≤ 4 := by decide +kernel
  exact lt_of_lt_of_le ncard_denoted_lt hlimit

end EventSchema.Resolver
