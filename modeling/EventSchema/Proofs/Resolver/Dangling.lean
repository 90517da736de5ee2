import EventSchema.Proofs.Resolver.Exactness

/-!
# Dangling references

A reference dangles if it leads to no document or to a place that its document does not have. The
references of a fragment are followed in order, and those of what a reference denotes in its place,
so a fragment that expands meets certain dangling references in a certain order (`Dangling`), each
in a document that holds it (`Met.held`). They are what a resolver that succeeds adds to its missing
references, in that order (`dangling_of_resolve`): none is left out, none is added, and none is
noted with the document that it leads to in place of the one that holds it.
-/

set_option autoImplicit false

namespace EventSchema

/-- The reference leads to a place that its own document does not have, to no document, or to a
place that another document does not have. -/
inductive Reference.Dangles (library : Library) (root : Json) (current : Path) : Reference → Prop
  | internal {pointer : Pointer} (hlookup : pointer.lookup root = none) :
    Dangles library root current (.internal pointer)
  | nowhere {file : Path} {pointer : Pointer}
    (hfile : library ((external file pointer).locate current).file = .ok none) :
    Dangles library root current (.external file pointer)
  | external {file : Path} {pointer : Pointer} {document : Json}
    (hfile : library ((external file pointer).locate current).file = .ok (some document))
    (hlookup : pointer.lookup document = none) :
    Dangles library root current (.external file pointer)

theorem Reference.dangles_iff {library : Library} {root : Json} {current : Path}
    {reference : Reference} :
    reference.Dangles library root current ↔ reference.find? library root current = .ok none := by
  constructor
  · intro hdangles
    cases hdangles with
    | internal hlookup => simp [find?, hlookup]
    | nowhere hfile => simp [find?, hfile, Except.map]
    | external hfile hlookup => simp [find?, hfile, hlookup, Except.map]
  · intro hfind
    cases reference with
    | internal pointer => exact .internal (by simpa [find?] using hfind)
    | external file pointer =>
      rw [find?] at hfind
      cases hfile : library ((external file pointer).locate current).file with
      | error error => simp [hfile, Except.map] at hfind
      | ok document? =>
        cases document? with
        | none => exact .nowhere hfile
        | some document => exact .external hfile (by simpa [hfile, Except.map] using hfind)

/-- The dangling references that are met where texts are followed one after the other in the
document `root` at `current`. A dangling reference is met itself, with the path of the document that
holds it; in the place of any other stand those that are met in what it denotes. -/
inductive Dangling (library : Library) :
    Json → Path → List String → List MissingReference → Prop
  | nil {root : Json} {current : Path} : Dangling library root current [] []
  | dangling {root : Json} {current : Path} {text : String} {texts : List String}
    {reference : Reference} {noted : List MissingReference}
    (hparse : Reference.parse? text = some reference)
    (hdangles : reference.Dangles library root current)
    (hrest : Dangling library root current texts noted) :
    Dangling library root current (text :: texts) (⟨text, current.text⟩ :: noted)
  | inside {root : Json} {current : Path} {text : String} {texts : List String}
    {reference : Reference} {found : Target} {noted more : List MissingReference}
    (hparse : Reference.parse? text = some reference)
    (hfind : reference.find? library root current = .ok (some found))
    (hinside : Dangling library found.document found.path (Fragment.ofJson found.value).followed
      noted)
    (hrest : Dangling library root current texts more) :
    Dangling library root current (text :: texts) (noted ++ more)

namespace Dangling

variable {library : Library} {root : Json} {current : Path} {text : String}
  {texts others : List String} {noted more : List MissingReference}

theorem append (hfirst : Dangling library root current texts noted)
    (hsecond : Dangling library root current others more) :
    Dangling library root current (texts ++ others) (noted ++ more) := by
  induction hfirst with
  | nil => exact hsecond
  | dangling hparse hdangles _ ih => exact .dangling hparse hdangles (ih hsecond)
  | inside hparse hfind hinside _ _ ih =>
    rw [List.append_assoc]
    exact .inside hparse hfind hinside (ih hsecond)

/-- The references determine what dangles. -/
theorem unique (hfirst : Dangling library root current texts noted)
    (hsecond : Dangling library root current texts more) : noted = more := by
  induction hfirst generalizing more with
  | nil =>
    cases hsecond
    rfl
  | dangling hparse hdangles _ ih =>
    cases hsecond with
    | dangling _ _ hrest => rw [ih hrest]
    | inside hparse' hfind' _ _ =>
      obtain rfl := Option.some_injective _ (hparse.symm.trans hparse')
      simp [Reference.dangles_iff.mp hdangles] at hfind'
  | inside hparse hfind _ _ ihinside ih =>
    cases hsecond with
    | dangling hparse' hdangles _ =>
      obtain rfl := Option.some_injective _ (hparse.symm.trans hparse')
      simp [Reference.dangles_iff.mp hdangles] at hfind
    | inside hparse' hfind' hinside' hrest' =>
      obtain rfl := Option.some_injective _ (hparse.symm.trans hparse')
      obtain rfl := Option.some_injective _ (Except.ok.inj (hfind.symm.trans hfind'))
      rw [ihinside hinside', ih hrest']

/-- What comes of one of the references. -/
theorem of_mem (hdangling : Dangling library root current texts noted) (htext : text ∈ texts) :
    ∃ reference, Reference.parse? text = some reference ∧
      (reference.Dangles library root current ∧ ⟨text, current.text⟩ ∈ noted ∨
        ∃ found part, reference.find? library root current = .ok (some found) ∧
          Dangling library found.document found.path (Fragment.ofJson found.value).followed part ∧
          part ⊆ noted) := by
  induction hdangling with
  | nil => exact absurd htext List.not_mem_nil
  | @dangling root current first texts reference noted hparse hdangles hrest ih =>
    rcases List.mem_cons.mp htext with rfl | htext
    · exact ⟨reference, hparse, .inl ⟨hdangles, List.mem_cons_self⟩⟩
    · obtain ⟨other, hother, ⟨hnone, hmem⟩ | ⟨found, part, hfound, hpart, hsubset⟩⟩ := ih htext
      · exact ⟨other, hother, .inl ⟨hnone, List.mem_cons_of_mem _ hmem⟩⟩
      · exact ⟨other, hother, .inr ⟨found, part, hfound, hpart,
          List.Subset.trans hsubset (List.subset_cons_self _ _)⟩⟩
  | @inside root current first texts reference found noted more hparse hfind hinside hrest _ ih =>
    rcases List.mem_cons.mp htext with rfl | htext
    · exact ⟨reference, hparse, .inr ⟨found, noted, hfind, hinside,
        List.subset_append_left noted more⟩⟩
    · obtain ⟨other, hother, ⟨hnone, hmem⟩ | ⟨target, part, htarget, hpart, hsubset⟩⟩ := ih htext
      · exact ⟨other, hother, .inl ⟨hnone, List.mem_append_right noted hmem⟩⟩
      · exact ⟨other, hother, .inr ⟨target, part, htarget, hpart,
          List.Subset.trans hsubset (List.subset_append_right noted more)⟩⟩

end Dangling

section Met

variable {library : Library} {root document : Json} {current path : Path} {fragment : Fragment}
  {text : String} {noted : List MissingReference}

/-- The references met where some of the met references are followed are met. -/
theorem Dangling.exists_met {texts : List String}
    (hdangling : Dangling library document path texts noted)
    (hmet : ∀ text ∈ texts, Met library root current fragment document path text)
    {missing : MissingReference} (hmissing : missing ∈ noted) :
    ∃ holder place text reference, Met library root current fragment holder place text ∧
      Reference.parse? text = some reference ∧
      reference.Dangles library holder place ∧ missing = ⟨text, place.text⟩ := by
  induction hdangling with
  | nil => exact absurd hmissing List.not_mem_nil
  | @dangling document path first texts reference noted hparse hdangles hrest ih =>
    obtain ⟨hfirst, htexts⟩ := List.forall_mem_cons.mp hmet
    rcases List.mem_cons.mp hmissing with rfl | hmissing
    · exact ⟨document, path, first, reference, hfirst, hparse, hdangles, rfl⟩
    · exact ih htexts hmissing
  | @inside document path first texts reference found noted more hparse hfind _ _ ihinside ih =>
    obtain ⟨hfirst, htexts⟩ := List.forall_mem_cons.mp hmet
    rcases List.mem_append.mp hmissing with hmissing | hmissing
    · exact ihinside (fun other hother ↦ .inside hfirst hparse hfind hother) hmissing
    · exact ih htexts hmissing

/-- Every reference that is met is followed, at the latest inside another. -/
theorem Met.exists_dangling (hmet : Met library root current fragment document path text)
    (hdangling : Dangling library root current fragment.followed noted) :
    ∃ texts part, text ∈ texts ∧ Dangling library document path texts part ∧ part ⊆ noted := by
  induction hmet with
  | here hfollowed => exact ⟨fragment.followed, noted, hfollowed, hdangling, List.Subset.refl _⟩
  | @inside document path text other reference found _ hparse hfind hother ih =>
    obtain ⟨texts, part, htext, hpart, hsubset⟩ := ih
    obtain ⟨known, hknown, ⟨hnone, -⟩ | ⟨target, inner, htarget, hinner, hless⟩⟩ :=
      hpart.of_mem htext
    · obtain rfl := Option.some_injective _ (hparse.symm.trans hknown)
      simp [Reference.dangles_iff.mp hnone] at hfind
    · obtain rfl := Option.some_injective _ (hparse.symm.trans hknown)
      obtain rfl := Option.some_injective _ (Except.ok.inj (hfind.symm.trans htarget))
      exact ⟨_, inner, hother, hinner, List.Subset.trans hless hsubset⟩

/-- What dangles is what leads nowhere among the references that are met. -/
theorem Dangling.mem_iff (hdangling : Dangling library root current fragment.followed noted)
    {missing : MissingReference} : missing ∈ noted ↔
      ∃ document path text reference, Met library root current fragment document path text ∧
        Reference.parse? text = some reference ∧
        reference.Dangles library document path ∧ missing = ⟨text, path.text⟩ := by
  constructor
  · exact hdangling.exists_met fun text hfollowed ↦ .here hfollowed
  · rintro ⟨document, path, text, reference, hmet, hparse, hdangles, rfl⟩
    obtain ⟨texts, part, htext, hpart, hsubset⟩ := hmet.exists_dangling hdangling
    obtain ⟨known, hknown, ⟨-, hmem⟩ | ⟨target, _, htarget, _⟩⟩ := hpart.of_mem htext
    · exact hsubset hmem
    · obtain rfl := Option.some_injective _ (hparse.symm.trans hknown)
      simp [Reference.dangles_iff.mp hdangles] at htarget

/-- A reference that is met stands in the document that it is met in: the first one, or the one
that its path leads to. -/
theorem Met.held (hmet : Met library root current fragment document path text)
    (hroot : fragment.followed ⊆ root.referenceTexts) :
    text ∈ document.referenceTexts ∧
      (document = root ∧ path = current ∨ library path = .ok (some document) ∧
        path.normalize = path) := by
  induction hmet with
  | here hfollowed => exact ⟨hroot hfollowed, .inl ⟨rfl, rfl⟩⟩
  | @inside document path text other reference found _ hparse hfind hother ih =>
    obtain ⟨hlookup, hplace⟩ := Reference.find?_eq_some hfind
    refine ⟨Pointer.referenceTexts_lookup hlookup (Json.followed_ofJson_subset _ hother), ?_⟩
    rcases hplace with ⟨hdocument, hpath, -⟩ | ⟨hdocument, hpath⟩
    · rw [hdocument, hpath]
      exact ih.2
    · exact .inr ⟨hdocument, by rw [hpath, Reference.normalize_locate_file]⟩

end Met

namespace Resolver

/-- Computations that, if they succeed, add what dangles among the references that they follow. -/
def reporting (library : Library) (root : Json) (current : Path) :
    TracedCoupling ResolveM ResolveM where
  Holds texts x _ := ∀ r value s, r.document? = library → x.run.run r = some (.ok value, s) →
    s.document? = library ∧
      ∃ noted, Dangling library root current texts noted ∧ s.missing = r.missing ++ noted
  holds_pure value r _ s hlibrary hrun := by
    cases hrun
    exact ⟨hlibrary, [], .nil, (List.append_nil _).symm⟩
  holds_bind := by
    intro α β texts more x y f g hfirst hnext r result s hlibrary hrun
    obtain ⟨value, t, hx, hf⟩ := ResolveM.exists_of_run_bind_eq_ok hrun
    obtain ⟨hreached, noted, hnoted, ht⟩ := hfirst r value t hlibrary hx
    obtain ⟨hlast, later, hlater, hs⟩ := hnext value t result s hreached hf
    exact ⟨hlast, noted ++ later, hnoted.append hlater, by rw [hs, ht, List.append_assoc]⟩

theorem reporting_follow {library : Library} {next : Json → Path → Fragment → ResolveM Fragment}
    (hnext : ∀ root current fragment, (reporting library root current).Holds fragment.followed
      (next root current fragment) (next root current fragment))
    (root : Json) (current : Path) (text : String) :
    (reporting library root current).Holds [text] (follow next root current text)
      (follow next root current text) := by
  intro r value s hlibrary hrun
  cases hparse : Reference.parse? text with
  | none =>
    rw [run_follow_of_unsupported hparse] at hrun
    cases hrun
  | some reference =>
    by_cases hactive : reference.locate current ∈ r.active
    · rw [run_follow_of_active hparse hactive] at hrun
      cases hrun
    cases hfind : reference.find? r.document? root current with
    | error error =>
      obtain ⟨t, ht, -⟩ := run_follow_of_error next hparse hactive hfind
      rw [ht] at hrun
      cases hrun
    | ok target =>
      cases target with
      | none =>
        obtain ⟨t, ht, halike, hmissing⟩ := run_follow_of_dangling next hparse hactive hfind
        rw [ht] at hrun
        cases hrun
        rw [hlibrary] at hfind
        exact ⟨halike.document?.trans hlibrary, _,
          .dangling hparse (Reference.dangles_iff.mpr hfind) .nil, hmissing⟩
      | some found =>
        obtain ⟨t, ht, halike, hmissing⟩ := run_follow_of_found next hparse hactive hfind
        rw [ht] at hrun
        obtain ⟨⟨inner, u⟩, hinner, hleave⟩ := Option.map_eq_some_iff.mp hrun
        cases hleave
        rw [hlibrary] at hfind
        obtain ⟨hlast, noted, hnoted, hu⟩ := hnext found.document found.path (.ofJson found.value)
          t value u (halike.document?.trans hlibrary) hinner
        rw [hmissing] at hu
        refine ⟨hlast, noted ++ [], .inside hparse hfind hnoted .nil, ?_⟩
        rw [List.append_nil]
        exact hu

theorem reporting_resolveWithin (library : Library) (depth : Nat) (root : Json) (current : Path)
    (fragment : Fragment) :
    (reporting library root current).Holds fragment.followed
      (resolveWithin depth root current fragment) (resolveWithin depth root current fragment) := by
  induction depth generalizing root current fragment with
  | zero =>
    intro r value s _ hrun
    cases hrun
  | succ depth ih =>
    exact (reporting library root current).expand fragment fun text _ ↦
      reporting_follow ih root current text

/-- A resolver that succeeds notes exactly the dangling references, in the order in which they are
met. -/
theorem dangling_of_resolve {r : Resolver} {fragment result : Fragment} {root : Json}
    {current : Path} (hresult : (r.resolve fragment root current).1 = .ok result) :
    ∃ noted, Dangling r.document? root current fragment.followed noted ∧
      (r.resolve fragment root current).2.missing = r.missing ++ noted := by
  have hrun := run_resolve r fragment root current
  exact (reporting_resolveWithin r.document? _ root current fragment r result
    (r.resolve fragment root current).2 rfl (by rw [hrun, ← hresult])).2

theorem resolve_of_dangles {r : Resolver} {root : Json} {current : Path} {text : String}
    {reference : Reference} (hparse : Reference.parse? text = some reference)
    (hidle : r.active = []) (hdangles : reference.Dangles r.document? root current) :
    ∃ s, r.resolve (.reference text) root current = (.ok .absent, s) ∧
      s.missing = r.missing ++ [⟨text, current.text⟩] := by
  obtain ⟨s, hs, -, hmissing⟩ := run_follow_of_dangling (resolveWithin 0) hparse
    (by simp [hidle]) (Reference.dangles_iff.mp hdangles)
  rw [← resolveWithin_reference] at hs
  exact ⟨s, (run_eq_resolve r _ root current hs).symm, hmissing⟩

end Resolver

end EventSchema
