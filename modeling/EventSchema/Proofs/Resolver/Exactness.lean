import EventSchema.Proofs.Resolver.Expands
import EventSchema.Proofs.Resolver.Termination

/-!
# A resolver computes the expansion

A resolver refuses a place that is met inside itself, of which the meaning of a fragment knows
nothing. Nothing is lost by that: of the searches that unfold a place take the shortest; every place
being followed has none as short (`Pending`), so the place is not among them, and what is inside it
unfolds within less (`run_of_unfoldWithin`). So an idle resolver gives what a fragment expands to
whenever that exists, and otherwise finds a cycle, unless a reference of no known form or a document
that cannot be loaded stops it before (`cyclicOnly_resolveWithin`).

Places are told apart by normal paths, so the directory of the document at hand has to be that of
its normal path (`Stored`); it is for a path that ends in a name (`Path.normalize_directory`).
-/

set_option autoImplicit false

namespace EventSchema

/-- The document is the one at the path, and its relative references are seen from the directory of
the normal path. -/
structure Stored (library : Library) (root : Json) (current : Path) : Prop where
  document : library current.normalize = .ok (some root)
  directory : current.normalize.directory.normalize = current.directory.normalize

/-- The references that can be met in expanding the fragment, each with the document that holds it
and the path from which it is seen. -/
inductive Met (library : Library) (root : Json) (current : Path) (fragment : Fragment) :
    Json → Path → String → Prop
  | here {text : String} (hfollowed : text ∈ fragment.followed) :
    Met library root current fragment root current text
  | inside {document : Json} {path : Path} {text other : String} {reference : Reference}
    {found : Target} (hmet : Met library root current fragment document path text)
    (hparse : Reference.parse? text = some reference)
    (hfind : reference.find? library document path = .ok (some found))
    (hother : other ∈ (Fragment.ofJson found.value).followed) :
    Met library root current fragment found.document found.path other

section Stored

variable {library : Library} {root : Json} {current : Path} {reference : Reference}

/-- A place is what the reference denotes, if there is anything in it. -/
theorem Stored.find?_of_lookup (hstored : Stored library root current) {document value : Json}
    (hdocument : library (reference.locate current).file = .ok (some document))
    (hlookup : (reference.locate current).pointer.lookup document = some value) :
    ∃ path, reference.find? library root current = .ok (some ⟨document, path, value⟩) := by
  cases reference with
  | internal pointer =>
    obtain rfl : root = document := by simpa using hstored.document.symm.trans hdocument
    have hvalue : pointer.lookup root = some value := hlookup
    refine ⟨current, ?_⟩
    rw [Reference.find?, hvalue]
    rfl
  | external file pointer =>
    refine ⟨((Reference.external file pointer).locate current).file, ?_⟩
    rw [Reference.find?, hdocument]
    simp [Except.map, show pointer.lookup document = some value from hlookup]

/-- What a reference denotes is stored where its place is. -/
theorem Stored.of_find? (hstored : Stored library root current) {found : Target}
    (hfind : reference.find? library root current = .ok (some found)) :
    Stored library found.document found.path ∧
      found.path.normalize = (reference.locate current).file := by
  obtain ⟨-, ⟨hdocument, hpath, hfile⟩ | ⟨hdocument, hpath⟩⟩ := Reference.find?_eq_some hfind
  · rw [hdocument, hpath]
    exact ⟨hstored, hfile.symm⟩
  · have hnormal : found.path.normalize = found.path := by
      rw [hpath, Reference.normalize_locate_file]
    exact ⟨⟨by rw [hnormal, hdocument], by rw [hnormal]⟩, hnormal.trans hpath⟩

theorem Stored.locate_normalize (hstored : Stored library root current) :
    reference.locate current.normalize = reference.locate current := by
  cases reference with
  | internal pointer => rw [Reference.locate, Reference.locate, Path.normalize_normalize]
  | external file pointer =>
    rw [Reference.locate, Reference.locate, Path.normalize_join_congr hstored.directory]

theorem Stored.find?_normalize (hstored : Stored library root current) :
    reference.find? library root current.normalize =
      (reference.find? library root current).map
        (Option.map fun found ↦ { found with path := found.path.normalize }) := by
  cases reference with
  | internal pointer =>
    cases hlookup : pointer.lookup root <;> simp [Reference.find?, hlookup, Except.map]
  | external file pointer =>
    have hnormal := Reference.normalize_locate_file (.external file pointer) current
    rw [Reference.find?, Reference.find?, hstored.locate_normalize]
    cases library ((Reference.external file pointer).locate current).file with
    | error error => rfl
    | ok document =>
      cases document with
      | none => rfl
      | some document =>
        cases hlookup : pointer.lookup document <;> simp [hlookup, Except.map, hnormal]

/-- Whether the path is spelled in normal form does not matter to what a fragment unfolds to. -/
theorem Stored.unfoldWithin_normalize (hstored : Stored library root current) (depth : Nat)
    (fragment : Fragment) :
    unfoldWithin library depth root current.normalize fragment =
      unfoldWithin library depth root current fragment := by
  induction depth generalizing root current fragment with
  | zero => rfl
  | succ depth ih =>
    have hfollow : followWithin library root current.normalize depth =
        followWithin library root current depth := by
      funext text
      rw [followWithin, followWithin, unfoldReference, unfoldReference]
      cases Reference.parse? text with
      | none => rfl
      | some reference =>
        simp only [hstored.find?_normalize]
        cases hfind : reference.find? library root current with
        | error error => rfl
        | ok found =>
          cases found with
          | none => rfl
          | some found => exact ih (hstored.of_find? hfind).1 _
    rw [unfoldWithin_succ, unfoldWithin_succ, hfollow]

/-- A place that holds something which does not unfold within the depth. -/
def Pending (library : Library) (depth : Nat) (location : Location) : Prop :=
  ∃ document value, library location.file = .ok (some document) ∧
    location.pointer.lookup document = some value ∧
    unfoldWithin library depth document location.file (.ofJson value) = none

theorem Pending.of_le {depth less : Nat} {location : Location}
    (hpending : Pending library depth location) (hless : less ≤ depth) :
    Pending library less location := by
  obtain ⟨document, value, hdocument, hlookup, hnone⟩ := hpending
  refine ⟨document, value, hdocument, hlookup, Option.eq_none_iff_forall_ne_some.mpr ?_⟩
  intro result hresult
  rw [unfoldWithin_mono hless hresult] at hnone
  cases hnone

theorem Stored.pending_iff (hstored : Stored library root current) {found : Target}
    (hfind : reference.find? library root current = .ok (some found)) {depth : Nat} :
    Pending library depth (reference.locate current) ↔
      unfoldWithin library depth found.document found.path (.ofJson found.value) = none := by
  obtain ⟨htarget, hpath⟩ := hstored.of_find? hfind
  have hlookup := (Reference.find?_eq_some hfind).1
  rw [← htarget.unfoldWithin_normalize, hpath]
  constructor
  · rintro ⟨document, value, hdocument, hvalue, hnone⟩
    obtain ⟨path, hsame⟩ := hstored.find?_of_lookup hdocument hvalue
    obtain rfl : found = ⟨document, path, value⟩ := by simpa using hfind.symm.trans hsame
    exact hnone
  · intro hnone
    exact ⟨found.document, found.value, by rw [← hpath, htarget.document], hlookup, hnone⟩

end Stored

namespace Resolver

/-! ### Results are derivable -/

/-- Pairs of a computation, from resolvers for which paths lead to the same, and a search that finds
its result. -/
def soundness (library : Library) : Coupling ResolveM Option where
  Holds x y := ∀ r value s, r.document? = library → x.run.run r = some (.ok value, s) →
    y = some value ∧ s.document? = library
  holds_pure value r _ s hlibrary hrun := by
    cases hrun
    exact ⟨rfl, hlibrary⟩
  holds_bind := by
    intro α β x y f g hfirst hnext r result s hlibrary hrun
    obtain ⟨value, t, hx, hf⟩ := ResolveM.exists_of_run_bind_eq_ok hrun
    obtain ⟨rfl, hreached⟩ := hfirst r value t hlibrary hx
    exact hnext value t result s hreached hf

/-- A result of a resolver, whatever it is following, is found by searching as deep. -/
theorem soundness_resolveWithin {library : Library} (depth : Nat) (root : Json) (current : Path)
    (fragment : Fragment) :
    (soundness library).Holds (resolveWithin depth root current fragment)
      (unfoldWithin library depth root current fragment) := by
  induction depth generalizing root current fragment with
  | zero =>
    intro r value s _ hrun
    cases hrun
  | succ depth ih =>
    apply (soundness library).expand fragment
    intro text _ r value s hlibrary hrun
    have houtcome := followOutcome (resolveWithin depth) root current text r
    generalize hanswer : (follow (resolveWithin depth) root current text).run.run r = answer
      at houtcome
    rw [hrun] at hanswer
    cases houtcome with
    | unsupported hparse => cases hanswer
    | cyclic hparse hactive => cases hanswer
    | unloadable hparse hfind halike => cases hanswer
    | @dangling reference t hparse hfind halike =>
      cases hanswer
      rw [hlibrary] at hfind
      exact ⟨unfoldReference_eq_some.mpr ⟨reference, hparse, .inl ⟨hfind, rfl⟩⟩,
        halike.document?.trans hlibrary⟩
    | @found reference found t hparse hactive hfind halike =>
      rw [hlibrary] at hfind
      obtain ⟨⟨inner, u⟩, hinner, hleave⟩ := Option.map_eq_some_iff.mp hanswer.symm
      cases hleave
      obtain ⟨htarget, hreached⟩ := ih found.document found.path (.ofJson found.value) t value u
        (halike.document?.trans hlibrary) hinner
      exact ⟨unfoldReference_eq_some.mpr ⟨reference, hparse, .inr ⟨found, hfind, htarget⟩⟩,
        hreached⟩

theorem expands_of_resolve {r : Resolver} {fragment result : Fragment} {root : Json}
    {current : Path} (hresult : (r.resolve fragment root current).1 = .ok result) :
    Expands r.document? root current fragment result := by
  have hrun := run_resolve r fragment root current
  obtain ⟨hunfold, -⟩ := soundness_resolveWithin _ root current fragment r result
    (r.resolve fragment root current).2 rfl (by rw [hrun, ← hresult])
  exact expands_of_unfoldWithin hunfold

/-! ### What is derivable results -/

/-- Pairs of a computation and a search such that, from every resolver alike to the given one, the
computation gives what the search finds. -/
def completeness (r : Resolver) : Coupling ResolveM Option where
  Holds x y := ∀ s, Alike r s → ∀ value, y = some value →
    ∃ t, x.run.run s = some (.ok value, t) ∧ Alike r t
  holds_pure value s hs _ hvalue := by
    cases hvalue
    exact ⟨s, rfl, hs⟩
  holds_bind := by
    intro α β x y f g hfirst hnext s hs result hresult
    obtain ⟨value, hvalue, hresult⟩ := Option.bind_eq_some_iff.mp hresult
    obtain ⟨t, hx, ht⟩ := hfirst s hs value hvalue
    obtain ⟨u, hf, hu⟩ := hnext value t ht result hresult
    exact ⟨u, (ResolveM.run_bind_of_ok hx f).trans hf, hu⟩

/-- What unfolds within a depth is given by a resolver that follows only places that do not unfold
within less. The induction is on the depth: a reference is taken to its least depth, at which its
own place becomes one of those. -/
theorem run_of_unfoldWithin {library : Library} (depth : Nat) {root : Json} {current : Path}
    {fragment result : Fragment} {r : Resolver} (hstored : Stored library root current)
    (hlibrary : r.document? = library)
    (hunfold : unfoldWithin library (depth + 1) root current fragment = some result)
    (hactive : ∀ location ∈ r.active, Pending library depth location) :
    ∃ s, (resolveWithin (depth + 1) root current fragment).run.run r = some (.ok result, s) ∧
      Alike r s := by
  induction depth using Nat.strongRecOn generalizing root current fragment result r with
  | ind depth ih =>
    refine (completeness r).expand fragment (fun text _ s hs value hvalue ↦ ?_) r (.refl r) result
      hunfold
    have hsame : s.document? = library := hs.document?.trans hlibrary
    obtain ⟨reference, hparse, ⟨hfind, rfl⟩ | ⟨found, hfind, htarget⟩⟩ :=
      unfoldReference_eq_some.mp hvalue
    · have hnot : reference.locate current ∉ s.active := by
        intro hmem
        rw [hs.active] at hmem
        obtain ⟨document, inner, hdocument, hlookup, -⟩ := hactive _ hmem
        obtain ⟨path, hfound⟩ := hstored.find?_of_lookup hdocument hlookup
        simp [hfind] at hfound
      rw [← hsame] at hfind
      obtain ⟨t, hrun, halike, -⟩ :=
        run_follow_of_dangling (resolveWithin depth) hparse hnot hfind
      exact ⟨t, hrun, hs.trans halike⟩
    · have hnot : reference.locate current ∉ s.active := by
        intro hmem
        rw [hs.active] at hmem
        rw [(hstored.pending_iff hfind).mp (hactive _ hmem)] at htarget
        cases htarget
      obtain ⟨less, hless, hunder, hleast⟩ := exists_least_unfoldWithin htarget
      have hplace := (hstored.pending_iff hfind).mpr hunder
      have htargetStored := (hstored.of_find? hfind).1
      rw [← hsame] at hfind
      obtain ⟨t, hrun, halike, -⟩ := run_follow_of_found (resolveWithin depth) hparse hnot hfind
      have hpending (location : Location) (hmem : location ∈ t.active) :
          Pending library less location := by
        rw [halike.active, hs.active] at hmem
        rcases List.mem_append.mp hmem with hmem | hmem
        · exact (hactive location hmem).of_le (Nat.le_of_lt hless)
        · exact List.mem_singleton.mp hmem ▸ hplace
      obtain ⟨u, hinside, hu⟩ :=
        ih less hless htargetStored (halike.document?.trans hsame) hleast hpending
      have hdeep := extension_resolveWithin hless found.document found.path (.ofJson found.value)
        t _ hinside
      refine ⟨u.leave, ?_, hs.trans (leave_of_alike (halike.trans hu))⟩
      rw [hrun, hdeep]
      rfl

/-! ### Only cycles are in the way -/

/-- Computations that keep what paths lead to and fail on nothing but cycles. -/
def cyclicOnly (library : Library) : Coupling ResolveM ResolveM where
  Holds x _ := ∀ r result s, r.document? = library → x.run.run r = some (result, s) →
    s.document? = library ∧ ∀ error, result = .error error → ∃ chain, error = .cyclicReference chain
  holds_pure value r result s hlibrary hrun := by
    cases hrun
    exact ⟨hlibrary, fun error herror ↦ by cases herror⟩
  holds_bind := by
    intro α β x y f g hfirst hnext r result s hlibrary hrun
    obtain ⟨error, hx, rfl⟩ | ⟨value, t, hx, hf⟩ := ResolveM.exists_of_run_bind hrun
    · obtain ⟨hreached, hcyclic⟩ := hfirst r _ s hlibrary hx
      refine ⟨hreached, fun other hother ↦ ?_⟩
      cases hother
      exact hcyclic error rfl
    · obtain ⟨hreached, -⟩ := hfirst r _ t hlibrary hx
      exact hnext value t result s hreached hf

/-- Every reference that can be met is of a known form, and every document that it leads to can be
loaded. -/
def Loadable (library : Library) (root : Json) (current : Path) (fragment : Fragment) : Prop :=
  ∀ document path text, Met library root current fragment document path text →
    ∃ reference found, Reference.parse? text = some reference ∧
      reference.find? library document path = .ok found

theorem cyclicOnly_resolveWithin {library : Library} {root : Json} {current : Path}
    {fragment : Fragment} (hloadable : Loadable library root current fragment) (depth : Nat)
    (document : Json) (path : Path) (part : Fragment)
    (hmet : ∀ text ∈ part.followed, Met library root current fragment document path text) :
    (cyclicOnly library).Holds (resolveWithin depth document path part)
      (resolveWithin depth document path part) := by
  induction depth generalizing document path part with
  | zero =>
    intro r result s _ hrun
    cases hrun
  | succ depth ih =>
    apply (cyclicOnly library).expand part
    intro text htext r result s hlibrary hrun
    obtain ⟨reference, found?, hknown, hloads⟩ := hloadable document path text (hmet text htext)
    have houtcome := followOutcome (resolveWithin depth) document path text r
    generalize hanswer : (follow (resolveWithin depth) document path text).run.run r = answer
      at houtcome
    rw [hrun] at hanswer
    cases houtcome with
    | unsupported hparse => simp [hknown] at hparse
    | @cyclic _ chain hparse hactive =>
      cases hanswer
      exact ⟨hlibrary, fun error herror ↦ ⟨chain, by cases herror; rfl⟩⟩
    | unloadable hparse hfind halike =>
      obtain rfl := Option.some_injective _ (hknown.symm.trans hparse)
      simp [hlibrary, hloads] at hfind
    | dangling hparse hfind halike =>
      cases hanswer
      exact ⟨halike.document?.trans hlibrary, fun error herror ↦ by cases herror⟩
    | @found other found t hparse hactive hfind halike =>
      rw [hlibrary] at hfind
      obtain ⟨⟨inner, u⟩, hinner, hleave⟩ := Option.map_eq_some_iff.mp hanswer.symm
      cases hleave
      refine ih found.document found.path (.ofJson found.value) (fun text hother ↦ ?_) t _ u
        (halike.document?.trans hlibrary) hinner
      exact .inside (hmet _ htext) hparse hfind hother

/-- An idle resolver finds every expansion of a fragment of a stored document. -/
theorem resolve_of_expands {r : Resolver} {fragment result : Fragment} {root : Json}
    {current : Path} (hidle : r.active = []) (hstored : Stored r.document? root current)
    (hexpands : Expands r.document? root current fragment result) :
    (r.resolve fragment root current).1 = .ok result := by
  obtain ⟨depth, hunfold⟩ := expands_iff_exists_unfoldWithin.mp hexpands
  obtain ⟨depth, rfl⟩ : ∃ less, depth = less + 1 :=
    Nat.exists_eq_succ_of_ne_zero fun hzero ↦ by simp [hzero, unfoldWithin] at hunfold
  obtain ⟨s, hresult, -⟩ := run_of_unfoldWithin depth hstored rfl hunfold (by simp [hidle])
  rw [← run_eq_resolve r fragment root current hresult]

/-- An idle resolver computes exactly the expansion of a fragment of a stored document; where no
reference is of an unknown form and every document met loads, it reports a cycle exactly if there is
no expansion. -/
theorem resolve_iff_expands (r : Resolver) (fragment : Fragment) (root : Json) (current : Path)
    (hidle : r.active = []) (hstored : Stored r.document? root current) :
    (∀ result, (r.resolve fragment root current).1 = .ok result ↔
        Expands r.document? root current fragment result) ∧
      (Loadable r.document? root current fragment →
        ((∃ chain, (r.resolve fragment root current).1 = .error (.cyclicReference chain)) ↔
          ¬∃ result, Expands r.document? root current fragment result)) := by
  have hok (result : Fragment) : (r.resolve fragment root current).1 = .ok result ↔
      Expands r.document? root current fragment result :=
    ⟨expands_of_resolve, resolve_of_expands hidle hstored⟩
  refine ⟨hok, ?_⟩
  intro hloadable
  constructor
  · rintro ⟨chain, hcyclic⟩ ⟨result, hexpands⟩
    rw [(hok result).mpr hexpands] at hcyclic
    cases hcyclic
  · intro hnone
    cases hresult : (r.resolve fragment root current).1 with
    | ok result => exact absurd ⟨result, (hok result).mp hresult⟩ hnone
    | error error =>
      obtain ⟨-, hcyclic⟩ := cyclicOnly_resolveWithin hloadable _ root current fragment
        (fun _ hfollowed ↦ .here hfollowed) r _ _ rfl (run_resolve r fragment root current)
      obtain ⟨chain, rfl⟩ := hcyclic error hresult
      exact ⟨chain, rfl⟩

theorem ofJson_reference (text : String) :
    Fragment.ofJson (.object [("$ref", .string text)]) = .reference text := by
  simp [Fragment.ofJson, Fragment.shape, Entries.get?, Json.asString?]

/-- A document that refers to itself. -/
def selfRoot : Json := .object [("$ref", .string "#")]

theorem resolve_iff_expands_selfRoot :
    (∃ chain, ((({ source := {} } : Resolver).register ⟨"a.json"⟩ selfRoot).resolve
        (.reference "#") selfRoot ⟨"a.json"⟩).1 = .error (.cyclicReference chain)) ↔
      ¬∃ result, Expands (({ source := {} } : Resolver).register ⟨"a.json"⟩ selfRoot).document?
        selfRoot ⟨"a.json"⟩ (.reference "#") result := by
  have hparse : Reference.parse? "#" = some (.internal ⟨[]⟩) := by decide +kernel
  have hstored : Stored (({ source := {} } : Resolver).register ⟨"a.json"⟩ selfRoot).document?
      selfRoot ⟨"a.json"⟩ := ⟨rfl, Path.normalize_directory (by decide +kernel)⟩
  refine (resolve_iff_expands _ (.reference "#") selfRoot ⟨"a.json"⟩ rfl hstored).2 ?_
  have honly (document : Json) (path : Path) (text : String)
      (hmet : Met (({ source := {} } : Resolver).register ⟨"a.json"⟩ selfRoot).document? selfRoot
        ⟨"a.json"⟩ (.reference "#") document path text) : document = selfRoot ∧ text = "#" := by
    induction hmet with
    | here hfollowed => exact ⟨rfl, by simpa [Fragment.followed] using hfollowed⟩
    | @inside document path text other reference found hmet hknown hfind hother ih =>
      obtain ⟨rfl, rfl⟩ := ih
      obtain rfl := Option.some_injective _ (hparse.symm.trans hknown)
      obtain rfl : ⟨selfRoot, path, selfRoot⟩ = found := by
        simpa [Reference.find?, Pointer.lookup] using hfind
      exact ⟨rfl, by simpa [selfRoot, ofJson_reference, Fragment.followed] using hother⟩
  intro document path text hmet
  obtain ⟨rfl, rfl⟩ := honly document path text hmet
  exact ⟨_, _, hparse, rfl⟩

theorem resolveWithin_reference (depth : Nat) (root : Json) (current : Path) (text : String) :
    resolveWithin (depth + 1) root current (.reference text) =
      follow (resolveWithin depth) root current text := by
  rw [resolveWithin, Fragment.expand]

def detourRoot : Json := .object [("p", .object [("$ref", .string "./x.json")])]

def detourPart : Json := .object [("$ref", .string "../../a#/p")]

/-- The document `a` and one that refers back to it. -/
def detour : Resolver :=
  (({ source := {} } : Resolver).register ⟨"a"⟩ detourRoot).register ⟨"a/b/x.json"⟩ detourPart

/-- Seen from `a/b/..` the reference of the document `a` leads to the other document and that one
back to the same place, which is refused; seen from `a`, where it is then, it leads to nothing. -/
theorem cyclic_of_detour :
    detour.active = [] ∧
      detour.document? (Path.normalize ⟨"a/b/.."⟩) = .ok (some detourRoot) ∧
      (∃ chain, (detour.resolve (.reference "#/p") detourRoot ⟨"a/b/.."⟩).1 =
        .error (.cyclicReference chain)) ∧
      Expands detour.document? detourRoot ⟨"a/b/.."⟩ (.reference "#/p") .absent := by
  have hparse : Reference.parse? "#/p" = some (.internal ⟨["p"]⟩) := by decide +kernel
  have hparse' : Reference.parse? "./x.json" = some (.external ⟨"./x.json"⟩ ⟨[]⟩) := by
    decide +kernel
  have hparse'' : Reference.parse? "../../a#/p" = some (.external ⟨"../../a"⟩ ⟨["p"]⟩) := by
    decide +kernel
  have hlocate : (Reference.internal ⟨["p"]⟩).locate ⟨"a/b/.."⟩ = ⟨⟨"a"⟩, ⟨["p"]⟩⟩ := by
    decide +kernel
  have hlocate' : (Reference.external ⟨"./x.json"⟩ ⟨[]⟩).locate ⟨"a/b/.."⟩ =
      ⟨⟨"a/b/x.json"⟩, ⟨[]⟩⟩ := by decide +kernel
  have hlocate'' : (Reference.external ⟨"../../a"⟩ ⟨["p"]⟩).locate ⟨"a/b/x.json"⟩ =
      ⟨⟨"a"⟩, ⟨["p"]⟩⟩ := by decide +kernel
  have hnowhere : (Reference.external ⟨"./x.json"⟩ ⟨[]⟩).locate ⟨"a"⟩ = ⟨⟨"x.json"⟩, ⟨[]⟩⟩ := by
    decide +kernel
  have hfind : (Reference.internal ⟨["p"]⟩).find? detour.document? detourRoot ⟨"a/b/.."⟩ =
      .ok (some ⟨detourRoot, ⟨"a/b/.."⟩, .object [("$ref", .string "./x.json")]⟩) := rfl
  have hfind' : (Reference.external ⟨"./x.json"⟩ ⟨[]⟩).find? detour.document? detourRoot
      ⟨"a/b/.."⟩ = .ok (some ⟨detourPart, ⟨"a/b/x.json"⟩, detourPart⟩) := by
    rw [Reference.find?, hlocate']
    rfl
  have hfind'' : (Reference.external ⟨"../../a"⟩ ⟨["p"]⟩).find? detour.document? detourPart
      ⟨"a/b/x.json"⟩ =
        .ok (some ⟨detourRoot, ⟨"a"⟩, .object [("$ref", .string "./x.json")]⟩) := by
    rw [Reference.find?, hlocate'']
    rfl
  have hnothing : (Reference.external ⟨"./x.json"⟩ ⟨[]⟩).find? detour.document? detourRoot ⟨"a"⟩ =
      .ok none := by
    rw [Reference.find?, hnowhere]
    rfl
  refine ⟨rfl, rfl, ?_, ?_⟩
  · obtain ⟨s, hs, halike, -⟩ := run_follow_of_found (resolveWithin 2) hparse
      List.not_mem_nil hfind
    have hlibrary : s.document? = detour.document? := halike.document?
    have hactive : s.active = [⟨⟨"a"⟩, ⟨["p"]⟩⟩] := hlocate ▸ halike.active
    have hnew : (Reference.external ⟨"./x.json"⟩ ⟨[]⟩).locate ⟨"a/b/.."⟩ ∉ s.active := by
      rw [hactive, hlocate']
      decide +kernel
    rw [← hlibrary] at hfind'
    obtain ⟨t, ht, halike', -⟩ := run_follow_of_found (resolveWithin 1) hparse' hnew hfind'
    have hagain : (Reference.external ⟨"../../a"⟩ ⟨["p"]⟩).locate ⟨"a/b/x.json"⟩ ∈ t.active := by
      rw [halike'.active, hactive, hlocate', hlocate'']
      exact List.mem_cons_self
    obtain ⟨chain, hrun⟩ : ∃ chain,
        (resolveWithin 3 detourRoot ⟨"a/b/.."⟩ (.reference "#/p")).run.run detour =
          some (.error (.cyclicReference chain), t.leave.leave) := by
      rw [resolveWithin_reference, hs, ofJson_reference, resolveWithin_reference, ht, detourPart,
        ofJson_reference, resolveWithin_reference, run_follow_of_active hparse'' hagain]
      exact ⟨_, rfl⟩
    rw [← run_eq_resolve detour _ _ _ hrun]
    exact ⟨chain, rfl⟩
  · refine .reference hparse hfind ?_
    rw [ofJson_reference]
    refine .reference hparse' hfind' ?_
    rw [detourPart, ofJson_reference]
    refine .reference hparse'' hfind'' ?_
    rw [ofJson_reference]
    exact .dangling hparse' hnothing

end Resolver

end EventSchema
