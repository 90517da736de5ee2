import EventSchema.Proofs.Resolver.Exactness

/-!
# Reported cycles

A resolver that refuses a place hands out the places from there on that it is following. Each of
them was entered for a reference inside the one before, and none while it was being followed
(`Followed`), so the chain is a cycle: it comes back to its first place, passes no other twice, and
each place refers to the next (`isCycle_of_resolve`). A reference of the document at hand is read
from the path as it is spelled, which for a spelling such as `a/b/..` is not as good as reading it
from the normal path (`not_isCycle_of_respelled`).
-/

set_option autoImplicit false

namespace EventSchema

/-- Read from the path, a reference in what the first place holds denotes the second place. -/
def RefersFrom (library : Library) (path : Path) (place other : Location) : Prop :=
  ∃ document value text reference, library place.file = .ok (some document) ∧
    place.pointer.lookup document = some value ∧ text ∈ value.referenceTexts ∧
    Reference.parse? text = some reference ∧ reference.locate path = other

/-- Read from its document, a reference in what the first place holds denotes the second place. -/
def Refers (library : Library) (place other : Location) : Prop :=
  RefersFrom library place.file place other

/-- The same, where the references of one document may be read from a spelling of its path. -/
def RefersSpelled (library : Library) (current : Path) (place other : Location) : Prop :=
  Refers library place other ∨
    place.file = current.normalize ∧ RefersFrom library current place other

/-- Places that are linked one to the next, of which the last is the first and no other two are
the same. -/
def IsCycle (Links : Location → Location → Prop) (chain : List Location) : Prop :=
  ∃ first rest, chain = first :: (rest ++ [first]) ∧ (first :: rest).Nodup ∧ chain.IsChain Links

theorem IsCycle.imp {Links Links' : Location → Location → Prop} {chain : List Location}
    (hcycle : IsCycle Links chain) (himp : ∀ place other, Links place other → Links' place other) :
    IsCycle Links' chain := by
  obtain ⟨first, rest, hends, hnodup, hchain⟩ := hcycle
  exact ⟨first, rest, hends, hnodup, hchain.imp himp⟩

/-- Going on from the last place to one that was passed before closes a cycle. -/
theorem isCycle_of_mem {Links : Location → Location → Prop} {places : List Location}
    {place : Location} (hnodup : places.Nodup) (hchain : places.IsChain Links)
    (hmem : place ∈ places) (hlast : ∀ last ∈ places.getLast?, Links last place) :
    IsCycle Links (places.dropWhile (· ≠ place) ++ [place]) := by
  obtain ⟨before, after, rfl⟩ := List.append_of_mem hmem
  have hbefore : ∀ other ∈ before, decide (other ≠ place) = true := by
    intro other hother
    have hapart := (List.nodup_append.mp hnodup).2.2 other hother place List.mem_cons_self
    exact decide_eq_true hapart
  rw [List.dropWhile_append_of_pos hbefore, List.dropWhile_cons_of_neg (by simp)]
  refine ⟨place, after, rfl, (List.nodup_append.mp hnodup).2.1, ?_⟩
  refine List.isChain_append.mpr ⟨(List.isChain_append.mp hchain).2.1, .singleton place, ?_⟩
  intro last hlastmem other hother
  obtain rfl : place = other := by simpa using hother
  refine hlast last ?_
  rwa [List.getLast?_append_of_ne_nil _ (List.cons_ne_nil place after)]

namespace Resolver

section Followed

variable {library : Library} {current : Path}

/-- Each of the places is there once and refers to the next, and the last one, if there is one, to
all that the references of the fragment denote, which is a part of the document as seen from the
path. -/
structure Followed (library : Library) (current : Path) (places : List Location) (document : Json)
    (path : Path) (part : Fragment) : Prop where
  stored : library path.normalize = .ok (some document)
  seen : path = path.normalize ∨ path = current
  nodup : places.Nodup
  chain : places.IsChain (RefersSpelled library current)
  last : ∀ last ∈ places.getLast?, ∀ text ∈ part.followed, ∀ reference,
    Reference.parse? text = some reference →
      RefersSpelled library current last (reference.locate path)

variable {places : List Location} {document : Json} {path : Path} {part : Fragment}
  {text : String} {reference : Reference}

/-- What is followed is still linked inside the target of a reference. -/
theorem Followed.inside (hfollowed : Followed library current places document path part)
    (htext : text ∈ part.followed) (hparse : Reference.parse? text = some reference)
    (hnew : reference.locate path ∉ places) {found : Target}
    (hfind : reference.find? library document path = .ok (some found)) :
    Followed library current (places ++ [reference.locate path]) found.document found.path
      (.ofJson found.value) := by
  obtain ⟨hlookup, htarget⟩ := Reference.find?_eq_some hfind
  have hplace : library found.path.normalize = .ok (some found.document) ∧
      found.path.normalize = (reference.locate path).file ∧
      (found.path = found.path.normalize ∨ found.path = current) := by
    rcases htarget with ⟨hdocument, hpath, hfile⟩ | ⟨hdocument, hpath⟩
    · rw [hdocument, hpath, hfile]
      exact ⟨hfollowed.stored, rfl, hfollowed.seen⟩
    · have hnormal : found.path.normalize = found.path := by
        rw [hpath, Reference.normalize_locate_file]
      rw [hnormal]
      exact ⟨hdocument, hpath, .inl rfl⟩
  obtain ⟨hstored, hfile, hseen⟩ := hplace
  refine ⟨hstored, hseen, ?_, ?_, ?_⟩
  · refine List.nodup_append.mpr ⟨hfollowed.nodup, List.nodup_singleton _, ?_⟩
    intro other hother place hplace hsame
    exact hnew (List.mem_singleton.mp hplace ▸ hsame ▸ hother)
  · refine List.isChain_append.mpr ⟨hfollowed.chain, .singleton _, ?_⟩
    intro last hlast other hother
    obtain rfl : reference.locate path = other := by simpa using hother
    exact hfollowed.last last hlast text htext reference hparse
  · intro last hlast other hother reference' hparse'
    obtain rfl : reference.locate path = last := by simpa using hlast
    have hrefers : RefersFrom library found.path (reference.locate path)
        (reference'.locate found.path) :=
      ⟨found.document, found.value, other, reference', hfile ▸ hstored, hlookup,
        Json.followed_ofJson_subset _ hother, hparse', rfl⟩
    rcases hseen with hnormal | hcurrent
    · exact .inl (by rwa [Refers, ← hfile, ← hnormal])
    · rw [hcurrent] at hfile hrefers ⊢
      exact .inr ⟨hfile.symm, hrefers⟩

end Followed

/-- Computations that, from every resolver alike to the given one, end in one alike and report no
chain but those with the property. -/
def reportsOnly (r : Resolver) (P : List Location → Prop) : Coupling ResolveM ResolveM where
  Holds x _ := ∀ s, Alike r s → ∀ result t, x.run.run s = some (result, t) →
    Alike r t ∧ ∀ chain, result = .error (.cyclicReference chain) → P chain
  holds_pure value s hs result t hrun := by
    cases hrun
    exact ⟨hs, fun chain hchain ↦ by cases hchain⟩
  holds_bind := by
    intro α β x y f g hfirst hnext s hs result u hrun
    obtain ⟨error, hx, rfl⟩ | ⟨value, t, hx, hf⟩ := ResolveM.exists_of_run_bind hrun
    · obtain ⟨hu, hreported⟩ := hfirst s hs _ u hx
      refine ⟨hu, fun chain hchain ↦ ?_⟩
      cases hchain
      exact hreported chain rfl
    · obtain ⟨ht, -⟩ := hfirst s hs _ t hx
      exact hnext value t ht result u hf

/-- Whatever is reported inside linked places is a cycle. The induction is on the depth; a place
that is entered is linked to the one before, and one that is refused closes the cycle. -/
theorem reportsOnly_resolveWithin {library : Library} {current : Path} (depth : Nat)
    {document : Json} {path : Path} {part : Fragment} {r : Resolver}
    (hlibrary : r.document? = library)
    (hfollowed : Followed library current r.active document path part) :
    (reportsOnly r (IsCycle (RefersSpelled library current))).Holds
      (resolveWithin depth document path part) (resolveWithin depth document path part) := by
  induction depth generalizing document path part r with
  | zero =>
    intro s _ result t hrun
    cases hrun
  | succ depth ih =>
    apply Coupling.expand _ part
    intro text htext s hs result u hrun
    have houtcome := followOutcome (resolveWithin depth) document path text s
    generalize hanswer : (follow (resolveWithin depth) document path text).run.run s = answer
      at houtcome
    rw [hrun] at hanswer
    cases houtcome with
    | unsupported hparse =>
      cases hanswer
      exact ⟨hs, fun chain hchain ↦ by cases hchain⟩
    | @cyclic reference _ hparse hactive =>
      rw [run_follow_of_active hparse hactive, Option.some_inj, Prod.mk.injEq] at hrun
      obtain ⟨rfl, rfl⟩ := hrun
      refine ⟨hs, ?_⟩
      intro chain hchain
      cases hchain
      rw [hs.active] at hactive ⊢
      exact isCycle_of_mem hfollowed.nodup hfollowed.chain hactive fun last hlast ↦
        hfollowed.last last hlast text htext reference hparse
    | unloadable hparse hfind halike =>
      cases hanswer
      exact ⟨hs.trans halike, fun chain hchain ↦ by cases hchain⟩
    | dangling hparse hfind halike =>
      cases hanswer
      exact ⟨hs.trans halike, fun chain hchain ↦ by cases hchain⟩
    | @found reference found t hparse hactive hfind halike =>
      obtain ⟨⟨inner, v⟩, hinner, hleave⟩ := Option.map_eq_some_iff.mp hanswer.symm
      cases hleave
      have hsame : s.document? = library := hs.document?.trans hlibrary
      rw [hsame] at hfind
      rw [hs.active] at hactive
      have hinside : Followed library current t.active found.document found.path
          (.ofJson found.value) := by
        rw [halike.active, hs.active]
        exact hfollowed.inside htext hparse hactive hfind
      obtain ⟨hv, hreported⟩ :=
        ih (halike.document?.trans hsame) hinside t (.refl t) inner v hinner
      exact ⟨hs.trans (leave_of_alike (halike.trans hv)), hreported⟩

/-- A cycle that an idle resolver reports for a fragment of the document at a path is one: it comes
back to the place where it starts and passes no other place twice, and each of its places has a
reference in it that denotes the next one, read from the document, or from the path as spelled if it
is the document there. Where the spelling has the directory of the normal path, reading from the
document will do. -/
theorem isCycle_of_resolve {r : Resolver} {fragment : Fragment} {root : Json} {current : Path}
    {chain : List Location} (hidle : r.active = [])
    (hroot : r.document? current.normalize = .ok (some root))
    (hcyclic : (r.resolve fragment root current).1 = .error (.cyclicReference chain)) :
    IsCycle (RefersSpelled r.document? current) chain ∧
      (current.normalize.directory.normalize = current.directory.normalize →
        IsCycle (Refers r.document?) chain) := by
  have hfollowed : Followed r.document? current r.active root current fragment := by
    rw [hidle]
    exact ⟨hroot, .inr rfl, List.nodup_nil, .nil, fun _ hlast ↦ by cases hlast⟩
  obtain ⟨-, hreported⟩ := reportsOnly_resolveWithin _ rfl hfollowed r (.refl r) _ _
    (run_resolve r fragment root current)
  have hcycle := hreported chain hcyclic
  refine ⟨hcycle, fun hdirectory ↦ hcycle.imp ?_⟩
  rintro place other (hrefers | ⟨hfile, document, value, text, reference, hrefers⟩)
  · exact hrefers
  · rw [← (Stored.mk hroot hdirectory).locate_normalize, ← hfile] at hrefers
    exact ⟨document, value, text, reference, hrefers⟩

/-- A document that refers back to itself is reported as a chain of one step. -/
theorem resolve_of_selfReference {r : Resolver} {text : String} {reference : Reference}
    {current : Path} {place : Location} (hidle : r.active = [])
    (hparse : Reference.parse? text = some reference)
    (hplace : (Reference.internal ⟨[]⟩).locate current = place)
    (hback : reference.locate current = place) :
    (r.resolve (.reference "#") (.object [("$ref", .string text)]) current).1 =
      .error (.cyclicReference [place, place]) := by
  have hwhole : Reference.parse? "#" = some (.internal ⟨[]⟩) := by decide +kernel
  obtain ⟨s, hs, halike, -⟩ := run_follow_of_found (resolveWithin 1) hwhole
    (hidle ▸ List.not_mem_nil : _ ∉ r.active)
    (show (Reference.internal ⟨[]⟩).find? r.document? (.object [("$ref", .string text)]) current =
      .ok (some ⟨.object [("$ref", .string text)], current, .object [("$ref", .string text)]⟩)
      from rfl)
  have hactive : s.active = [place] := by
    rw [halike.active, hidle, hplace]
    rfl
  have hagain : reference.locate current ∈ s.active := by
    rw [hactive, hback]
    exact List.mem_cons_self
  have hrun : (resolveWithin 2 (.object [("$ref", .string text)]) current
      (.reference "#")).run.run r = some (.error (.cyclicReference [place, place]), s.leave) := by
    rw [resolveWithin_reference, hs, ofJson_reference, resolveWithin_reference,
      run_follow_of_active hparse hagain, hactive, hback,
      List.dropWhile_cons_of_neg (by simp)]
    rfl
  rw [← run_eq_resolve r _ _ _ hrun]

theorem isCycle_of_resolve_selfRoot :
    let r : Resolver := ({ source := {} } : Resolver).register ⟨"a.json"⟩ selfRoot
    (r.resolve (.reference "#") selfRoot ⟨"a.json"⟩).1 =
        .error (.cyclicReference [⟨⟨"a.json"⟩, ⟨[]⟩⟩, ⟨⟨"a.json"⟩, ⟨[]⟩⟩]) ∧
      IsCycle (Refers r.document?) [⟨⟨"a.json"⟩, ⟨[]⟩⟩, ⟨⟨"a.json"⟩, ⟨[]⟩⟩] := by
  intro r
  have hcyclic : (r.resolve (.reference "#") selfRoot ⟨"a.json"⟩).1 =
      .error (.cyclicReference [⟨⟨"a.json"⟩, ⟨[]⟩⟩, ⟨⟨"a.json"⟩, ⟨[]⟩⟩]) := by
    have hparse : Reference.parse? "#" = some (.internal ⟨[]⟩) := by decide +kernel
    exact resolve_of_selfReference rfl hparse (by decide +kernel) (by decide +kernel)
  exact ⟨hcyclic, (isCycle_of_resolve rfl rfl hcyclic).2
    (Path.normalize_directory (by decide +kernel))⟩

def respelledRoot : Json := .object [("$ref", .string "../../a")]

/-- Seen from `a/b/..` the reference of the document `a` leads back to it, which is reported; seen
from `a`, where the document is, it leads out of the directory. -/
theorem not_isCycle_of_respelled :
    let r : Resolver := ({ source := {} } : Resolver).register ⟨"a"⟩ respelledRoot
    let chain : List Location := [⟨⟨"a"⟩, ⟨[]⟩⟩, ⟨⟨"a"⟩, ⟨[]⟩⟩]
    r.active = [] ∧ r.document? (Path.normalize ⟨"a/b/.."⟩) = .ok (some respelledRoot) ∧
      (r.resolve (.reference "#") respelledRoot ⟨"a/b/.."⟩).1 = .error (.cyclicReference chain) ∧
      ¬IsCycle (Refers r.document?) chain := by
  intro r chain
  have hparse : Reference.parse? "../../a" = some (.external ⟨"../../a"⟩ ⟨[]⟩) := by
    decide +kernel
  have helsewhere : (Reference.external ⟨"../../a"⟩ ⟨[]⟩).locate ⟨"a"⟩ ≠ ⟨⟨"a"⟩, ⟨[]⟩⟩ := by
    decide +kernel
  refine ⟨rfl, rfl, ?_, ?_⟩
  · exact resolve_of_selfReference rfl hparse (by decide +kernel) (by decide +kernel)
  · rintro ⟨first, rest, hends, -, hchain⟩
    obtain ⟨document, value, text, reference, hdocument, hlookup, htext, hknown, hdenotes⟩ :=
      (List.isChain_cons_cons.mp hchain).1
    obtain rfl : respelledRoot = document := by
      simpa using (show r.document? ⟨"a"⟩ = .ok (some respelledRoot) from rfl).symm.trans hdocument
    obtain rfl : respelledRoot = value := by simpa [Pointer.lookup] using hlookup
    have htexts : respelledRoot.referenceTexts = ["../../a"] := by
      simp [respelledRoot, Json.referenceTexts, Json.references, Json.referencesOfMembers]
    obtain rfl : text = "../../a" := List.mem_singleton.mp (htexts ▸ htext)
    obtain rfl := Option.some_injective _ (hparse.symm.trans hknown)
    exact helsewhere hdenotes

end Resolver

end EventSchema
