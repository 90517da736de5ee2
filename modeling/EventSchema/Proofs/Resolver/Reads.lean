import EventSchema.Proofs.Resolver.History

/-!
# What a resolver reads

A resolver learns documents in two ways: it is given one, or it asks the source and gets one. Both
are kept under the normal path, and the source is asked only for a normal path under which nothing
is kept. So in the history of a resolver (`history`) no path is asked for that was supplied before,
and the documents that are kept are the last ones supplied. A path for which the source had no
document, or one that cannot be read or parsed, stays open to a later registration
(`fetched_once`). The source may hold something else at each call, as files on a disk do.
-/

set_option autoImplicit false

namespace EventSchema.Resolver

/-! ### Histories -/

/-- How a resolver comes to know documents: it is given one, or asks the source for one. -/
inductive Action where
  | registered (path : Path) (root : Json)
  | asked (path : Path) (answer : Except LoadError (Option Json))
deriving DecidableEq

namespace Action

/-- The document that the resolver now has for a normal path, if this action supplied it. -/
def supplied? (path : Path) : Action → Option Json
  | registered other root => if path = other.normalize then some root else none
  | asked other (.ok (some root)) => if path = other then some root else none
  | asked _ _ => none

/-- The path that the source is asked for. -/
def asked? : Action → Option Path
  | registered .. => none
  | asked path _ => some path

/-- The documents that are kept after the action. -/
def keep (documents : List (Path × Json)) : Action → List (Path × Json)
  | registered path root => putDocument documents path.normalize root
  | asked path (.ok (some root)) => putDocument documents path root
  | asked _ _ => documents

/-- The source is only asked for a normal path under which no document is kept. -/
def Needed (documents : List (Path × Json)) : Action → Prop
  | registered .. => True
  | asked path _ => path.normalize = path ∧ documents.lookup path = none

theorem lookup_keep (documents : List (Path × Json)) (action : Action) (path : Path) :
    (action.keep documents).lookup path =
      (action.supplied? path).or (documents.lookup path) := by
  cases action with
  | registered other root =>
    rw [keep, supplied?, lookup_putDocument]
    split_ifs <;> rfl
  | asked other answer =>
    cases answer with
    | error error => rfl
    | ok found =>
      cases found with
      | none => rfl
      | some root =>
        rw [keep, supplied?, lookup_putDocument]
        split_ifs <;> rfl

end Action

/-- From the first documents the actions lead to the last ones, and each was needed in its turn. -/
inductive Keeps : List (Path × Json) → List Action → List (Path × Json) → Prop
  | nil (documents : List (Path × Json)) : Keeps documents [] documents
  | cons {documents result : List (Path × Json)} {action : Action} {rest : List Action}
    (hneeded : action.Needed documents) (hrest : Keeps (action.keep documents) rest result) :
    Keeps documents (action :: rest) result

namespace Keeps

variable {documents middle result : List (Path × Json)} {actions more : List Action} {path : Path}

theorem append (hfirst : Keeps documents actions middle) (hnext : Keeps middle more result) :
    Keeps documents (actions ++ more) result := by
  induction hfirst with
  | nil => exact hnext
  | cons hneeded _ ih => exact .cons hneeded (ih hnext)

theorem exists_of_append (hkeeps : Keeps documents (actions ++ more) result) :
    ∃ middle, Keeps documents actions middle ∧ Keeps middle more result := by
  induction actions generalizing documents with
  | nil => exact ⟨documents, .nil documents, hkeeps⟩
  | cons action rest ih =>
    obtain ⟨⟩ | ⟨hneeded, hrest⟩ := hkeeps
    obtain ⟨middle, hfirst, hnext⟩ := ih hrest
    exact ⟨middle, .cons hneeded hfirst, hnext⟩

/-- The document of a path is the last one supplied, or the one that was there. -/
theorem lookup (hkeeps : Keeps documents actions result) (path : Path) :
    result.lookup path =
      (actions.reverse.findSome? (Action.supplied? path)).or (documents.lookup path) := by
  induction hkeeps with
  | nil => rfl
  | @cons documents result action rest _ _ ih =>
    rw [ih, Action.lookup_keep, List.reverse_cons, List.findSome?_append, Option.or_assoc]
    simp

/-- A document that is kept gives way to registrations only. -/
theorem lookup_of_known (hkeeps : Keeps documents actions result) {root : Json}
    (hknown : documents.lookup path = some root)
    (hother : ∀ other root', .registered other root' ∈ actions → other.normalize ≠ path) :
    result.lookup path = some root := by
  induction hkeeps with
  | nil => exact hknown
  | @cons documents result action rest hneeded _ ih =>
    refine ih ?_ fun other root' hmem ↦ hother other root' (List.mem_cons_of_mem _ hmem)
    rw [Action.lookup_keep, hknown]
    cases action with
    | registered other root' =>
      have hne := (hother other root' List.mem_cons_self).symm
      rw [Action.supplied?, if_neg hne, Option.none_or]
    | asked other answer =>
      have hne : path ≠ other := by
        rintro rfl
        exact Option.some_ne_none root (hknown.symm.trans hneeded.2)
      cases answer with
      | error error => rfl
      | ok found => cases found <;> simp [Action.supplied?, hne]

end Keeps

/-- Asking the source for one path after the other. -/
def askAll (source : Source) (paths : List Path) : List Action :=
  paths.map fun path ↦ .asked path (source.document? path)

theorem filterMap_askAll (source : Source) (paths : List Path) :
    (askAll source paths).filterMap Action.asked? = paths := by
  rw [askAll, List.filterMap_map]
  exact List.filterMap_some

/-- What a resolver does with its documents in a call. -/
def actions (r : Resolver) : Call → List Action
  | .register path root => [.registered path root]
  | step => askAll r.source ((r.call step).reads.drop r.reads.length)

/-- The resolver that calls leave behind, each made while the source is the one beside it. -/
def afterAmid (r : Resolver) : List (Source × Call) → Resolver
  | [] => r
  | (source, step) :: rest => (({ r with source } : Resolver).call step).afterAmid rest

/-- What a resolver does with its documents in these calls. -/
def history (r : Resolver) : List (Source × Call) → List Action
  | [] => []
  | (source, step) :: rest =>
    ({ r with source } : Resolver).actions step ++
      (({ r with source } : Resolver).call step).history rest

/-! ### One resolution -/

/-- One resolver comes from the other by asking the source for what it needs. -/
def Fetches (r s : Resolver) : Prop :=
  s.source = r.source ∧ ∃ paths, s.reads = r.reads ++ paths ∧
    Keeps r.documents (askAll r.source paths) s.documents

namespace Fetches

variable {r s t : Resolver}

theorem of_eq (hsource : s.source = r.source) (hreads : s.reads = r.reads)
    (hdocuments : s.documents = r.documents) : Fetches r s := by
  refine ⟨hsource, [], by rw [hreads, List.append_nil], ?_⟩
  rw [hdocuments]
  exact .nil r.documents

theorem refl (r : Resolver) : Fetches r r := of_eq rfl rfl rfl

theorem trans (hfirst : Fetches r s) (hnext : Fetches s t) : Fetches r t := by
  obtain ⟨hsource, paths, hreads, hkeeps⟩ := hfirst
  obtain ⟨hsource', more, hreads', hkeeps'⟩ := hnext
  refine ⟨hsource'.trans hsource, paths ++ more, ?_, ?_⟩
  · rw [hreads', hreads, List.append_assoc]
  · rw [askAll, List.map_append]
    exact hkeeps.append (hsource ▸ hkeeps')

/-- Asking for a path that is needed, and keeping the answer. -/
theorem ask {path : Path} (hnormal : path.normalize = path)
    (hunknown : r.documents.lookup path = none) :
    Fetches r { r with
      documents := (Action.asked path (r.source.document? path)).keep r.documents
      reads := r.reads ++ [path] } :=
  ⟨rfl, [path], rfl, .cons ⟨hnormal, hunknown⟩ (.nil _)⟩

theorem keeps (hfetches : Fetches r s) :
    Keeps r.documents (askAll r.source (s.reads.drop r.reads.length)) s.documents ∧
      s.reads = r.reads ++
        (askAll r.source (s.reads.drop r.reads.length)).filterMap Action.asked? := by
  obtain ⟨-, paths, hreads, hkeeps⟩ := hfetches
  rw [filterMap_askAll, hreads, List.drop_left]
  exact ⟨hkeeps, rfl⟩

end Fetches

/-- Computations that only fetch what they need. -/
def fetching : Coupling ResolveM ResolveM where
  Holds x _ := ∀ r answer, x.run.run r = some answer → Fetches r answer.2
  holds_pure value r answer hrun := by
    obtain rfl := Option.some_injective _ hrun
    exact .refl r
  holds_bind := by
    intro α β x y f g hfirst hnext r answer hrun
    obtain ⟨result, t⟩ := answer
    obtain ⟨error, hx, -⟩ | ⟨value, s, hx, hf⟩ := ResolveM.exists_of_run_bind hrun
    · exact hfirst r _ hx
    · exact (hfirst r _ hx).trans (hnext value s _ hf)

/-- It is enough to give the answer from each resolver. -/
theorem fetching_of_run {α : Type} {x : ResolveM α}
    (hrun : ∀ r, ∃ answer, x.run.run r = some answer ∧ Fetches r answer.2) :
    fetching.Holds x x := by
  intro r answer hanswer
  obtain ⟨other, hother, hfetches⟩ := hrun r
  obtain rfl := Option.some_injective _ (hother.symm.trans hanswer)
  exact hfetches

theorem fetching_fail {α : Type} (error : ResolutionError) :
    fetching.Holds (throw error : ResolveM α) (throw error : ResolveM α) :=
  fetching_of_run fun r ↦ ⟨_, rfl, .refl r⟩

theorem fetching_recordMissing (reference : String) (current : Path) :
    fetching.Holds (recordMissing reference current) (recordMissing reference current) :=
  fetching_of_run fun _ ↦ ⟨_, rfl, .of_eq rfl rfl rfl⟩

/-- Loading asks once for a path that is not known, and keeps what it gets. -/
theorem fetching_load {path : Path} (hnormal : path.normalize = path) :
    fetching.Holds (load path) (load path) := by
  refine fetching_of_run fun r ↦ ?_
  rw [load, ResolveM.run_get_bind]
  cases hlookup : r.documents.lookup path with
  | some root => exact ⟨_, rfl, .refl r⟩
  | none =>
    simp only [ResolveM.run_set_bind]
    have hasks := Fetches.ask hnormal hlookup
    cases hread : r.source.document? path with
    | error error =>
      rw [hread] at hasks
      exact ⟨_, rfl, hasks⟩
    | ok found =>
      rw [hread] at hasks
      cases found with
      | none => exact ⟨_, rfl, hasks⟩
      | some root => exact ⟨_, rfl, hasks⟩

theorem fetching_target (reference : Reference) (root : Json) (current : Path) :
    fetching.Holds (target reference root current) (target reference root current) := by
  cases reference with
  | internal pointer => exact fetching.holds_pure _
  | external file pointer =>
    have hnormal := Reference.normalize_locate_file (.external file pointer) current
    exact fetching.holds_bind (fetching_load hnormal) fun found ↦ fetching.holds_pure _

theorem fetching_inside (location : Location) {rest : ResolveM Fragment}
    (hrest : fetching.Holds rest rest) :
    fetching.Holds (inside location rest) (inside location rest) := by
  intro r answer hrun
  by_cases hactive : location ∈ r.active
  · rw [run_inside_of_mem hactive] at hrun
    obtain rfl := Option.some_injective _ hrun
    exact .refl r
  · rw [run_inside hactive] at hrun
    obtain ⟨inner, hinner, rfl⟩ := Option.map_eq_some_iff.mp hrun
    have hentered : Fetches r { r with active := r.active ++ [location] } := .of_eq rfl rfl rfl
    exact (hentered.trans (hrest _ _ hinner)).trans (.of_eq rfl rfl rfl)

theorem fetching_follow {next : Json → Path → Fragment → ResolveM Fragment}
    (hnext : ∀ root current fragment,
      fetching.Holds (next root current fragment) (next root current fragment))
    (root : Json) (current : Path) (text : String) :
    fetching.Holds (follow next root current text) (follow next root current text) := by
  rw [follow]
  cases Reference.parse? text with
  | none => exact fetching_fail _
  | some reference =>
    refine fetching_inside _ (fetching.holds_bind (fetching_target _ _ _) fun place ↦ ?_)
    cases place with
    | none => exact fetching_recordMissing text current
    | some place =>
      obtain ⟨document, path⟩ := place
      cases hlookup : (reference.locate current).pointer.lookup document with
      | none => simpa only [hlookup] using fetching_recordMissing text current
      | some value => simpa only [hlookup] using hnext document path (.ofJson value)

theorem fetching_resolveWithin (depth : Nat) (root : Json) (current : Path)
    (fragment : Fragment) :
    fetching.Holds (resolveWithin depth root current fragment)
      (resolveWithin depth root current fragment) := by
  induction depth generalizing root current fragment with
  | zero =>
    intro r answer hrun
    cases hrun
  | succ depth ih =>
    rw [resolveWithin]
    exact fetching.expand fragment fun text _ ↦ fetching_follow ih root current text

theorem fetches_resolve (r : Resolver) (fragment : Fragment) (root : Json) (current : Path) :
    Fetches r (r.resolve fragment root current).2 :=
  fetching_resolveWithin _ root current fragment r _ (run_resolve r fragment root current)

/-! ### Sequences of calls -/

/-- The actions of a call lead from the documents before it to those after it. -/
theorem keeps_actions (r : Resolver) (step : Call) :
    Keeps r.documents (r.actions step) (r.call step).documents ∧
      (r.call step).reads = r.reads ++ (r.actions step).filterMap Action.asked? := by
  cases step with
  | register path root => exact ⟨.cons trivial (.nil _), (List.append_nil _).symm⟩
  | resolve fragment root current => exact (fetches_resolve r fragment root current).keeps
  | takeMissing => exact (Fetches.of_eq rfl rfl rfl).keeps

/-- The actions of all calls lead from the first documents to the last. -/
theorem keeps_history (r : Resolver) (steps : List (Source × Call)) :
    Keeps r.documents (r.history steps) (r.afterAmid steps).documents ∧
      (r.afterAmid steps).reads = r.reads ++ (r.history steps).filterMap Action.asked? := by
  induction steps generalizing r with
  | nil => exact ⟨.nil _, (List.append_nil _).symm⟩
  | cons head rest ih =>
    obtain ⟨source, step⟩ := head
    obtain ⟨hkeeps, hreads⟩ := keeps_actions { r with source } step
    obtain ⟨hkeepsRest, hreadsRest⟩ := ih (({ r with source } : Resolver).call step)
    rw [history, afterAmid]
    refine ⟨hkeeps.append hkeepsRest, ?_⟩
    rw [hreadsRest, hreads, List.filterMap_append, List.append_assoc]

theorem mem_of_registered_mem_history {r : Resolver} {steps : List (Source × Call)} {path : Path}
    {root : Json} (hmem : .registered path root ∈ r.history steps) :
    ∃ source, (source, .register path root) ∈ steps := by
  induction steps generalizing r with
  | nil => cases hmem
  | cons head rest ih =>
    obtain ⟨source, step⟩ := head
    rw [history, List.mem_append] at hmem
    obtain hmem | hmem := hmem
    · cases step with
      | register other root' =>
        obtain ⟨rfl, rfl⟩ : path = other ∧ root = root' := by simpa [actions] using hmem
        exact ⟨source, List.mem_cons_self⟩
      | resolve fragment root' current =>
        obtain ⟨_, -, hasked⟩ := List.mem_map.mp hmem
        cases hasked
      | takeMissing =>
        obtain ⟨_, -, hasked⟩ := List.mem_map.mp hmem
        cases hasked
    · obtain ⟨source', hmem⟩ := ih hmem
      exact ⟨source', List.mem_cons_of_mem _ hmem⟩

theorem afterAmid_append (r : Resolver) (steps more : List (Source × Call)) :
    r.afterAmid (steps ++ more) = (r.afterAmid steps).afterAmid more := by
  induction steps generalizing r with
  | nil => rfl
  | cons head rest ih => exact ih _

/-- A registration holds until the next one of its normal path. -/
theorem document?_afterAmid_register (r : Resolver) (path : Path) (root : Json)
    {later : List (Source × Call)}
    (hlater : ∀ other ∈ later, ∀ path' root', other.2 = .register path' root' →
      path'.normalize ≠ path.normalize) :
    ((r.register path root).afterAmid later).document? path.normalize = .ok (some root) := by
  have hknown : (r.register path root).documents.lookup path.normalize = some root := by
    rw [register, lookup_putDocument, if_pos rfl]
  obtain ⟨hkeeps, -⟩ := keeps_history (r.register path root) later
  have hlast := hkeeps.lookup_of_known hknown fun other root' hmem ↦ by
    obtain ⟨source, hcall⟩ := mem_of_registered_mem_history hmem
    exact hlater _ hcall other root' rfl
  rw [document?, hlast]

/-- Each document is fetched once. In any calls of a resolver, whether they fail or not, the source
is asked for normal paths only, and for none that is known from the start or was registered or read
before. The documents known in the end are the last ones supplied for their paths, so the source's
having none for a path leaves nothing behind, and a registration holds until the next one of its
normal path. -/
theorem fetched_once (r : Resolver) (steps : List (Source × Call)) :
    (r.afterAmid steps).reads = r.reads ++ (r.history steps).filterMap Action.asked? ∧
      (∀ before path answer later, r.history steps = before ++ .asked path answer :: later →
        path.normalize = path ∧ r.documents.lookup path = none ∧
          ∀ action ∈ before, action.supplied? path = none) ∧
      (∀ path, (r.afterAmid steps).documents.lookup path =
        ((r.history steps).reverse.findSome? (Action.supplied? path)).or
          (r.documents.lookup path)) ∧
      ∀ before source path root later, steps = before ++ (source, .register path root) :: later →
        (∀ other ∈ later, ∀ path' root', other.2 = .register path' root' →
          path'.normalize ≠ path.normalize) →
        (r.afterAmid steps).document? path.normalize = .ok (some root) := by
  obtain ⟨hkeeps, hreads⟩ := keeps_history r steps
  refine ⟨hreads, ?_, hkeeps.lookup, ?_⟩
  · intro before path answer later hhistory
    rw [hhistory] at hkeeps
    obtain ⟨middle, hbefore, hrest⟩ := hkeeps.exists_of_append
    obtain ⟨⟩ | ⟨⟨hnormal, hunknown⟩, -⟩ := hrest
    rw [hbefore.lookup, Option.or_eq_none_iff, List.findSome?_eq_none_iff] at hunknown
    exact ⟨hnormal, hunknown.2, fun action hmem ↦ hunknown.1 action (List.mem_reverse.mpr hmem)⟩
  · rintro before source path root later rfl hlater
    rw [afterAmid_append, afterAmid]
    exact document?_afterAmid_register _ path root hlater

/-- A document that the source lacks, is given under another spelling of its path, and is then used
while the source holds something else there. -/
def lateSteps : List (Source × Call) :=
  [({}, .resolve (.reference "./a.json") (.object []) ⟨"b.json"⟩),
    ({}, .register ⟨"d/../a.json"⟩ EventSet.loginRoot),
    ({ files := [(⟨"a.json"⟩, "[]")] },
      .resolve (.reference "./a.json#/events") (.object []) ⟨"b.json"⟩)]

theorem fetched_once_late :
    (({ source := {} } : Resolver).afterAmid lateSteps).reads = [⟨"a.json"⟩] ∧
      (⟨"a.json"⟩ : Path).normalize = ⟨"a.json"⟩ ∧
      (({ source := {} } : Resolver).afterAmid lateSteps).document? ⟨"a.json"⟩ =
        .ok (some EventSet.loginRoot) := by
  obtain ⟨hreads, hasked, -, hregistered⟩ := fetched_once { source := {} } lateSteps
  have hhistory : ({ source := {} } : Resolver).history lateSteps =
      [.asked ⟨"a.json"⟩ (.ok none), .registered ⟨"d/../a.json"⟩ EventSet.loginRoot] := by
    decide +kernel
  have hnormal : (⟨"d/../a.json"⟩ : Path).normalize = ⟨"a.json"⟩ := by decide +kernel
  refine ⟨by rw [hreads, hhistory]; rfl, (hasked [] _ _ _ hhistory).1, ?_⟩
  rw [← hnormal]
  refine hregistered [lateSteps[0]] _ _ _ [lateSteps[2]] rfl fun other hother path' root' hcall ↦ ?_
  obtain rfl := List.mem_singleton.mp hother
  cases hcall

end EventSchema.Resolver
