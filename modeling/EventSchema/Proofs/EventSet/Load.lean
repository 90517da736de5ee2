import EventSchema.Proofs.Document
import EventSchema.Proofs.EventSet.Paths
import EventSchema.Proofs.Resolver.Agreement
import Mathlib.Data.List.Induction
import Mathlib.Data.List.Permutation

/-!
# The events of a load

A load registers the documents that it read and then resolves every declaration, each with the
resolver that the ones before it left behind, which stays alike to the one that has just the
registrations. What one declaration adds (`Progress.add_eq_ok_iff`) and keeps, a run of them keeps
(`foldlM_add`): there is an event for every declared name, which the last declaration of the name
gives, in the document that is the source of the event (`Progress.Sound`,
`exists_declaration_of_mem_load`).
-/

set_option autoImplicit false

namespace EventSchema

namespace EventSet

/-! ### The documents of a load -/

/-- A document that was read is the text that the source holds, and keeps the path as spelled. -/
theorem document?_of_readDocument {source : Source} {path : Path} {document : Document}
    (hread : readDocument source path = .ok document) :
    document.path = path ∧ source.document? path = .ok (some document.root) := by
  rw [readDocument] at hread
  obtain ⟨content?, hcontent, hread⟩ := bind_eq_ok.mp hread
  cases content? with
  | none => cases hread
  | some content =>
    obtain ⟨hroot, -, hpath⟩ := Document.read_eq_ok_iff.mp (mapError_eq_ok.mp hread)
    refine ⟨hpath, ?_⟩
    rw [Source.document?, hcontent]
    exact mapError_eq_ok.mpr (map_eq_ok.mpr ⟨document.root, hroot, rfl⟩)

theorem distinct_of_readDocument {source : Source} {path : Path} {document : Document}
    (hread : readDocument source path = .ok document) : document.root.Distinct :=
  Source.distinct_of_document? (document?_of_readDocument hread).2

theorem distinct_of_mapM {source : Source} {paths : List Path} {documents : List Document}
    (hread : paths.mapM (readDocument source) = .ok documents) :
    ∀ document ∈ documents, document.root.Distinct := by
  intro document hdocument
  obtain ⟨path, -, hpath⟩ := exists_of_mem_mapM hread hdocument
  exact distinct_of_readDocument hpath

theorem map_path_of_mapM {source : Source} {paths : List Path} {documents : List Document}
    (hread : paths.mapM (readDocument source) = .ok documents) :
    documents.map Document.path = paths := by
  induction paths generalizing documents with
  | nil =>
    obtain rfl : [] = documents := by simpa [pure, Except.pure] using hread
    rfl
  | cons path rest ih =>
    rw [List.mapM_cons] at hread
    obtain ⟨document, hdocument, hread⟩ := bind_eq_ok.mp hread
    obtain ⟨more, hmore, hdocuments⟩ := bind_eq_ok.mp hread
    obtain rfl : document :: more = documents := Except.ok.inj hdocuments
    rw [List.map_cons, (document?_of_readDocument hdocument).1, ih hmore]

/-- The documents at the given paths, in path order, one at each place: the one that is read where
the first spelling of the place leads. -/
structure Reads (paths : List Path) (source : Source) (documents : List Document) : Prop where
  ordered : documents.Pairwise fun a b ↦ a.path.lt b.path = true
  listed {path : Path} (hpath : path ∈ paths) :
    ∃ document ∈ documents, path.same document.path = true
  first {document : Document} (hdocument : document ∈ documents) :
    paths.find? document.path.same = some document.path
  read {document : Document} (hdocument : document ∈ documents) :
    readDocument source document.path = .ok document

theorem reads_of_mapM {paths : List Path} {source : Source} {documents : List Document}
    (hread : (distinctPaths paths).mapM (readDocument source) = .ok documents) :
    Reads paths source documents := by
  have hpaths := map_path_of_mapM hread
  have hsorted := pairwise_distinctPaths paths
  rw [← hpaths, List.pairwise_map] at hsorted
  refine ⟨hsorted.imp Path.lt_iff.mpr, ?_, ?_, ?_⟩
  · intro path hpath
    obtain ⟨kept, hkept, hsame⟩ := exists_same_of_mem hpath
    rw [← hpaths] at hkept
    obtain ⟨document, hdocument, rfl⟩ := List.mem_map.mp hkept
    exact ⟨document, hdocument, hsame⟩
  · intro document hdocument
    rw [← mem_distinctPaths_iff, ← hpaths]
    exact List.mem_map_of_mem hdocument
  · intro document hdocument
    obtain ⟨path, -, hpath⟩ := exists_of_mem_mapM hread hdocument
    rwa [(document?_of_readDocument hpath).1]

/-- At a single path there is a single document. -/
theorem Reads.eq_singleton {path : Path} {source : Source} {documents : List Document}
    {document : Document} (hreads : Reads [path] source documents)
    (hread : readDocument source path = .ok document) : documents = [document] := by
  have hall : ∀ other ∈ documents, other = document := by
    intro other hother
    have hpath : path = other.path := List.mem_singleton.mp
      (List.mem_of_find?_eq_some (hreads.first hother)) |>.symm
    have hsame := hreads.read hother
    rw [← hpath, hread] at hsame
    exact (Except.ok.inj hsame).symm
  cases documents with
  | nil =>
    obtain ⟨other, hother, -⟩ := hreads.listed List.mem_cons_self
    cases hother
  | cons first rest =>
    obtain rfl := hall first List.mem_cons_self
    cases rest with
    | nil => rfl
    | cons second rest =>
      obtain rfl := hall second (List.mem_cons_of_mem _ List.mem_cons_self)
      have hlt := (List.pairwise_cons.mp hreads.ordered).1 _ List.mem_cons_self
      exact absurd (Path.lt_iff.mp hlt) (lt_irrefl _)

/-- The resolver of a load before it resolves the first event. -/
def registered (source : Source) (documents : List Document) : Resolver :=
  documents.foldl (fun r document ↦ r.register document.path document.root) { source }

/-- What a path leads to before the first event: a document that was read at a spelling of it, or
what the source holds. -/
theorem exists_of_registered {source : Source} {documents : List Document} {path : Path}
    {root : Json} (hroot : (registered source documents).document? path = .ok (some root)) :
    (∃ document ∈ documents, document.path.normalize = path ∧ document.root = root) ∨
      source.document? path = .ok (some root) := by
  induction documents using List.reverseRecOn with
  | nil => exact .inr hroot
  | append_singleton documents document ih =>
    rw [registered, List.foldl_append] at hroot
    change ((registered source documents).register document.path document.root).document? path =
      .ok (some root) at hroot
    rw [Resolver.document?_register] at hroot
    split_ifs at hroot with hpath
    · refine .inl ⟨document, List.mem_append_right _ List.mem_cons_self, hpath.symm, ?_⟩
      exact Option.some_injective _ (Except.ok.inj hroot)
    · refine (ih hroot).imp_left ?_
      rintro ⟨other, hother, hsame⟩
      exact ⟨other, List.mem_append_left _ hother, hsame⟩

theorem distinct_of_registered {source : Source} {documents : List Document}
    (hdocuments : ∀ document ∈ documents, document.root.Distinct) {path : Path} {root : Json}
    (hroot : (registered source documents).document? path = .ok (some root)) : root.Distinct := by
  rcases exists_of_registered hroot with ⟨document, hdocument, -, rfl⟩ | hheld
  · exact hdocuments document hdocument
  · exact Source.distinct_of_document? hheld

theorem missing_registered (source : Source) (documents : List Document) :
    (registered source documents).missing = [] := by
  rw [registered]
  induction documents using List.reverseRecOn with
  | nil => rfl
  | append_singleton documents document ih =>
    rw [List.foldl_concat]
    exact ih

theorem load_eq_ok_iff {paths : List Path} {source : Source} {set : EventSet} :
    load paths source = .ok set ↔
      ∃ documents progress, (distinctPaths paths).mapM (readDocument source) = .ok documents ∧
        (declarations documents).foldlM Progress.add { resolver := registered source documents } =
          .ok progress ∧ progress.toEventSet = set := by
  rw [load, map_eq_ok]
  constructor
  · rintro ⟨progress, hprogress, hset⟩
    obtain ⟨documents, hread, hadd⟩ := bind_eq_ok.mp hprogress
    exact ⟨documents, progress, mapError_eq_ok.mp hread, mapError_eq_ok.mp hadd, hset⟩
  · rintro ⟨documents, progress, hread, hadd, hset⟩
    refine ⟨progress, bind_eq_ok.mpr ⟨documents, ?_, ?_⟩, hset⟩
    · exact mapError_eq_ok.mpr hread
    · exact mapError_eq_ok.mpr hadd

/-! ### Resolving the declarations -/

/-- All that a declaration adds. -/
theorem Progress.add_eq (progress : Progress) (declaration : Declaration) :
    progress.add declaration =
      (progress.resolver.resolve (.ofJson declaration.schema) declaration.document.root
        declaration.document.path).1.map fun schema ↦
      { resolver := (progress.resolver.resolve (.ofJson declaration.schema)
          declaration.document.root declaration.document.path).2
        events := progress.events.insert declaration.name
          (Event.ofSchema declaration.name schema declaration.document.path)
        overwritten := progress.overwritten ++
          ((progress.events.get? declaration.name).map fun previous ↦
            ⟨declaration.name, previous.source, declaration.document.path⟩).toList } := by
  rw [Progress.add]
  cases progress.events.get? declaration.name <;> rfl

theorem Progress.add_eq_ok_iff {progress next : Progress} {declaration : Declaration} :
    progress.add declaration = .ok next ↔ ∃ schema,
      (progress.resolver.resolve (.ofJson declaration.schema) declaration.document.root
        declaration.document.path).1 = .ok schema ∧
      next =
        { resolver := (progress.resolver.resolve (.ofJson declaration.schema)
            declaration.document.root declaration.document.path).2
          events := progress.events.insert declaration.name
            (Event.ofSchema declaration.name schema declaration.document.path)
          overwritten := progress.overwritten ++
            ((progress.events.get? declaration.name).map fun previous ↦
              ⟨declaration.name, previous.source, declaration.document.path⟩).toList } := by
  rw [Progress.add_eq, map_eq_ok]
  simp only [eq_comm]

/-- What every declaration keeps, all of them keep. -/
theorem foldlM_add {invariant : List Declaration → Progress → Prop}
    (hadd : ∀ {done progress declaration next}, invariant done progress →
      progress.add declaration = .ok next → invariant (done ++ [declaration]) next)
    {done declarations : List Declaration} {progress last : Progress}
    (hstart : invariant done progress)
    (hfold : declarations.foldlM Progress.add progress = .ok last) :
    invariant (done ++ declarations) last := by
  induction declarations generalizing done progress with
  | nil =>
    obtain rfl : progress = last := by simpa [pure, Except.pure] using hfold
    rwa [List.append_nil]
  | cons declaration rest ih =>
    rw [List.foldlM_cons] at hfold
    obtain ⟨next, hnext, hrest⟩ := bind_eq_ok.mp hfold
    rw [← List.singleton_append, ← List.append_assoc]
    exact ih (hadd hstart hnext) hrest

/-- The last declaration of an event. -/
def lastDeclaration? (done : List Declaration) (name : String) : Option Declaration :=
  done.reverse.find? fun declaration ↦ declaration.name = name

theorem lastDeclaration?_concat (done : List Declaration) (declaration : Declaration)
    (name : String) : lastDeclaration? (done ++ [declaration]) name =
      if declaration.name = name then some declaration else lastDeclaration? done name := by
  rw [lastDeclaration?, List.reverse_append, List.reverse_singleton, List.singleton_append,
    List.find?_cons]
  by_cases hname : declaration.name = name <;> simp [hname, lastDeclaration?]

theorem name_of_lastDeclaration? {done : List Declaration} {name : String}
    {declaration : Declaration} (hlast : lastDeclaration? done name = some declaration) :
    declaration.name = name := by
  simpa using List.find?_some hlast

/-- The event is what a run that starts with the resolver makes of the declaration. -/
structure Declaration.Gives (start : Resolver) (declaration : Declaration) (event : Event) :
    Prop where
  resolve : (start.resolve (.ofJson declaration.schema) declaration.document.root
    declaration.document.path).1 = .ok event.schema
  event : event = Event.ofSchema declaration.name event.schema declaration.document.path

/-- What holds after some declarations were resolved: the resolver is alike to the first one, and
there is an event for every name that is declared, which the last declaration of it gives. -/
structure Progress.Sound (start : Resolver) (done : List Declaration) (progress : Progress) :
    Prop where
  alike : start.Alike progress.resolver
  unique : progress.events.Unique
  events (name : String) : Option.Rel (Declaration.Gives start) (lastDeclaration? done name)
    (progress.events.get? name)

theorem Progress.Sound.start (r : Resolver) : Progress.Sound r [] { resolver := r } :=
  ⟨.refl r, List.nodup_nil, fun _ ↦ .none⟩

theorem Progress.Sound.add {start : Resolver} {done : List Declaration} {progress next : Progress}
    {declaration : Declaration} (hsound : progress.Sound start done)
    (hadd : progress.add declaration = .ok next) : next.Sound start (done ++ [declaration]) := by
  obtain ⟨schema, hschema, rfl⟩ := Progress.add_eq_ok_iff.mp hadd
  refine ⟨hsound.alike.trans (Resolver.alike_resolve _ _ _ _), hsound.unique.insert _ _, ?_⟩
  intro name
  rw [Entries.get?_insert, lastDeclaration?_concat]
  by_cases hname : declaration.name = name
  · rw [if_pos hname, if_pos hname]
    exact .some ⟨(Resolver.resolve_of_alike hsound.alike _ _ _).1.trans hschema, rfl⟩
  · rw [if_neg hname, if_neg hname]
    exact hsound.events name

/-- A load resolves all declarations, and nothing else. -/
theorem exists_sound_of_load {paths : List Path} {source : Source} {set : EventSet}
    (hload : load paths source = .ok set) :
    ∃ (documents : List Document) (progress : Progress),
      (distinctPaths paths).mapM (readDocument source) = .ok documents ∧
      progress.Sound (registered source documents) (declarations documents) ∧
      progress.toEventSet = set := by
  obtain ⟨documents, progress, hread, hprogress, hset⟩ := load_eq_ok_iff.mp hload
  exact ⟨documents, progress, hread,
    foldlM_add Progress.Sound.add (Progress.Sound.start _) hprogress, hset⟩

/-- The last declaration of an event is the last one in its document. -/
theorem exists_of_lastDeclaration? {documents : List Document} {name : String}
    {declaration : Declaration}
    (hlast : lastDeclaration? (declarations documents) name = some declaration) :
    declaration.document ∈ documents ∧
      declaration.document.events.reverse.find? (fun entry ↦ entry.1 = name) =
        some (name, declaration.schema) := by
  rw [lastDeclaration?, declarations, List.reverse_flatMap, List.find?_flatMap] at hlast
  obtain ⟨document, hdocument, hfind⟩ := List.exists_of_findSome?_eq_some hlast
  rw [Function.comp_apply, ← List.map_reverse, List.find?_map] at hfind
  obtain ⟨⟨key, schema⟩, hentry, rfl⟩ := Option.map_eq_some_iff.mp hfind
  obtain rfl : key = name := by simpa using List.find?_some hentry
  exact ⟨List.mem_reverse.mp hdocument, hentry⟩

theorem Progress.Sound.exists_of_mem {start : Resolver} {done : List Declaration}
    {progress : Progress} (hsound : progress.Sound start done) {name : String} {event : Event}
    (hentry : (name, event) ∈ progress.events) :
    ∃ declaration, lastDeclaration? done name = some declaration ∧
      declaration.Gives start event ∧ event.name = name := by
  have hgives := hsound.events name
  rw [hsound.unique.get?_of_mem hentry] at hgives
  generalize hlast : lastDeclaration? done name = last at hgives
  cases hgives with
  | @some declaration _ hgives =>
    refine ⟨declaration, rfl, hgives, ?_⟩
    rw [hgives.event]
    exact name_of_lastDeclaration? hlast

theorem Progress.Sound.exists_of_mem_toEventSet {start : Resolver} {done : List Declaration}
    {progress : Progress} (hsound : progress.Sound start done) {event : Event}
    (hevent : event ∈ progress.toEventSet.events) :
    ∃ declaration, lastDeclaration? done event.name = some declaration ∧
      declaration.Gives start event := by
  obtain ⟨⟨name, _⟩, hentry, rfl⟩ := List.mem_map.mp (List.mem_mergeSort.mp hevent)
  obtain ⟨declaration, hlast, hgives, rfl⟩ := hsound.exists_of_mem hentry
  exact ⟨declaration, hlast, hgives⟩

theorem typeName_of_load {paths : List Path} {source : Source} {set : EventSet}
    (hload : load paths source = .ok set) :
    ∀ event ∈ set.events, event.typeName = TypeName.ofEvent event.name := by
  intro event hevent
  obtain ⟨documents, progress, -, hsound, rfl⟩ := exists_sound_of_load hload
  obtain ⟨declaration, -, hgives⟩ := hsound.exists_of_mem_toEventSet hevent
  rw [hgives.event]
  rfl

/-- The schema of an event is what some resolver that is alike to the one with just the
registrations gave for the last declaration of the event in its source. -/
theorem exists_declaration_of_mem_load {paths : List Path} {source : Source} {set : EventSet}
    (hload : load paths source = .ok set) {event : Event} (hevent : event ∈ set.events) :
    ∃ documents document schema r,
      (distinctPaths paths).mapM (readDocument source) = .ok documents ∧ document ∈ documents ∧
      event.source = document.path ∧
      document.events.reverse.find? (fun entry ↦ entry.1 = event.name) =
        some (event.name, schema) ∧
      (registered source documents).Alike r ∧
      (r.resolve (.ofJson schema) document.root document.path).1 = .ok event.schema := by
  obtain ⟨documents, progress, hread, hsound, rfl⟩ := exists_sound_of_load hload
  obtain ⟨declaration, hlast, hgives⟩ := hsound.exists_of_mem_toEventSet hevent
  obtain ⟨hdocument, hfind⟩ := exists_of_lastDeclaration? hlast
  exact ⟨documents, declaration.document, declaration.schema, registered source documents, hread,
    hdocument, congrArg Event.source hgives.event, hfind, .refl _, hgives.resolve⟩

/-! ### A load of one event -/

theorem mapM_readDocument {paths : List Path} {source : Source} {documents : List Document}
    (hsorted : paths.Pairwise fun a b ↦ a.rank < b.rank)
    (hread : List.Forall₂ (fun path document ↦ readDocument source path = .ok document) paths
      documents) :
    (distinctPaths paths).mapM (readDocument source) = .ok documents := by
  rw [distinctPaths_eq_self hsorted]
  clear hsorted
  induction hread with
  | nil => rfl
  | cons hfirst _ ih =>
    rw [List.mapM_cons, hfirst, ih]
    rfl

theorem load_eq_of_declarations {paths : List Path} {source : Source} {documents : List Document}
    {declaration : Declaration} {schema : Fragment} {r : Resolver}
    (hread : (distinctPaths paths).mapM (readDocument source) = .ok documents)
    (hdeclarations : declarations documents = [declaration])
    (hresolve : (registered source documents).resolve (.ofJson declaration.schema)
      declaration.document.root declaration.document.path = (.ok schema, r)) :
    load paths source = .ok
      { events := [Event.ofSchema declaration.name schema declaration.document.path]
        missing := r.missing } := by
  have hfold : (declarations documents).foldlM Progress.add
      { resolver := registered source documents } = .ok ⟨r, [(declaration.name,
        Event.ofSchema declaration.name schema declaration.document.path)], []⟩ := by
    rw [hdeclarations, List.foldlM_cons, Progress.add_eq_ok_iff.mpr ⟨schema, ?_, rfl⟩]
    · rw [hresolve]
      rfl
    · rw [hresolve]
  refine load_eq_ok_iff.mpr ⟨documents, _, hread, hfold, ?_⟩
  rw [Progress.toEventSet, Entries.values, List.map_singleton, List.mergeSort_singleton]

theorem readDocument_of_json {source : Source} {path : Path} {content : String} {root : Json}
    (hread : source.read path = .ok (some content)) (hjson : path.isYaml = false)
    (hparse : Json.parse content = .ok root) (hcheck : Document.checkRoot root = .ok ()) :
    readDocument source path = .ok ⟨path, root⟩ := by
  simp [readDocument, hread, Document.read, readContent, hjson, hparse, hcheck, bind, Except.bind,
    Except.mapError, pure, Except.pure]

theorem resolve_empty (r : Resolver) (root : Json) (current : Path) :
    r.resolve (.ofJson (.object [])) root current = (.ok (.any (.object [])), r) := by
  have hempty : Fragment.ofJson (.object []) = .any (.object []) := by cbv
  have hrun : (Resolver.resolveWithin 1 root current (.any (.object []))).run.run r =
      some (.ok (.any (.object [])), r) := by
    rw [Resolver.resolveWithin, Fragment.expand, Json.expand, dif_neg (by decide),
      Json.expandMembers]
    rfl
  rw [hempty]
  exact (Resolver.run_eq_resolve r _ root current hrun).symm

def loginRoot : Json := .object [("events", .object [("login", .object [])])]

/-- Two documents, of which the first declares an event. -/
def loginSource : Source where
  files := [(⟨"a.json"⟩, "\x7b\"events\":\x7b\"login\":\x7b\x7d\x7d\x7d"), (⟨"b.json"⟩, "\x7b\x7d")]

def loginEvent : Event := Event.ofSchema "login" (.any (.object [])) ⟨"a.json"⟩

theorem readDocument_login :
    readDocument loginSource ⟨"a.json"⟩ = .ok ⟨⟨"a.json"⟩, loginRoot⟩ := by
  have hparse : Json.parse "\x7b\"events\":\x7b\"login\":\x7b\x7d\x7d\x7d" = .ok loginRoot := by cbv
  exact readDocument_of_json rfl (by decide) hparse rfl

theorem readDocument_blank :
    readDocument loginSource ⟨"b.json"⟩ = .ok ⟨⟨"b.json"⟩, .object []⟩ := by
  have hparse : Json.parse "\x7b\x7d" = .ok (.object []) := by cbv
  exact readDocument_of_json rfl (by decide) hparse rfl

theorem mapM_readDocument_login :
    (distinctPaths [⟨"a.json"⟩]).mapM (readDocument loginSource) =
      .ok [⟨⟨"a.json"⟩, loginRoot⟩] :=
  mapM_readDocument (List.pairwise_singleton _ _) (.cons readDocument_login .nil)

theorem load_login : load [⟨"a.json"⟩] loginSource = .ok { events := [loginEvent] } :=
  load_eq_of_declarations mapM_readDocument_login rfl (resolve_empty _ _ _)

theorem load_login_blank :
    load [⟨"a.json"⟩, ⟨"b.json"⟩] loginSource = .ok { events := [loginEvent] } := by
  have horder : Path.rank ⟨"a.json"⟩ < Path.rank ⟨"b.json"⟩ := Path.lt_iff.mp (by decide +kernel)
  exact load_eq_of_declarations (mapM_readDocument (List.pairwise_pair.mpr horder)
    (.cons readDocument_login (.cons readDocument_blank .nil))) rfl (resolve_empty _ _ _)

end EventSet

end EventSchema
