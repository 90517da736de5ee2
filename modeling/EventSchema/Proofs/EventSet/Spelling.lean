import EventSchema.Proofs.EventSet.Load
import EventSchema.Proofs.Resolver.Dangling
import Mathlib.Data.List.Forall2

/-!
# The order and the spelling of the paths of a load

A load does not depend on the order in which paths are given, or on how often, but for one thing:
of the spellings of a place it takes the one that was given first, and names the document by it in
what it reports. Lists that give every place the same spelling first lead to the same
(`load_congr`), and lists of the same places to the same but for spelling, if the spellings agree on
which documents are YAML (`matched_load`).
-/

set_option autoImplicit false

namespace EventSchema

/-! ### Plain spelling -/

namespace Path

variable {path other : Path}

/-- The place in the spelling that has neither repeated nor trailing slashes, nor idle dots. -/
def plain (path : Path) : Path := ofComponents path.components

def plainText (text : String) : String := (plain ⟨text⟩).text

theorem components_plain (path : Path) : path.plain.components = path.components :=
  components_ofComponents (isSpelled_components path)

theorem same_iff_components : path.same other = true ↔ path.components = other.components :=
  beq_iff_eq

/-- Two places are plainly spelled alike only if they are the same. -/
theorem plain_eq_plain_iff : path.plain = other.plain ↔ path.same other = true := by
  rw [same_iff_components]
  constructor
  · intro h
    rw [← components_plain path, h, components_plain]
  · intro h
    rw [plain, h, plain]

theorem seenAlike_of_same (hsame : path.same other = true) : path.SeenAlike plainText other := by
  have hcomponents := same_iff_components.mp hsame
  refine ⟨fun reference ↦ ?_, congrArg text (plain_eq_plain_iff.mpr hsame)⟩
  cases reference <;> simp only [Reference.locate, normalize, directory, parent?, hcomponents]

theorem SeenAlike.normalize {spell : String → String} (hseen : path.SeenAlike spell other) :
    other.normalize = path.normalize :=
  congrArg Location.file (hseen.locate (.internal ⟨[]⟩))

end Path

/-! ### Respelling what a load gives -/

section Respelling

variable (spell : String → String)

def Path.respell (path : Path) : Path := ⟨spell path.text⟩

def Event.respell (event : Event) : Event := { event with source := event.source.respell spell }

def Overwritten.respell (record : Overwritten) : Overwritten :=
  { record with
    previous := record.previous.respell spell
    replacement := record.replacement.respell spell }

def EventSet.respell (set : EventSet) : EventSet where
  events := set.events.map (·.respell spell)
  missing := set.missing.map (·.respell spell)
  overwritten := set.overwritten.map (·.respell spell)

def CompileError.respell : CompileError → CompileError
  | .load error => .load (error.respell spell)
  | .resolution error => .resolution (error.respell spell)
  | error => error

end Respelling

namespace EventSet

variable {spell : String → String}

/-- Paths of one place that are spelled alike, and on which it does not depend whether the document
is YAML. -/
structure Respelled (spell : String → String) (path other : Path) : Prop where
  seen : path.SeenAlike spell other
  isYaml : path.isYaml = other.isYaml

/-- Documents that differ in the spelling of their paths. -/
structure SameDocument (spell : String → String) (document other : Document) : Prop where
  seen : document.path.SeenAlike spell other.path
  root : other.root = document.root

theorem SameDocument.respell_path {document other : Document}
    (hsame : SameDocument spell document other) :
    document.path.respell spell = other.path.respell spell := congrArg Path.mk hsame.seen.text

structure SameDeclaration (spell : String → String) (declaration other : Declaration) : Prop where
  document : SameDocument spell declaration.document other.document
  name : other.name = declaration.name
  schema : other.schema = declaration.schema

/-! ### Reading -/

theorem matched_read {path other : Path} (hpaths : Respelled spell path other) (source : Source) :
    Matched (fun error error' ↦ error.respell spell = error'.respell spell) Eq (source.read path)
      (source.read other) := by
  rw [Source.read, Source.read, hpaths.seen.normalize]
  cases source.failures.lookup path.normalize with
  | none => exact .ok rfl
  | some reason => exact .error (congrArg (LoadError.unreadable · reason) hpaths.seen.text)

theorem matched_documentRead {path other : Path} (hpaths : Respelled spell path other)
    (content : String) :
    Matched Eq (SameDocument spell) (Document.read path content) (Document.read other content) := by
  have hcontent : readContent other content = readContent path content := by
    rw [readContent, readContent, hpaths.isYaml]
  rw [Document.read, Document.read, hcontent]
  refine (Matched.refl _).bind ?_
  rintro root _ rfl
  exact (Matched.refl _).bind fun _ ↦ .ok ⟨hpaths.seen, rfl⟩

theorem matched_readDocument {path other : Path} (hpaths : Respelled spell path other)
    (source : Source) :
    Matched (fun error error' ↦ error.respell spell = error'.respell spell) (SameDocument spell)
      (readDocument source path) (readDocument source other) := by
  rw [readDocument, readDocument]
  refine (matched_read hpaths source).bind ?_
  rintro content _ rfl
  cases content with
  | none => exact .error (congrArg (LoadError.unreadable · "file not found") hpaths.seen.text)
  | some content =>
    refine (matched_documentRead hpaths content).mapError ?_
    rintro error _ rfl
    exact congrArg (LoadError.content · error) hpaths.seen.text

theorem registered_congr {documents others : List Document}
    (hdocuments : List.Forall₂ (SameDocument spell) documents others) (source : Source) :
    registered source others = registered source documents := by
  rw [registered, registered]
  generalize ({ source } : Resolver) = start
  induction hdocuments generalizing start with
  | nil => rfl
  | @cons document other rest more hfirst _ ih =>
    rw [List.foldl_cons, List.foldl_cons, ih, Resolver.register, Resolver.register,
      hfirst.seen.normalize, hfirst.root]

theorem forall₂_declarations {documents others : List Document}
    (hdocuments : List.Forall₂ (SameDocument spell) documents others) :
    List.Forall₂ (SameDeclaration spell) (declarations documents) (declarations others) := by
  refine List.rel_flatMap hdocuments fun document other hsame ↦ ?_
  have hevents : other.events = document.events := by
    rw [Document.events, Document.events, hsame.root]
  rw [hevents, List.forall₂_map_left_iff, List.forall₂_map_right_iff, List.forall₂_same]
  exact fun _ _ ↦ ⟨hsame, rfl, rfl⟩

/-! ### Resolving -/

/-- What holds of two loads that resolved the same declarations. -/
structure Progress.Same (spell : String → String) (progress other : Progress) : Prop where
  alike : progress.resolver.Alike other.resolver
  missing : progress.resolver.missing.map (·.respell spell) =
    other.resolver.missing.map (·.respell spell)
  events : progress.events.mapValues (·.respell spell) = other.events.mapValues (·.respell spell)
  overwritten : progress.overwritten.map (·.respell spell) =
    other.overwritten.map (·.respell spell)

theorem Progress.Same.start (spell : String → String) (r : Resolver) :
    Progress.Same spell { resolver := r } { resolver := r } := ⟨.refl r, rfl, rfl, rfl⟩

theorem Progress.Same.get? {progress other : Progress} (hsame : progress.Same spell other)
    (name : String) : (progress.events.get? name).map (·.respell spell) =
      (other.events.get? name).map (·.respell spell) := by
  rw [← Entries.get?_mapValues, hsame.events, Entries.get?_mapValues]

/-- The record of an event that gives way, respelled, is that of the event respelled. -/
theorem respell_record (name : String) (path : Path) (previous : Option Event) :
    (previous.map fun previous ↦
      (⟨name, previous.source, path⟩ : Overwritten)).toList.map (·.respell spell) =
    ((previous.map (·.respell spell)).map fun previous ↦
      ⟨name, previous.source, path.respell spell⟩).toList := by
  cases previous <;> rfl

/-- Two loads that resolve the same declaration both fail on it, or both go on. -/
theorem Progress.Same.add {progress other : Progress} {declaration declaration' : Declaration}
    (hsame : progress.Same spell other)
    (hdeclaration : SameDeclaration spell declaration declaration') :
    Matched (fun error error' ↦ error.respell spell = error'.respell spell)
      (Progress.Same spell) (progress.add declaration) (other.add declaration') := by
  have hpath := hdeclaration.document.respell_path
  have hleft := Resolver.alike_resolve progress.resolver (.ofJson declaration.schema)
    declaration.document.root declaration.document.path
  have hright := Resolver.alike_resolve other.resolver (.ofJson declaration.schema)
    declaration.document.root declaration'.document.path
  obtain ⟨hresult, noted, noted', hnoted, hmissing, hmissing'⟩ :=
    Resolver.resolve_of_seenAlike hsame.alike (.ofJson declaration.schema)
      declaration.document.root hdeclaration.document.seen
  rw [Progress.add_eq, Progress.add_eq, hdeclaration.name, hdeclaration.schema,
    hdeclaration.document.root]
  generalize progress.resolver.resolve (.ofJson declaration.schema) declaration.document.root
    declaration.document.path = answer at hleft hresult hmissing
  generalize other.resolver.resolve (.ofJson declaration.schema) declaration.document.root
    declaration'.document.path = answer' at hright hresult hmissing'
  refine hresult.map ?_
  rintro schema _ rfl
  refine ⟨(hleft.symm.trans hsame.alike).trans hright, ?_, ?_, ?_⟩
  · simp only [hmissing, hmissing', List.map_append, hsame.missing, hnoted]
  · rw [Entries.mapValues_insert, Entries.mapValues_insert, hsame.events]
    exact congrArg (fun path ↦ Entries.insert _ _ (Event.ofSchema _ schema path)) hpath
  · rw [List.map_append, List.map_append, hsame.overwritten, respell_record, respell_record,
      hsame.get?, hpath]

/-- Where the same declarations are resolved the same is kept and noted. -/
theorem Progress.Same.respell_toEventSet {progress other : Progress}
    (hsame : progress.Same spell other) :
    progress.toEventSet.respell spell = other.toEventSet.respell spell := by
  have hsorted (progress : Progress) : progress.toEventSet.events.map (·.respell spell) =
      (progress.events.values.map (·.respell spell)).mergeSort fun a b ↦ b.name ≤ a.name :=
    List.map_mergeSort fun _ _ _ _ ↦ rfl
  have hevents := congrArg Entries.values hsame.events
  rw [Entries.values_mapValues, Entries.values_mapValues] at hevents
  rw [EventSet.respell, EventSet.respell, hsorted, hsorted, hevents]
  exact congrArg₂ (EventSet.mk _) hsame.missing hsame.overwritten

/-- Errors that are the same but for the spelling of files. -/
abbrev SameError (spell : String → String) (error error' : CompileError) : Prop :=
  error.respell spell = error'.respell spell

/-- The same documents at paths that are spelled differently. -/
theorem matched_load {paths others : List Path}
    (hpaths : List.Forall₂ (Respelled spell) (distinctPaths paths) (distinctPaths others))
    (source : Source) :
    Matched (SameError spell) (fun set set' ↦ set.respell spell = set'.respell spell)
      (load paths source) (load others source) := by
  have hread : Matched (SameError spell) (List.Forall₂ (SameDocument spell))
      (((distinctPaths paths).mapM (readDocument source)).mapError .load)
      (((distinctPaths others).mapM (readDocument source)).mapError .load) :=
    (Matched.mapM hpaths fun hpath ↦ matched_readDocument hpath source).mapError
      fun herrors ↦ congrArg CompileError.load herrors
  have hprogress : Matched (SameError spell) (Progress.Same spell) (loadProgress paths source)
      (loadProgress others source) := by
    refine hread.bind fun {documents others} hdocuments ↦ ?_
    have hstart := Progress.Same.start spell (registered source documents)
    have hadded := Matched.foldlM (forall₂_declarations hdocuments) hstart Progress.Same.add
    rw [← registered, ← registered, registered_congr hdocuments]
    exact hadded.mapError fun herror ↦ congrArg CompileError.resolution herror
  exact hprogress.map Progress.Same.respell_toEventSet

/-! ### Lists of the same places -/

section Places

variable {xs ys : List Path}

/-- A load reads a document at each given place. -/
theorem mem_map_rank_distinctPaths {paths : List Path} {rank : List (ℕ ×ₗ String)} :
    rank ∈ (distinctPaths paths).map Path.rank ↔ rank ∈ paths.map Path.rank := by
  simp only [List.mem_map]
  constructor
  · rintro ⟨path, hpath, hrank⟩
    exact ⟨path, distinctPaths_subset paths hpath, hrank⟩
  · rintro ⟨path, hpath, rfl⟩
    obtain ⟨kept, hkept, hsame⟩ := exists_same_of_mem hpath
    exact ⟨kept, hkept, (Path.same_iff.mp hsame).symm⟩

theorem forall₂_same_distinctPaths
    (hplaces : ∀ rank, rank ∈ xs.map Path.rank ↔ rank ∈ ys.map Path.rank) :
    List.Forall₂ (fun x y ↦ x.same y = true) (distinctPaths xs) (distinctPaths ys) := by
  have : Std.Antisymm fun a b : List (ℕ ×ₗ String) ↦ a < b := ⟨fun a b h h' ↦ absurd h' h.asymm⟩
  have : Std.Irrefl fun a b : List (ℕ ×ₗ String) ↦ a < b := ⟨lt_irrefl⟩
  have hranks : (distinctPaths xs).map Path.rank = (distinctPaths ys).map Path.rank := by
    refine (List.pairwise_map.mpr (pairwise_distinctPaths xs)).eq_of_mem_iff
      (List.pairwise_map.mpr (pairwise_distinctPaths ys)) fun rank ↦ ?_
    rw [mem_map_rank_distinctPaths, mem_map_rank_distinctPaths, hplaces]
  rw [← List.forall₂_eq_eq_eq, List.forall₂_map_left_iff, List.forall₂_map_right_iff] at hranks
  exact hranks.imp fun _ _ ↦ Path.same_iff.mpr

/-- A load depends on no more than the first spelling of each place. -/
theorem load_congr (hfirst : ∀ path : Path, xs.find? path.same = ys.find? path.same)
    (source : Source) : load xs source = load ys source := by
  rw [load, load, loadProgress, loadProgress, distinctPaths_congr hfirst]

/-- What a load gives, with all files in their plain spelling. -/
def plainly (outcome : Except CompileError EventSet) : Except CompileError EventSet :=
  (outcome.map (·.respell Path.plainText)).mapError (·.respell Path.plainText)

theorem plainly_load (hplaces : ∀ rank, rank ∈ xs.map Path.rank ↔ rank ∈ ys.map Path.rank)
    (hisYaml : ∀ path ∈ xs, ∀ other ∈ ys, path.same other = true → path.isYaml = other.isYaml)
    (source : Source) : plainly (load xs source) = plainly (load ys source) := by
  have hrespelled :
      List.Forall₂ (Respelled Path.plainText) (distinctPaths xs) (distinctPaths ys) := by
    obtain ⟨hlength, hzip⟩ := List.forall₂_iff_zip.mp (forall₂_same_distinctPaths hplaces)
    refine List.forall₂_iff_zip.mpr ⟨hlength, fun {path other} hmem ↦ ?_⟩
    obtain ⟨hpath, hother⟩ := List.of_mem_zip hmem
    exact ⟨Path.seenAlike_of_same (hzip hmem), hisYaml path (distinctPaths_subset xs hpath) other
      (distinctPaths_subset ys hother) (hzip hmem)⟩
  have hmatched := matched_load hrespelled source
  generalize load xs source = outcome, load ys source = outcome' at hmatched ⊢
  cases hmatched with
  | ok hset => exact congrArg Except.ok hset
  | error herror => exact congrArg Except.error herror

/-- In whichever order the paths are given, a load gives the same if the spelling of each place that
comes first is the same; and if no place has both a spelling that is taken as YAML and one that is
not, it gives the same but for the spelling of files. -/
theorem load_of_perm (hperm : xs.Perm ys) (source : Source) :
    ((∀ path ∈ xs, xs.find? path.same = ys.find? path.same) →
      load xs source = load ys source) ∧
    ((∀ path ∈ xs, ∀ other ∈ xs, path.same other = true → path.isYaml = other.isYaml) →
      plainly (load xs source) = plainly (load ys source)) := by
  constructor
  · intro hfirst
    refine load_congr (fun path ↦ ?_) source
    by_cases hgiven : ∃ other ∈ xs, path.same other = true
    · obtain ⟨other, hother, hsame⟩ := hgiven
      rw [Path.same_congr hsame, hfirst other hother]
    · have hnone : ∀ other ∈ xs, ¬path.same other = true := fun other hother hsame ↦
        hgiven ⟨other, hother, hsame⟩
      rw [List.find?_eq_none.mpr hnone,
        List.find?_eq_none.mpr fun other hother ↦ hnone other (hperm.mem_iff.mpr hother)]
  · intro hisYaml
    refine plainly_load (fun rank ↦ (hperm.map Path.rank).mem_iff) ?_ source
    exact fun path hpath other hother ↦ hisYaml path hpath other (hperm.mem_iff.mpr hother)

end Places

/-! ### Two spellings -/

/-- A document that declares an event by a reference to nothing. -/
def looseSource : Source where
  files := [(⟨"a/b.json"⟩, "\x7b\"events\":\x7b\"login\":\x7b\"$ref\":\"#/x\"\x7d\x7d\x7d")]

def looseRoot : Json := .object [("events", .object [("login", .object [("$ref", .string "#/x")])])]

/-- What dangles is noted with the spelling that was given first. -/
theorem load_loose {path other : Path} (hsame : path.same other = true)
    (hnormal : path.normalize = ⟨"a/b.json"⟩) (hjson : path.isYaml = false) :
    load [path, other] looseSource = .ok
      { events := [Event.ofSchema "login" .absent path]
        missing := [⟨"#/x", path.text⟩] } := by
  have hparse : Json.parse
      "\x7b\"events\":\x7b\"login\":\x7b\"$ref\":\"#/x\"\x7d\x7d\x7d" = .ok looseRoot := by cbv
  have hcontent : looseSource.read path =
      .ok (some "\x7b\"events\":\x7b\"login\":\x7b\"$ref\":\"#/x\"\x7d\x7d\x7d") := by
    rw [Source.read, hnormal]
    rfl
  have hread : (distinctPaths [path, other]).mapM (readDocument looseSource) =
      .ok [⟨path, looseRoot⟩] := by
    rw [distinctPaths_pair hsame]
    exact mapM_readDocument (List.pairwise_singleton _ _)
      (.cons (readDocument_of_json hcontent hjson hparse rfl) .nil)
  have hreference : Reference.parse? "#/x" = some (.internal ⟨["x"]⟩) := by decide +kernel
  have hdangles : (Reference.internal ⟨["x"]⟩).Dangles
      (registered looseSource [⟨path, looseRoot⟩]).document? looseRoot path := .internal rfl
  obtain ⟨r, hresolve, hmissing⟩ := Resolver.resolve_of_dangles hreference rfl hdangles
  rw [← Resolver.ofJson_reference] at hresolve
  rw [load_eq_of_declarations hread rfl hresolve, hmissing, missing_registered]
  rfl

/-- Which spelling is noted depends on the order in which the two are given. -/
theorem missing_of_swapped : ∃ set other,
    ([⟨"a//b.json"⟩, ⟨"a/b.json"⟩] : List Path).Perm [⟨"a/b.json"⟩, ⟨"a//b.json"⟩] ∧
    load [⟨"a//b.json"⟩, ⟨"a/b.json"⟩] looseSource = .ok set ∧
    load [⟨"a/b.json"⟩, ⟨"a//b.json"⟩] looseSource = .ok other ∧
    set.missing = [⟨"#/x", "a//b.json"⟩] ∧ other.missing = [⟨"#/x", "a/b.json"⟩] := by
  have hnormal : Path.normalize ⟨"a//b.json"⟩ = ⟨"a/b.json"⟩ := by decide +kernel
  have hnormal' : Path.normalize ⟨"a/b.json"⟩ = ⟨"a/b.json"⟩ := by decide +kernel
  refine ⟨_, _, .swap _ _ _, load_loose ?_ hnormal ?_, load_loose ?_ hnormal' ?_, rfl, rfl⟩
  all_goals decide +kernel

/-- Paths in another order that give the place the same spelling first, and ones that do not. -/
theorem load_of_perm_loose :
    load [⟨"a//b.json"⟩, ⟨"a/b.json"⟩, ⟨"c.json"⟩] looseSource =
      load [⟨"c.json"⟩, ⟨"a//b.json"⟩, ⟨"a/b.json"⟩] looseSource ∧
    plainly (load [⟨"a//b.json"⟩, ⟨"a/b.json"⟩] looseSource) =
      plainly (load [⟨"a/b.json"⟩, ⟨"a//b.json"⟩] looseSource) := by
  have hrotated : ([⟨"a//b.json"⟩, ⟨"a/b.json"⟩, ⟨"c.json"⟩] : List Path).Perm
      [⟨"c.json"⟩, ⟨"a//b.json"⟩, ⟨"a/b.json"⟩] := by decide
  have hswapped : ([⟨"a//b.json"⟩, ⟨"a/b.json"⟩] : List Path).Perm
      [⟨"a/b.json"⟩, ⟨"a//b.json"⟩] := .swap _ _ _
  exact ⟨(load_of_perm hrotated looseSource).1 (by decide +kernel),
    (load_of_perm hswapped looseSource).2 (by decide +kernel)⟩

end EventSet

end EventSchema
