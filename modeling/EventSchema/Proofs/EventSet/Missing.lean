import EventSchema.Proofs.EventSet.Load
import EventSchema.Proofs.Resolver.Dangling
import Mathlib.Data.List.Forall2

/-!
# The missing references of a load

Each declaration that a load resolves adds what dangles in expanding it, whether it is overwritten
later or not. So the missing references of a load are, in order, the dangling references of its
declarations (`missing_of_load`): each has the text of the reference and the path of the document
that holds it, and if there are none, no reference that any declaration leads to dangles.
-/

set_option autoImplicit false

namespace EventSchema

namespace EventSet

variable {library : Library} {declaration : Declaration}

/-- The references that are met in expanding the declaration, each with the document that holds it
and the path of that document. -/
def Declaration.Meets (library : Library) (declaration : Declaration) :
    Json → Path → String → Prop :=
  Met library declaration.document.root declaration.document.path (.ofJson declaration.schema)

/-- What dangles in expanding the declaration, in the order in which it is met. -/
def Declaration.Dangles (library : Library) (declaration : Declaration) :
    List MissingReference → Prop :=
  Dangling library declaration.document.root declaration.document.path
    (Fragment.ofJson declaration.schema).followed

theorem mem_declarations_iff {documents : List Document} :
    declaration ∈ declarations documents ↔ declaration.document ∈ documents ∧
      (declaration.name, declaration.schema) ∈ declaration.document.events := by
  rw [declarations, List.mem_flatMap]
  constructor
  · rintro ⟨document, hdocument, hmem⟩
    obtain ⟨⟨name, schema⟩, hentry, rfl⟩ := List.mem_map.mp hmem
    exact ⟨hdocument, hentry⟩
  · rintro ⟨hdocument, hentry⟩
    exact ⟨declaration.document, hdocument, List.mem_map.mpr ⟨_, hentry, rfl⟩⟩

/-- What dangles in several declarations dangles in one of them. -/
theorem mem_flatten_iff {declarations : List Declaration} {noted : List (List MissingReference)}
    (hnoted : List.Forall₂ (Declaration.Dangles library) declarations noted)
    {missing : MissingReference} : missing ∈ noted.flatten ↔
      ∃ declaration ∈ declarations, ∃ document path text reference,
        declaration.Meets library document path text ∧
        Reference.parse? text = some reference ∧ reference.Dangles library document path ∧
        missing = ⟨text, path.text⟩ := by
  induction hnoted with
  | nil => simp
  | @cons first part rest more hfirst _ ih =>
    rw [List.flatten_cons, List.mem_append, ih, List.exists_mem_cons_iff]
    exact or_congr_left (Dangling.mem_iff hfirst)

/-! ### Noting while loading -/

/-- What holds after some declarations were resolved: what dangles in each of them is noted. -/
structure Progress.Reports (start : Resolver) (done : List Declaration) (progress : Progress) :
    Prop where
  alike : start.Alike progress.resolver
  missing : ∃ noted, List.Forall₂ (Declaration.Dangles start.document?) done noted ∧
    progress.resolver.missing = start.missing ++ noted.flatten

theorem Progress.Reports.add {start : Resolver} {done : List Declaration}
    {progress next : Progress} (hreports : progress.Reports start done)
    (hadd : progress.add declaration = .ok next) : next.Reports start (done ++ [declaration]) := by
  obtain ⟨schema, hschema, rfl⟩ := Progress.add_eq_ok_iff.mp hadd
  refine ⟨hreports.alike.trans (Resolver.alike_resolve _ _ _ _), ?_⟩
  obtain ⟨noted, hnoted, hbefore⟩ := hreports.missing
  obtain ⟨part, hpart, hmissing⟩ := Resolver.dangling_of_resolve hschema
  rw [hreports.alike.document?] at hpart
  refine ⟨noted ++ [part], List.rel_append hnoted (.cons hpart .nil), ?_⟩
  rw [List.flatten_concat, ← List.append_assoc, ← hbefore]
  exact hmissing

/-- The documents that the references of a load are met in are held by the source. -/
theorem exists_spelling_of_meets {paths : List Path} {source : Source} {documents : List Document}
    (hreads : Reads paths source documents) (hdeclaration : declaration ∈ declarations documents)
    {document : Json} {path : Path} {text : String}
    (hmeets : declaration.Meets (registered source documents).document? document path text) :
    text ∈ document.referenceTexts ∧ ∃ spelling : Path, spelling.normalize = path.normalize ∧
      source.document? spelling = .ok (some document) := by
  have hheld (document : Document) (hdocument : document ∈ documents) :
      source.document? document.path = .ok (some document.root) :=
    (document?_of_readDocument (hreads.read hdocument)).2
  obtain ⟨hdocument, hmem⟩ := mem_declarations_iff.mp hdeclaration
  have hroot : (Fragment.ofJson declaration.schema).followed ⊆
      declaration.document.root.referenceTexts :=
    List.Subset.trans (Json.followed_ofJson_subset _)
      (Document.referenceTexts_subset_of_mem_events hmem)
  obtain ⟨htext, ⟨rfl, rfl⟩ | ⟨hlibrary, hnormal⟩⟩ := Met.held hmeets hroot
  · exact ⟨htext, declaration.document.path, rfl, hheld _ hdocument⟩
  · refine ⟨htext, ?_⟩
    rcases exists_of_registered hlibrary with ⟨other, hother, hpath, rfl⟩ | hsource
    · exact ⟨other.path, by rw [hpath, hnormal], hheld other hother⟩
    · exact ⟨path, rfl, hsource⟩

/-- The missing references of a load are exactly the dangling references met in expanding its
declarations, in order of documents and within them. Each is noted with its text and with the path
of the document that holds it; if none is, nothing that a declaration leads to dangles. -/
theorem missing_of_load {paths : List Path} {source : Source} {set : EventSet}
    (hload : load paths source = .ok set) :
    ∃ documents, Reads paths source documents ∧
      (∃ noted, List.Forall₂ (Declaration.Dangles (registered source documents).document?)
        (declarations documents) noted ∧ set.missing = noted.flatten) ∧
      (∀ missing, missing ∈ set.missing ↔ ∃ declaration ∈ declarations documents,
        ∃ document path text reference,
          declaration.Meets (registered source documents).document? document path text ∧
          Reference.parse? text = some reference ∧
          reference.Dangles (registered source documents).document? document path ∧
          missing = ⟨text, path.text⟩) ∧
      (∀ declaration ∈ declarations documents, ∀ document path text,
        declaration.Meets (registered source documents).document? document path text →
          text ∈ document.referenceTexts ∧ ∃ spelling : Path,
            spelling.normalize = path.normalize ∧
            source.document? spelling = .ok (some document)) ∧
      (set.missing = [] → ∀ declaration ∈ declarations documents,
        ∀ document path text reference,
          declaration.Meets (registered source documents).document? document path text →
          Reference.parse? text = some reference →
          ¬reference.Dangles (registered source documents).document? document path) := by
  obtain ⟨documents, progress, hread, hprogress, rfl⟩ := load_eq_ok_iff.mp hload
  have hreports : progress.Reports (registered source documents) ([] ++ declarations documents) :=
    foldlM_add Progress.Reports.add ⟨.refl _, [], .nil, (List.append_nil _).symm⟩ hprogress
  obtain ⟨noted, hnoted, hmissing⟩ := hreports.missing
  rw [List.nil_append] at hnoted
  rw [missing_registered, List.nil_append] at hmissing
  have hmem (missing : MissingReference) : missing ∈ noted.flatten ↔ _ := mem_flatten_iff hnoted
  rw [← hmissing] at hmem
  refine ⟨documents, reads_of_mapM hread, ⟨noted, hnoted, hmissing⟩, hmem, ?_, ?_⟩
  · intro declaration hdeclaration document path text hmeets
    exact exists_spelling_of_meets (reads_of_mapM hread) hdeclaration hmeets
  · intro hnone declaration hdeclaration document path text reference hmeets hparse hdangles
    have hnoted := (hmem ⟨text, path.text⟩).mpr
      ⟨declaration, hdeclaration, document, path, text, reference, hmeets, hparse, hdangles, rfl⟩
    rw [show progress.resolver.missing = [] from hnone] at hnoted
    exact absurd hnoted List.not_mem_nil

def chainRoot : Json :=
  .object [("events", .object [("login", .object [("$ref", .string "./b.json")])])]

def chainPart : Json := .object [("$ref", .string "#/x")]

/-- A document that declares an event by one that does not have what it refers to. -/
def chainSource : Source where
  files := [(⟨"a.json"⟩,
      "\x7b\"events\":\x7b\"login\":\x7b\"$ref\":\"./b.json\"\x7d\x7d\x7d"),
    (⟨"b.json"⟩, "\x7b\"$ref\":\"#/x\"\x7d")]

def chainSet : EventSet where
  events := [Event.ofSchema "login" .absent ⟨"a.json"⟩]
  missing := [⟨"#/x", "b.json"⟩]

theorem readDocument_chainRoot :
    readDocument chainSource ⟨"a.json"⟩ = .ok ⟨⟨"a.json"⟩, chainRoot⟩ := by
  have hparse : Json.parse
      "\x7b\"events\":\x7b\"login\":\x7b\"$ref\":\"./b.json\"\x7d\x7d\x7d" =
        .ok chainRoot := by cbv
  exact readDocument_of_json rfl (by decide) hparse rfl

theorem readDocument_chainPart :
    readDocument chainSource ⟨"b.json"⟩ = .ok ⟨⟨"b.json"⟩, chainPart⟩ := by
  have hparse : Json.parse "\x7b\"$ref\":\"#/x\"\x7d" = .ok chainPart := by cbv
  exact readDocument_of_json rfl (by decide) hparse rfl

theorem load_chain : load [⟨"a.json"⟩] chainSource = .ok chainSet := by
  have hread := mapM_readDocument (List.pairwise_singleton _ _) (.cons readDocument_chainRoot .nil)
  have hparse : Reference.parse? "./b.json" = some (.external ⟨"./b.json"⟩ ⟨[]⟩) := by
    decide +kernel
  have hlocate : (Reference.external ⟨"./b.json"⟩ ⟨[]⟩).locate ⟨"a.json"⟩ = ⟨⟨"b.json"⟩, ⟨[]⟩⟩ := by
    decide +kernel
  have hpart : (registered chainSource [⟨⟨"a.json"⟩, chainRoot⟩]).document? ⟨"b.json"⟩ =
      .ok (some chainPart) := (document?_of_readDocument readDocument_chainPart).2
  have hfind : (Reference.external ⟨"./b.json"⟩ ⟨[]⟩).find?
      (registered chainSource [⟨⟨"a.json"⟩, chainRoot⟩]).document? chainRoot ⟨"a.json"⟩ =
        .ok (some ⟨chainPart, ⟨"b.json"⟩, chainPart⟩) := by
    rw [Reference.find?, hlocate, hpart]
    rfl
  have hparse' : Reference.parse? "#/x" = some (.internal ⟨["x"]⟩) := by decide +kernel
  obtain ⟨s, hs, halike, hmissing⟩ := Resolver.run_follow_of_found (Resolver.resolveWithin 1)
    hparse List.not_mem_nil hfind
  have hnew : (Reference.internal ⟨["x"]⟩).locate ⟨"b.json"⟩ ∉ s.active := by
    rw [halike.active, hlocate]
    decide +kernel
  have hfind' : (Reference.internal ⟨["x"]⟩).find? s.document? chainPart ⟨"b.json"⟩ =
    .ok none := rfl
  obtain ⟨t, ht, -, hnoted⟩ :=
    Resolver.run_follow_of_dangling (Resolver.resolveWithin 0) hparse' hnew hfind'
  rw [← Resolver.resolveWithin_reference] at hs ht
  rw [← Resolver.ofJson_reference, ← chainPart] at ht
  rw [ht, Option.map_some] at hs
  have hresolve := (Resolver.run_eq_resolve _ _ _ _ hs).symm
  rw [← Resolver.ofJson_reference] at hresolve
  have hleft : t.leave.missing = [⟨"#/x", "b.json"⟩] := by
    rw [Resolver.leave, hnoted, hmissing, missing_registered, List.nil_append]
  rw [load_eq_of_declarations hread rfl hresolve, hleft]
  rfl

/-- The reference that dangles is noted with the document that holds it, not with the one that
declares the event. -/
theorem missing_of_load_chain :
    load [⟨"a.json"⟩] chainSource = .ok chainSet ∧ ∃ documents,
      Reads [⟨"a.json"⟩] chainSource documents ∧
      ∃ noted, List.Forall₂ (Declaration.Dangles (registered chainSource documents).document?)
        (declarations documents) noted ∧ [⟨"#/x", "b.json"⟩] = noted.flatten := by
  obtain ⟨documents, hreads, hnoted, -⟩ := missing_of_load load_chain
  exact ⟨load_chain, documents, hreads, hnoted⟩

end EventSet

end EventSchema
