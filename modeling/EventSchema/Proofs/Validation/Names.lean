import EventSchema.Proofs.EventSet.Overwritten
import EventSchema.Proofs.Plan
import EventSchema.Validation

/-!
# Declared names

The check of several documents compares every declared event with the first one of its name, and
with the first one of its type name. A load keeps one event of each name, and a plan compares the
type names of those. Both find names that share a type name in the same documents
(`collisionFindings_eq_nil_iff`, `exists_ofEventSet_iff`), and what the check finds declared twice
is what the load notes as overwritten, record by record (`forall₂_overwritings`).
-/

set_option autoImplicit false

namespace EventSchema

namespace Validation

/-! ### Comparing with the first -/

section CompareWithFirst

variable {α : Type} [DecidableEq α] {key : DeclaredEvent → α}
  {finding? : DeclaredEvent → DeclaredEvent → Option Finding} {seen events : List DeclaredEvent}

theorem compareWithFirst_of_none {event : DeclaredEvent}
    (hfind : seen.find? (fun first ↦ key first = key event) = none) :
    compareWithFirst key finding? seen (event :: events) =
      compareWithFirst key finding? (seen ++ [event]) events := by
  rw [compareWithFirst, hfind]

theorem compareWithFirst_of_some {event first : DeclaredEvent}
    (hfind : seen.find? (fun first ↦ key first = key event) = some first) :
    compareWithFirst key finding? seen (event :: events) =
      ((finding? first event).map (FileFinding.mk event.file)).toList ++
        compareWithFirst key finding? seen events := by
  rw [compareWithFirst, hfind]

/-- Events of one key have one name. -/
def NamedByKey (key : DeclaredEvent → α) (events : List DeclaredEvent) : Prop :=
  ∀ a ∈ events, ∀ b ∈ events, key a = key b → a.name = b.name

omit [DecidableEq α] in
theorem NamedByKey.concat {event : DeclaredEvent} (hseen : NamedByKey key seen)
    (hnew : ∀ a ∈ seen, key a ≠ key event) : NamedByKey key (seen ++ [event]) := by
  intro a ha b hb hkey
  rcases List.mem_append.mp ha with ha | ha <;> rcases List.mem_append.mp hb with hb | hb
  · exact hseen a ha b hb hkey
  · exact absurd (List.mem_singleton.mp hb ▸ hkey) (hnew a ha)
  · exact absurd (List.mem_singleton.mp ha ▸ hkey.symm) (hnew b hb)
  · rw [List.mem_singleton.mp ha, List.mem_singleton.mp hb]

omit [DecidableEq α] in
/-- An event of a key that was met before need only have the name of that one, which stands for
it. -/
theorem namedByKey_insert_iff {event first : DeclaredEvent} {rest : List DeclaredEvent}
    (hfirst : first ∈ seen) (hkey : key first = key event) :
    NamedByKey key (seen ++ event :: rest) ↔
      first.name = event.name ∧ NamedByKey key (seen ++ rest) := by
  constructor
  · intro hagree
    have hsublist : (seen ++ rest).Sublist (seen ++ event :: rest) :=
      (List.Sublist.refl seen).append (List.sublist_cons_self event rest)
    refine ⟨hagree first (List.mem_append_left _ hfirst) event ?_ hkey, ?_⟩
    · exact List.mem_append_right _ List.mem_cons_self
    · intro a ha b hb hab
      exact hagree a (hsublist.subset ha) b (hsublist.subset hb) hab
  · rintro ⟨hname, hagree⟩ a ha b hb hab
    have hstands (c : DeclaredEvent) (hc : c ∈ seen ++ event :: rest) :
        ∃ d ∈ seen ++ rest, key d = key c ∧ d.name = c.name := by
      rcases List.mem_append.mp hc with hc | hc
      · exact ⟨c, List.mem_append_left rest hc, rfl, rfl⟩
      · rcases List.mem_cons.mp hc with rfl | hc
        · exact ⟨first, List.mem_append_left rest hfirst, hkey, hname⟩
        · exact ⟨c, List.mem_append_right seen hc, rfl, rfl⟩
    obtain ⟨a', ha', hkeyA, hnameA⟩ := hstands a ha
    obtain ⟨b', hb', hkeyB, hnameB⟩ := hstands b hb
    rw [← hnameA, ← hnameB]
    exact hagree a' ha' b' hb' (by rw [hkeyA, hkeyB, hab])

/-- It is enough to compare with the first event of a key: all of the key have its name, or one of
them is reported. -/
theorem compareWithFirst_eq_nil_iff
    (hfinding : ∀ first event, finding? first event = none ↔ first.name = event.name)
    (hseen : NamedByKey key seen) :
    compareWithFirst key finding? seen events = [] ↔ NamedByKey key (seen ++ events) := by
  induction events generalizing seen with
  | nil => simpa [compareWithFirst] using hseen
  | cons event rest ih =>
    cases hfind : seen.find? fun first ↦ key first = key event with
    | none =>
      have hnew : ∀ a ∈ seen, key a ≠ key event := by simpa using hfind
      rw [compareWithFirst_of_none hfind, ih (hseen.concat hnew), List.append_assoc,
        List.singleton_append]
    | some first =>
      have hfirst : first ∈ seen := List.mem_of_find?_eq_some hfind
      have hkey : key first = key event := by simpa using List.find?_some hfind
      have hreport : ((finding? first event).map (FileFinding.mk event.file)).toList = [] ↔
          first.name = event.name := by
        rw [Option.toList_eq_nil_iff, Option.map_eq_none_iff, hfinding]
      rw [compareWithFirst_of_some hfind, List.append_eq_nil_iff, hreport, ih hseen,
        namedByKey_insert_iff hfirst hkey]

end CompareWithFirst

theorem collisionFindings_eq_nil_iff {documents : List NamedDocument} :
    collisionFindings documents = [] ↔
      NamedByKey (fun event ↦ TypeName.ofEvent event.name) (declaredEvents documents) := by
  rw [collisionFindings, compareWithFirst_eq_nil_iff, List.nil_append]
  · intro first event
    by_cases hname : first.name = event.name <;> simp [hname]
  · intro a ha
    exact absurd ha List.not_mem_nil

end Validation

/-! ### The declarations of a load -/

namespace EventSet

open Validation

variable {documents : List Document} {source : Source} {set : EventSet}

/-- The documents as the check sees them. -/
def named (documents : List Document) : List NamedDocument :=
  documents.map fun document ↦ (document.path.text, document.root)

def Declaration.declared (declaration : Declaration) : DeclaredEvent :=
  ⟨declaration.document.path.text, declaration.name⟩

theorem declaredEvents_named (documents : List Document) :
    declaredEvents (named documents) = (declarations documents).map Declaration.declared := by
  rw [declaredEvents, named, List.flatMap_map, declarations, List.map_flatMap]
  refine List.flatMap_congr fun document _ ↦ ?_
  have hnames : eventNames document.root = document.events.map Prod.fst := rfl
  simp only [hnames, List.map_map]
  rfl

/-- What is held at a path determines the document. -/
theorem eq_of_map_path {others : List Document}
    (hpaths : others.map Document.path = documents.map Document.path)
    (hothers : ∀ document ∈ others, source.document? document.path = .ok (some document.root))
    (hheld : ∀ document ∈ documents, source.document? document.path = .ok (some document.root)) :
    others = documents := by
  induction others generalizing documents with
  | nil => exact (List.map_eq_nil_iff.mp hpaths.symm).symm
  | cons other rest ih =>
    obtain ⟨document, more, rfl, hpath, hrest⟩ := List.map_eq_cons_iff.mp hpaths.symm
    obtain ⟨hother, hmore⟩ := List.forall_mem_cons.mp hothers
    obtain ⟨hdocument, hheld⟩ := List.forall_mem_cons.mp hheld
    rw [ih hrest.symm hmore hheld]
    rw [hpath, hother] at hdocument
    have hroot := Option.some_injective _ (Except.ok.inj hdocument)
    have hsame : other = document := by
      cases other
      cases document
      congr
      · exact hpath.symm
    rw [hsame]

/-- The load keeps and accounts for the declarations of the documents that are held at the
paths. -/
theorem exists_accounted_of_load
    (hordered : documents.Pairwise fun a b ↦ a.path.lt b.path = true)
    (hheld : ∀ document ∈ documents, source.document? document.path = .ok (some document.root))
    (hload : load (documents.map Document.path) source = .ok set) :
    ∃ progress : Progress, progress.Accounted (registered source documents)
      (declarations documents) ∧ progress.toEventSet = set := by
  obtain ⟨others, progress, hread, hprogress, hset⟩ := load_eq_ok_iff.mp hload
  have hsorted : (documents.map Document.path).Pairwise fun a b ↦ a.rank < b.rank := by
    rw [List.pairwise_map]
    exact hordered.imp Path.lt_iff.mp
  rw [distinctPaths_eq_self hsorted] at hread
  have hroots : ∀ other ∈ others, source.document? other.path = .ok (some other.root) := by
    intro other hother
    obtain ⟨path, -, hpath⟩ := exists_of_mem_mapM hread hother
    obtain ⟨rfl, hroot⟩ := document?_of_readDocument hpath
    exact hroot
  obtain rfl : others = documents := eq_of_map_path (map_path_of_mapM hread) hroots hheld
  refine ⟨progress, ?_, hset⟩
  have hstart : Progress.Accounted (registered source others) []
      { resolver := registered source others } := ⟨.start _, rfl, rfl⟩
  exact foldlM_add Progress.Accounted.add hstart hprogress

/-! ### Names that are declared twice -/

/-- The finding tells of the record: it is filed under the document that takes over, and it names
the first document that declares the event. -/
def Tells (declarations : List Declaration) (entry : FileFinding) (record : Overwritten) : Prop :=
  ∃ first, declarations.find? (·.name = record.event) = some first ∧
    entry = ⟨record.replacement.text, .duplicateEvent record.event first.document.path.text⟩

/-- The check looks for the first declaration of a name and the load for the last one: one finds
something if the other does. -/
theorem lastDeclaration?_eq_none_iff_find? {done : List Declaration} {name : String} :
    lastDeclaration? done name = none ↔ done.find? (·.name = name) = none := by
  simp [lastDeclaration?]

theorem forall₂_overwritings {seen : List DeclaredEvent} {done rest : List Declaration}
    (hseen : ∀ name, seen.find? (·.name = name) =
      (done.find? (·.name = name)).map Declaration.declared) :
    List.Forall₂ (Tells (done ++ rest))
      (compareWithFirst DeclaredEvent.name
        (fun first event ↦ some (.duplicateEvent event.name first.file))
        seen (rest.map Declaration.declared))
      (overwritings done rest) := by
  induction rest generalizing seen done with
  | nil => exact .nil
  | cons declaration rest ih =>
    have hfirst : seen.find? (fun first ↦ first.name = declaration.declared.name) =
        (done.find? (·.name = declaration.name)).map Declaration.declared := hseen declaration.name
    rw [List.map_cons, overwritings, List.append_cons]
    cases hfind : done.find? (·.name = declaration.name) with
    | none =>
      rw [hfind, Option.map_none] at hfirst
      rw [compareWithFirst_of_none hfirst, lastDeclaration?_eq_none_iff_find?.mpr hfind]
      refine ih fun name ↦ ?_
      rw [List.find?_append, List.find?_append, hseen name, Option.map_or]
      by_cases hname : declaration.name = name <;> simp [hname, Declaration.declared]
    | some first =>
      have hlast : lastDeclaration? done declaration.name ≠ none := by
        rw [ne_eq, lastDeclaration?_eq_none_iff_find?, hfind]
        exact Option.some_ne_none first
      obtain ⟨last, hlast⟩ := Option.ne_none_iff_exists'.mp hlast
      rw [hfind, Option.map_some] at hfirst
      rw [compareWithFirst_of_some hfirst, hlast]
      refine .cons ⟨first, ?_, rfl⟩ (ih fun name ↦ ?_)
      · rw [List.append_assoc, List.find?_append, hfind, Option.some_or]
      · -- The new declaration is not the first one of its name.
        rw [List.find?_append, hseen name]
        by_cases hname : declaration.name = name
        · subst hname
          rw [hfind, Option.some_or]
        · simp [hname]

/-! ### Type names of a load -/

theorem Progress.Sound.map_typeName {start : Resolver} {done : List Declaration}
    {progress : Progress} (hsound : progress.Sound start done) :
    progress.toEventSet.events.map Event.typeName =
      (progress.toEventSet.events.map Event.name).map TypeName.ofEvent := by
  rw [List.map_map]
  refine List.map_congr_left fun event hevent ↦ ?_
  obtain ⟨declaration, hlast, hgives⟩ := hsound.exists_of_mem_toEventSet hevent
  rw [hgives.event, name_of_lastDeclaration? hlast]
  rfl

/-- The check and the plan find the same names apart. -/
theorem Progress.Sound.collisionFindings_eq_nil_iff {start : Resolver} {progress : Progress}
    (hsound : progress.Sound start (declarations documents)) :
    collisionFindings (named documents) = [] ↔
      (progress.toEventSet.events.map Event.typeName).Nodup := by
  rw [hsound.map_typeName, (hsound.names_perm.map TypeName.ofEvent).nodup_iff,
    List.nodup_map_iff_inj_on (List.nodup_dedup _), Validation.collisionFindings_eq_nil_iff,
    NamedByKey, declaredEvents_named]
  simp only [List.mem_dedup, List.forall_mem_map]
  rfl

/-- The checks across documents and the load agree. There is no finding of type names exactly if
there is a plan, whatever the options, and the findings of names that are declared twice tell of
what is overwritten, record by record. So documents without findings lose no declaration and have a
plan. -/
theorem findings_agree_of_load
    (hordered : documents.Pairwise fun a b ↦ a.path.lt b.path = true)
    (hheld : ∀ document ∈ documents, source.document? document.path = .ok (some document.root))
    (hload : load (documents.map Document.path) source = .ok set) :
    (∀ options, collisionFindings (named documents) = [] ↔
      ∃ plan, Plan.ofEventSet set options = .ok plan) ∧
    List.Forall₂ (Tells (declarations documents)) (duplicateFindings (named documents))
      set.overwritten ∧
    (∀ schema, findings schema (named documents) = [] → set.overwritten = [] ∧
      ∀ options, ∃ plan, Plan.ofEventSet set options = .ok plan) := by
  obtain ⟨progress, haccounted, rfl⟩ := exists_accounted_of_load hordered hheld hload
  have hplans (options : PlanOptions) : collisionFindings (named documents) = [] ↔
      ∃ plan, Plan.ofEventSet progress.toEventSet options = .ok plan := by
    rw [haccounted.sound.collisionFindings_eq_nil_iff, Plan.exists_ofEventSet_iff]
  have htells : List.Forall₂ (Tells (declarations documents)) (duplicateFindings (named documents))
      progress.toEventSet.overwritten := by
    have hstart (name : String) : ([] : List DeclaredEvent).find? (·.name = name) =
        (([] : List Declaration).find? (·.name = name)).map Declaration.declared := rfl
    have hrecords : progress.toEventSet.overwritten = overwritings [] (declarations documents) :=
      haccounted.overwritten
    rw [hrecords, duplicateFindings, declaredEvents_named]
    exact forall₂_overwritings hstart
  refine ⟨hplans, htells, fun schema hnone ↦ ?_⟩
  rw [findings, List.append_eq_nil_iff, List.append_eq_nil_iff] at hnone
  obtain ⟨⟨-, hduplicates⟩, hcollisions⟩ := hnone
  rw [hduplicates] at htells
  exact ⟨List.forall₂_nil_left_iff.mp htells, fun options ↦ (hplans options).mp hcollisions⟩

/-- The finding of the event that two documents declare tells of the declaration that gave way. -/
theorem findings_agree_of_load_twice :
    let documents : List Document := [⟨⟨"a.json"⟩, loginRoot⟩, ⟨⟨"b.json"⟩, loginRoot⟩]
    (documents.Pairwise fun a b ↦ a.path.lt b.path = true) ∧
    (∀ document ∈ documents, twiceSource.document? document.path = .ok (some document.root)) ∧
    load (documents.map Document.path) twiceSource = .ok twiceSet ∧
    (∃ plan, Plan.ofEventSet twiceSet {} = .ok plan) ∧
    List.Forall₂ (Tells (declarations documents)) (duplicateFindings (named documents))
      [⟨"login", ⟨"a.json"⟩, ⟨"b.json"⟩⟩] := by
  intro documents
  have hordered : documents.Pairwise fun a b ↦ a.path.lt b.path = true :=
    List.pairwise_pair.mpr (by decide +kernel)
  have hparse : Json.parse "\x7b\"events\":\x7b\"login\":\x7b\x7d\x7d\x7d" =
    .ok loginRoot := by cbv
  have hheld : ∀ document ∈ documents,
      twiceSource.document? document.path = .ok (some document.root) := by
    intro document hdocument
    rcases List.mem_pair.mp hdocument with rfl | rfl
    · exact (document?_of_readDocument (readDocument_of_json rfl (by decide) hparse rfl)).2
    · exact (document?_of_readDocument (readDocument_of_json rfl (by decide) hparse rfl)).2
  obtain ⟨hplans, htells, -⟩ := findings_agree_of_load hordered hheld load_twice
  exact ⟨hordered, hheld, load_twice, (hplans {}).mp (by decide +kernel), htells⟩

end EventSet

end EventSchema
