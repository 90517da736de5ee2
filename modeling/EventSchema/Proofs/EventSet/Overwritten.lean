import EventSchema.Proofs.EventSet.Load
import Mathlib.Data.List.Dedup

/-!
# The declarations that a load keeps

A load keeps the last declaration of every event and notes each one that gives way to a later one.
The records of one event form a chain along the documents that declare it, since no document
declares an event twice (`filter_declarations`, `filter_overwritings`); the kept event has the
source at which its chain ends. What is kept and noted of the documents is all that they declare
(`Accounts`, `accounts_of_load`).
-/

set_option autoImplicit false

namespace EventSchema.EventSet

variable {documents : List Document} {document : Document} {name : String}

/-- The documents that declare the event, in order. -/
def declaring (documents : List Document) (name : String) : List Document :=
  documents.filter fun document ↦ document.events.contains name

theorem unique_of_reads {paths : List Path} {source : Source}
    (hreads : Reads paths source documents) :
    ∀ document ∈ documents, Entries.Unique document.events := fun _ hdocument ↦
  (Document.distinct_events (distinct_of_readDocument (hreads.read hdocument))).unique

/-! ### The declarations of an event -/

theorem filter_of_unique {α : Type} {entries : Entries α} (hunique : entries.Unique)
    (name : String) :
    entries.filter (fun entry ↦ entry.1 = name) = (entries.get? name).toList.map (name, ·) := by
  induction entries with
  | nil => rfl
  | cons entry rest ih =>
    obtain ⟨key, value⟩ := entry
    obtain ⟨hkey, hrest⟩ := List.nodup_cons.mp hunique
    rw [List.filter_cons, Entries.get?_cons, ih hrest]
    by_cases hname : key = name
    · subst hname
      simp [Entries.get?_eq_none_iff.mpr hkey]
    · simp [hname]

/-- Each document that declares an event has one declaration of it. -/
theorem filter_declarations (hunique : ∀ document ∈ documents, Entries.Unique document.events)
    (name : String) :
    ((declarations documents).filter (fun declaration ↦ declaration.name = name)).map
      Declaration.document = declaring documents name := by
  induction documents with
  | nil => rfl
  | cons document rest ih =>
    obtain ⟨hfirst, hrest⟩ := List.forall_mem_cons.mp hunique
    have hevents := filter_of_unique hfirst name
    rw [declarations, List.flatMap_cons, ← declarations, List.filter_append, List.map_append,
      ih hrest, declaring, declaring, List.filter_cons, List.filter_map]
    simp only [Function.comp_def, hevents, Entries.contains]
    obtain hnone | ⟨schema, hsome⟩ := Option.eq_none_or_eq_some (Entries.get? document.events name)
    · simp [hnone]
    · simp [hsome]

theorem lastDeclaration?_eq (done : List Declaration) (name : String) : lastDeclaration? done name =
    (done.filter fun declaration ↦ declaration.name = name).getLast? := by
  rw [lastDeclaration?, List.getLast?_filter]

/-- The last declaration of an event is the one of the last document that has one. -/
theorem getLast?_declaring (hunique : ∀ document ∈ documents, Entries.Unique document.events)
    (name : String) :
    (declaring documents name).getLast? =
      (lastDeclaration? (declarations documents) name).map Declaration.document := by
  rw [← filter_declarations hunique, List.getLast?_map, lastDeclaration?_eq]

theorem get?_of_lastDeclaration? {declaration : Declaration}
    (hunique : ∀ document ∈ documents, Entries.Unique document.events)
    (hlast : lastDeclaration? (declarations documents) name = some declaration) :
    declaration.document.events.get? name = some declaration.schema := by
  obtain ⟨hdocument, hfind⟩ := exists_of_lastDeclaration? hlast
  refine (hunique _ hdocument).get?_of_mem ?_
  exact List.mem_reverse.mp (List.mem_of_find?_eq_some hfind)

/-! ### The records -/

/-- What gives way, in order: each declaration before which the event was declared has a record,
with the last one of them and itself. -/
def overwritings (done : List Declaration) : List Declaration → List Overwritten
  | [] => []
  | declaration :: rest =>
    ((lastDeclaration? done declaration.name).map fun previous ↦
      ⟨declaration.name, previous.document.path, declaration.document.path⟩).toList ++
      overwritings (done ++ [declaration]) rest

theorem overwritings_concat (done before : List Declaration) (declaration : Declaration) :
    overwritings done (before ++ [declaration]) = overwritings done before ++
      ((lastDeclaration? (done ++ before) declaration.name).map fun previous ↦
        ⟨declaration.name, previous.document.path, declaration.document.path⟩).toList := by
  induction before generalizing done with
  | nil => simp [overwritings]
  | cons first rest ih => simp [overwritings, ih]

/-- The steps from each item to the next one. -/
theorem zipWith_tail_concat {α β : Type} (f : α → α → β) (items : List α) (item : α) :
    List.zipWith f (items ++ [item]) (items ++ [item]).tail =
      List.zipWith f items items.tail ++ (items.getLast?.map (f · item)).toList := by
  induction items with
  | nil => rfl
  | cons first rest ih =>
    cases rest with
    | nil => rfl
    | cons second rest => simpa using ih

/-- The records of an event lead from each document that declares it to the next one. -/
theorem filter_overwritings (before : List Declaration) (name : String) :
    (overwritings [] before).filter (fun record ↦ record.event = name) =
      let paths := (before.filter fun declaration ↦ declaration.name = name).map (·.document.path)
      List.zipWith (Overwritten.mk name) paths paths.tail := by
  induction before using List.reverseRecOn with
  | nil => rfl
  | append_singleton before declaration ih =>
    rw [overwritings_concat, List.nil_append, List.filter_append, ih, List.filter_append]
    by_cases hname : declaration.name = name
    · subst hname
      simp only [decide_true, List.filter_singleton, Bool.cond_true, List.map_append,
        List.map_singleton]
      rw [zipWith_tail_concat, List.getLast?_map, ← lastDeclaration?_eq]
      cases lastDeclaration? before declaration.name <;> simp
    · cases lastDeclaration? before declaration.name <;> simp [hname]

/-! ### Keeping account while loading -/

/-- What holds after some declarations were resolved: each of them has its record or its event. -/
structure Progress.Accounted (start : Resolver) (done : List Declaration) (progress : Progress) :
    Prop where
  sound : progress.Sound start done
  overwritten : progress.overwritten = overwritings [] done
  count : progress.overwritten.length + progress.events.length = done.length

theorem Progress.Accounted.add {start : Resolver} {done : List Declaration}
    {progress next : Progress} {declaration : Declaration}
    (haccounted : progress.Accounted start done) (hadd : progress.add declaration = .ok next) :
    next.Accounted start (done ++ [declaration]) := by
  have hsound := haccounted.sound.add hadd
  have hevents := haccounted.sound.events declaration.name
  obtain ⟨schema, -, rfl⟩ := Progress.add_eq_ok_iff.mp hadd
  refine ⟨hsound, ?_, ?_⟩
  · rw [overwritings_concat, ← haccounted.overwritten, List.nil_append]
    generalize lastDeclaration? done declaration.name = last,
      progress.events.get? declaration.name = previous at hevents
    cases hevents with
    | none => rfl
    | some hgives =>
      rw [Option.map_some, Option.map_some, hgives.event]
      rfl
  · have hinsert := progress.events.length_insert declaration.name
      (Event.ofSchema declaration.name schema declaration.document.path)
    have hcount := haccounted.count
    simp only [List.length_append, Option.toList_map, List.length_map, List.length_singleton]
    omega

/-! ### What is kept -/

/-- Every step ends where the next one starts, the last one at the last item. -/
theorem getLast?_zipWith_tail {α β : Type} {f : α → α → β} {items : List α} {step : β}
    (hstep : (List.zipWith f items items.tail).getLast? = some step) :
    ∃ first last, items.getLast? = some last ∧ step = f first last := by
  induction items using List.reverseRecOn with
  | nil => cases hstep
  | append_singleton items item _ =>
    rw [zipWith_tail_concat] at hstep
    cases hlast : items.getLast? with
    | none =>
      rw [List.getLast?_eq_none_iff.mp hlast] at hstep
      cases hstep
    | some first =>
      rw [hlast, Option.map_some, Option.toList_some, List.getLast?_concat] at hstep
      exact ⟨first, item, List.getLast?_concat, (Option.some_injective _ hstep).symm⟩

section Accounts

variable {start : Resolver} {done : List Declaration} {progress : Progress}

theorem lastDeclaration?_eq_none_iff :
    lastDeclaration? done name = none ↔ name ∉ done.map Declaration.name := by
  simp [lastDeclaration?]

/-- The names that have an event are the declared ones. -/
theorem Progress.Sound.keys_perm (hsound : progress.Sound start done) :
    progress.events.keys.Perm (done.map Declaration.name).dedup := by
  refine (List.perm_ext_iff_of_nodup hsound.unique (List.nodup_dedup _)).mpr fun name ↦ ?_
  rw [List.mem_dedup, ← not_iff_not, ← lastDeclaration?_eq_none_iff, ← Entries.get?_eq_none_iff]
  have hevents := hsound.events name
  generalize lastDeclaration? done name = last, progress.events.get? name = event at hevents ⊢
  cases hevents <;> simp

/-- Every event has the name that it is kept under. -/
theorem Progress.Sound.map_name (hsound : progress.Sound start done) :
    progress.events.values.map Event.name = progress.events.keys := by
  rw [Entries.values, Entries.keys, List.map_map]
  refine List.map_congr_left fun entry hentry ↦ ?_
  obtain ⟨-, -, -, hname⟩ := hsound.exists_of_mem hentry
  exact hname

/-- There is one event for each declared name. -/
theorem Progress.Sound.names_perm (hsound : progress.Sound start done) :
    (progress.toEventSet.events.map Event.name).Perm (done.map Declaration.name).dedup := by
  have hnames := (List.mergeSort_perm progress.events.values fun a b ↦ b.name ≤ a.name).map
    Event.name
  rw [hsound.map_name] at hnames
  exact hnames.trans hsound.keys_perm

theorem Progress.Sound.pairwise_events (hsound : progress.Sound start done) :
    progress.toEventSet.events.Pairwise fun a b ↦ b.name < a.name := by
  have hsorted : progress.toEventSet.events.Pairwise fun a b ↦ b.name ≤ a.name := by
    refine (List.pairwise_mergeSort ?_ ?_ _).imp of_decide_eq_true
    · intro a b c hab hbc
      exact decide_eq_true (le_trans (of_decide_eq_true hbc) (of_decide_eq_true hab))
    · intro a b
      rw [Bool.or_eq_true, decide_eq_true_iff, decide_eq_true_iff]
      exact le_total b.name a.name
  have hnames := hsound.names_perm.nodup_iff.mpr (List.nodup_dedup _)
  rw [List.Nodup, List.pairwise_map] at hnames
  exact (hsorted.and hnames).imp fun ⟨hle, hne⟩ ↦ lt_of_le_of_ne hle hne.symm

/-- All that is kept of the declarations of some documents, and all that gives way: an event for
each declared name, which the last document that declares it gives, and a record for each other
declaration. The records of a name lead from each document that declares it to the next one. -/
structure Accounts (start : Resolver) (documents : List Document) (set : EventSet) : Prop where
  descending : set.events.Pairwise fun a b ↦ b.name < a.name
  declared (name : String) :
    (∃ event ∈ set.events, event.name = name) ↔ ∃ document, document ∈ declaring documents name
  last {event : Event} (hevent : event ∈ set.events) : ∃ document schema,
    (declaring documents event.name).getLast? = some document ∧
    document.events.get? event.name = some schema ∧
    (start.resolve (.ofJson schema) document.root document.path).1 = .ok event.schema ∧
    event = Event.ofSchema event.name event.schema document.path
  records : set.overwritten = overwritings [] (declarations documents)
  chain (name : String) : set.overwritten.filter (fun record ↦ record.event = name) =
    List.zipWith (Overwritten.mk name) ((declaring documents name).map Document.path)
      ((declaring documents name).map Document.path).tail
  ends {event : Event} (hevent : event ∈ set.events) {record : Overwritten}
    (hrecord : (set.overwritten.filter fun record ↦ record.event = event.name).getLast? =
      some record) : record.replacement = event.source
  count : set.overwritten.length + ((declarations documents).map Declaration.name).dedup.length =
    (declarations documents).length

theorem Progress.Accounted.accounts
    (hunique : ∀ document ∈ documents, Entries.Unique document.events)
    (haccounted : progress.Accounted start (declarations documents)) :
    Accounts start documents progress.toEventSet where
  descending := haccounted.sound.pairwise_events
  declared name := by
    rw [← List.mem_map, haccounted.sound.names_perm.mem_iff, List.mem_dedup,
      ← filter_declarations hunique]
    simp
  last := by
    intro event hevent
    obtain ⟨declaration, hlast, hgives⟩ := haccounted.sound.exists_of_mem_toEventSet hevent
    have hname := name_of_lastDeclaration? hlast
    refine ⟨declaration.document, declaration.schema, ?_, get?_of_lastDeclaration? hunique hlast,
      hgives.resolve, ?_⟩
    · rw [getLast?_declaring hunique, hlast, Option.map_some]
    · rw [← hname]
      exact hgives.event
  records := haccounted.overwritten
  chain name := by
    have hrecords := filter_overwritings (declarations documents) name
    rw [← haccounted.overwritten] at hrecords
    rw [← filter_declarations hunique, List.map_map]
    exact hrecords
  ends := by
    intro event hevent record hrecord
    obtain ⟨declaration, hlast, hgives⟩ := haccounted.sound.exists_of_mem_toEventSet hevent
    have hrecords := filter_overwritings (declarations documents) event.name
    rw [← haccounted.overwritten] at hrecords
    rw [show progress.toEventSet.overwritten = progress.overwritten from rfl, hrecords] at hrecord
    obtain ⟨first, last, hpath, rfl⟩ := getLast?_zipWith_tail hrecord
    rw [List.getLast?_map, ← lastDeclaration?_eq, hlast, Option.map_some] at hpath
    rw [hgives.event]
    exact (Option.some_injective _ hpath).symm
  count := by
    rw [← haccounted.count, ← haccounted.sound.keys_perm.length_eq, Entries.keys, List.length_map]
    rfl

end Accounts

/-- A load keeps the last declaration of each event and accounts for all others. -/
theorem accounts_of_load {paths : List Path} {source : Source} {set : EventSet}
    (hload : load paths source = .ok set) :
    ∃ documents, Reads paths source documents ∧
      Accounts (registered source documents) documents set := by
  obtain ⟨documents, progress, hread, hprogress, rfl⟩ := load_eq_ok_iff.mp hload
  have hreads := reads_of_mapM hread
  have haccounted : progress.Accounted (registered source documents)
      ([] ++ declarations documents) :=
    foldlM_add Progress.Accounted.add ⟨.start _, rfl, rfl⟩ hprogress
  exact ⟨documents, hreads, haccounted.accounts (unique_of_reads hreads)⟩

/-! ### An event declared twice -/

/-- Two documents that declare the same event. -/
def twiceSource : Source where
  files := [(⟨"a.json"⟩, "\x7b\"events\":\x7b\"login\":\x7b\x7d\x7d\x7d"),
    (⟨"b.json"⟩, "\x7b\"events\":\x7b\"login\":\x7b\x7d\x7d\x7d")]

def twiceSet : EventSet where
  events := [Event.ofSchema "login" (.any (.object [])) ⟨"b.json"⟩]
  overwritten := [⟨"login", ⟨"a.json"⟩, ⟨"b.json"⟩⟩]

theorem Progress.add_empty (progress : Progress) (document : Document) (name : String) :
    progress.add ⟨document, name, .object []⟩ = .ok
      { resolver := progress.resolver
        events := progress.events.insert name
          (Event.ofSchema name (.any (.object [])) document.path)
        overwritten := progress.overwritten ++ ((progress.events.get? name).map fun previous ↦
          ⟨name, previous.source, document.path⟩).toList } := by
  rw [Progress.add_eq_ok_iff]
  exact ⟨.any (.object []), by rw [resolve_empty], by rw [resolve_empty]⟩

theorem load_twice : load [⟨"a.json"⟩, ⟨"b.json"⟩] twiceSource = .ok twiceSet := by
  have horder : Path.rank ⟨"a.json"⟩ < Path.rank ⟨"b.json"⟩ := Path.lt_iff.mp (by decide +kernel)
  have hparse : Json.parse "\x7b\"events\":\x7b\"login\":\x7b\x7d\x7d\x7d" =
    .ok loginRoot := by cbv
  have hread : (distinctPaths [⟨"a.json"⟩, ⟨"b.json"⟩]).mapM (readDocument twiceSource) =
      .ok [⟨⟨"a.json"⟩, loginRoot⟩, ⟨⟨"b.json"⟩, loginRoot⟩] :=
    mapM_readDocument (List.pairwise_pair.mpr horder)
      (.cons (readDocument_of_json rfl (by decide) hparse rfl)
        (.cons (readDocument_of_json rfl (by decide) hparse rfl) .nil))
  refine load_eq_ok_iff.mpr ⟨_, ⟨registered twiceSource [⟨⟨"a.json"⟩, loginRoot⟩,
    ⟨⟨"b.json"⟩, loginRoot⟩], [("login", Event.ofSchema "login" (.any (.object [])) ⟨"b.json"⟩)],
    [⟨"login", ⟨"a.json"⟩, ⟨"b.json"⟩⟩]⟩, hread, ?_, ?_⟩
  · exact bind_eq_ok.mpr ⟨_, Progress.add_empty _ _ _, bind_eq_ok.mpr
      ⟨_, Progress.add_empty _ _ _, rfl⟩⟩
  · rw [Progress.toEventSet, Entries.values, List.map_singleton, List.mergeSort_singleton]
    rfl

/-- The first of the two declarations of an event is the one that gives way. -/
theorem accounts_of_load_twice :
    load [⟨"a.json"⟩, ⟨"b.json"⟩] twiceSource = .ok twiceSet ∧ ∃ documents,
      Reads [⟨"a.json"⟩, ⟨"b.json"⟩] twiceSource documents ∧
      Accounts (registered twiceSource documents) documents twiceSet :=
  ⟨load_twice, accounts_of_load load_twice⟩

end EventSchema.EventSet
