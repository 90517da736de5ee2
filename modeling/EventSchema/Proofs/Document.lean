import EventSchema.Proofs.Fragment.References
import EventSchema.Proofs.Json.Distinct
import EventSchema.Source

/-!
# Documents of distinct keys

The objects of every document that is read have distinct keys, whether the text is JSON or YAML
(`distinct_of_readContent`).
-/

set_option autoImplicit false

namespace EventSchema

namespace Yaml

/-- The value of a node, if it has one, has distinct keys. -/
def View.Distinct (view : View) : Prop := ∀ value, view.value? = some value → value.Distinct

theorem Scalar.distinct_of_toJson? {scalar : Scalar} {value : Json}
    (hvalue : scalar.toJson? = some value) : value.Distinct := by
  cases value with
  | array items =>
    exfalso
    revert hvalue
    cases scalar <;> simp [toJson?]
    split <;> simp
  | object members =>
    exfalso
    revert hvalue
    cases scalar <;> simp [toJson?]
    split <;> simp
  | null => exact .null
  | bool value => exact .bool value
  | number value => exact .number value
  | string value => exact .string value

theorem mem_putEntry {entries : List (Key × View)} {key : Key} {view : View}
    {entry : Key × View} (hmem : entry ∈ putEntry entries key view) :
    entry ∈ entries ∨ entry.2 = view := by
  rcases List.mem_append.mp hmem with hmem | hmem
  · exact .inl (List.mem_filter.mp hmem).1
  · exact .inr (congrArg Prod.snd (List.mem_singleton.mp hmem))

/-- Pairing makes no views. -/
theorem mem_pairUp {entries : List (Key × View)} {pending : Option View} {views : List View}
    {entry : Key × View} (hmem : entry ∈ pairUp entries pending views) :
    entry ∈ entries ∨ entry.2 ∈ views := by
  fun_induction pairUp entries pending views with
  | case1 entries => exact .inl hmem
  | case2 entries view rest hbad ih => exact (ih hmem).imp_right (List.mem_cons_of_mem _)
  | case3 entries view rest hgood ih => exact (ih hmem).imp_right (List.mem_cons_of_mem _)
  | case4 entries value rest key name hname ih =>
    rcases ih hmem with hmem | hmem
    · apply (mem_putEntry hmem).imp_right
      intro hview
      exact hview ▸ List.mem_cons_self
    · exact .inr (List.mem_cons_of_mem _ hmem)
  | case5 entries value rest key hname ih => exact (ih hmem).imp_right (List.mem_cons_of_mem _)

theorem distinct_foldl_insertSome {entries : List (Key × View)} {members : Fields}
    (hmembers : (Json.object members).Distinct) (hentries : ∀ entry ∈ entries, entry.2.Distinct) :
    (Json.object (entries.foldl
      (fun members (key, view) ↦ Entries.insertSome members key.text view.value?)
      members)).Distinct := by
  induction entries generalizing members with
  | nil => exact hmembers
  | cons entry rest ih =>
    obtain ⟨hentry, hrest⟩ := List.forall_mem_cons.mp hentries
    exact ih (hmembers.insertSome entry.1.text hentry) hrest

theorem distinct_membersOf {views : List View} (hviews : ∀ view ∈ views, view.Distinct) :
    (Json.object (membersOf views)).Distinct := by
  apply distinct_foldl_insertSome .empty
  intro entry hentry
  rcases mem_pairUp hentry with hnone | hview
  · exact absurd hnone List.not_mem_nil
  · exact hviews _ hview

mutual

theorem Node.distinct_view : ∀ node : Node, node.view.Distinct
  | .unfinished, value, hvalue => by
    rw [Node.view] at hvalue
    cases hvalue
  | .empty, value, hvalue => by
    rw [Node.view] at hvalue
    obtain rfl := Option.some.inj hvalue
    exact .null
  | .scalar plain tag text, value, hvalue => by
    rw [Node.view] at hvalue
    exact Scalar.distinct_of_toJson? hvalue
  | .sequence items, value, hvalue => by
    rw [Node.view] at hvalue
    obtain rfl := Option.some.inj hvalue
    refine .array ?_
    intro item hitem
    obtain ⟨view, hview, hitem⟩ := List.mem_filterMap.mp hitem
    exact Node.distinct_viewItems items view hview item hitem
  | .mapping entries, value, hvalue => by
    rw [Node.view] at hvalue
    obtain rfl := Option.some.inj hvalue
    exact distinct_membersOf (Node.distinct_viewEntries entries)

theorem Node.distinct_viewItems : ∀ items : List Node, ∀ view ∈ Node.viewItems items, view.Distinct
  | [], view, hview => by
    rw [Node.viewItems] at hview
    exact absurd hview List.not_mem_nil
  | item :: rest, view, hview => by
    rw [Node.viewItems] at hview
    rcases List.mem_cons.mp hview with rfl | hview
    · exact Node.distinct_view item
    · exact Node.distinct_viewItems rest view hview

theorem Node.distinct_viewEntries : ∀ entries : List (Node × Node),
    ∀ view ∈ Node.viewEntries entries, view.Distinct
  | [], view, hview => by
    rw [Node.viewEntries] at hview
    exact absurd hview List.not_mem_nil
  | (key, value) :: rest, view, hview => by
    rw [Node.viewEntries] at hview
    rcases List.mem_cons.mp hview with rfl | hview
    · exact Node.distinct_view key
    rcases List.mem_cons.mp hview with rfl | hview
    · exact Node.distinct_view value
    · exact Node.distinct_viewEntries rest view hview

end

end Yaml

theorem distinct_of_readYaml {content : String} {value : Json}
    (hread : readYaml content = .ok value) : value.Distinct := by
  unfold readYaml at hread
  split at hread
  · cases hread
  · cases hread
  · rename_i root rest hdocuments
    split at hread
    · rename_i result hroot
      obtain rfl := Except.ok.inj hread
      exact Yaml.Node.distinct_view root result hroot
    · cases hread

theorem distinct_of_readContent {path : Path} {content : String} {value : Json}
    (hread : readContent path content = .ok value) : value.Distinct := by
  rw [readContent] at hread
  split_ifs at hread
  · exact distinct_of_readYaml hread
  · exact Json.distinct_of_parse (mapError_eq_ok.mp hread)

theorem Document.read_eq_ok_iff {path : Path} {content : String} {document : Document} :
    read path content = .ok document ↔ readContent path content = .ok document.root ∧
      checkRoot document.root = .ok () ∧ document.path = path := by
  rw [read, bind_eq_ok]
  constructor
  · rintro ⟨root, hroot, hread⟩
    obtain ⟨⟨⟩, hcheck, hresult⟩ := bind_eq_ok.mp hread
    cases hresult
    exact ⟨hroot, hcheck, rfl⟩
  · rintro ⟨hroot, hcheck, rfl⟩
    exact ⟨document.root, hroot, bind_eq_ok.mpr ⟨(), hcheck, rfl⟩⟩

/-- The events of a document are the members of an object in its root, if there are any. -/
theorem Document.events_eq (document : Document) : document.events = [] ∨
    ∃ members, document.root = .object members ∧
      Entries.get? members "events" = some (.object document.events) := by
  obtain ⟨path, root⟩ := document
  cases root with
  | object members =>
    rw [events, Json.get?]
    cases hget : Entries.get? members "events" with
    | none => exact .inl rfl
    | some value =>
      cases value with
      | object inner => exact .inr ⟨members, rfl, hget⟩
      | _ => exact .inl rfl
  | _ => exact .inl rfl

theorem Document.referenceTexts_subset_of_mem_events {document : Document} {name : String}
    {schema : Json} (hmem : (name, schema) ∈ document.events) :
    schema.referenceTexts ⊆ document.root.referenceTexts := by
  intro text htext
  rcases document.events_eq with hnone | ⟨members, hroot, hevents⟩
  · rw [hnone] at hmem
    exact absurd hmem List.not_mem_nil
  · rw [hroot]
    exact Json.mem_referenceTexts_object.mpr ⟨_, Entries.mem_of_get? hevents,
      .inr (Json.mem_referenceTexts_object.mpr ⟨_, hmem, .inr htext⟩)⟩

theorem Document.distinct_events {document : Document} (hdistinct : document.root.Distinct) :
    (Json.object document.events).Distinct := by
  rcases document.events_eq with hnone | ⟨members, hroot, hevents⟩
  · rw [hnone]
    exact .empty
  · rw [hroot] at hdistinct
    exact hdistinct.member (Entries.mem_of_get? hevents)

theorem Document.distinct_of_mem_events {document : Document} (hdistinct : document.root.Distinct)
    {name : String} {schema : Json} (hmem : (name, schema) ∈ document.events) :
    schema.Distinct := (Document.distinct_events hdistinct).member hmem

theorem Source.distinct_of_document? {source : Source} {path : Path} {document : Json}
    (hdocument : source.document? path = .ok (some document)) : document.Distinct := by
  rw [document?] at hdocument
  split at hdocument
  · cases hdocument
  · cases hdocument
  · obtain ⟨root, hroot, hresult⟩ := map_eq_ok.mp (mapError_eq_ok.mp hdocument)
    cases hresult
    exact distinct_of_readContent hroot

end EventSchema
