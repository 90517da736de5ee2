import EventSchema.Proofs.Fragment.Written
import EventSchema.Proofs.Resolver.Declared
import EventSchema.Proofs.Schema.Permits

/-!
# What a merge accepts

A property of a member, written anew in the merge, accepts what the member lets stand under its name
(`violationsOf_of_mem_properties`), and the schema for further properties what the member knows no
other schema for (`violationsOf_of_additional?`). The merge has the names of all its members, and
keeps nothing else of them: it asks for an object, and does not know their patterns. So of the
values that all members accept it refuses those that are no objects, and objects with an entry that
a member left to a pattern and the merge does not (`OnlyPatterned`), and no others
(`accepts_mergeAllOf`). Both do happen (`refused_of_merge`).
-/

set_option autoImplicit false

namespace EventSchema

open Fragment (mergeAllOf StandsFor)

namespace Schema

variable {fragment part : Fragment} {schema value : Json} {entries : Fields}

/-! ### What a member asks of the entries of an object -/

theorem plain_toJson (htidy : fragment.Tidy) (hclean : ¬fragment.Marked) : fragment.toJson.Plain :=
  ⟨htidy.distinct_toJson, fun hmarked ↦ hclean (Fragment.marked_of_toJson _ hmarked)⟩

theorem violationsOf_standsFor (hstands : part.StandsFor schema) (hplain : schema.Plain) :
    violationsOf part.toJson value = [] ↔ violationsOf schema value = [] := by
  cases hstands with
  | written => exact Iff.rfl
  | classified hpart =>
    subst hpart
    exact violationsOf_restated_iff hplain

theorem isSchema_standsFor (hstands : part.StandsFor schema) (hplain : schema.Plain)
    (hschema : IsSchema schema) : IsSchema part.toJson := by
  cases hstands with
  | written => exact hschema
  | classified hpart =>
    subst hpart
    exact isSchema_restated hschema hplain

/-- The schema has one for the entry of that name, by the name itself or by a pattern of it. -/
def SpeaksOf (schema : Json) (name : String) : Prop :=
  ∃ keywords, schema = .object keywords ∧ schemasFor keywords name ≠ []

section Member

variable {name : String} (htidy : fragment.Tidy) (hplain : fragment.toJson.Plain)

include htidy hplain

/-- A property accepts what the object has under its name, if the fragment accepts the object. -/
theorem violationsOf_of_mem_properties (hentries : Entries.Unique entries)
    (haccepts : violationsOf fragment.toJson (.object entries) = [])
    (hpart : (name, part) ∈ fragment.properties) (hmem : (name, value) ∈ entries) :
    violationsOf part.toJson value = [] := by
  obtain ⟨keywords, declared, schema, hkeywords, hdeclared, hschema, hstands⟩ :=
    htidy.exists_standsFor hpart
  rw [hkeywords] at hplain haccepts
  have hinner :=
    (hplain.member (Entries.mem_of_get? hdeclared)).member (Entries.mem_of_get? hschema)
  rw [violationsOf_standsFor hstands hinner]
  refine (((violationsOf_object_iff hplain hentries).mp haccepts).1 _ hmem).declared schema ?_
  refine mem_schemasFor.mpr (.inl ?_)
  rw [fieldsOf, hdeclared]
  exact hschema

theorem isSchema_of_mem_properties (hschema : IsSchema fragment.toJson)
    (hpart : (name, part) ∈ fragment.properties) : IsSchema part.toJson := by
  obtain ⟨keywords, declared, schema, hkeywords, hdeclared, hdeclares, hstands⟩ :=
    htidy.exists_standsFor hpart
  rw [hkeywords] at hplain hschema
  have hinner :=
    (hplain.member (Entries.mem_of_get? hdeclared)).member (Entries.mem_of_get? hdeclares)
  cases hschema with
  | object hfits hparts =>
    refine isSchema_standsFor hstands hinner (hparts "properties" (.schemasByName false) _ schema
      (by simp [demands]) hdeclared ?_)
    exact List.mem_map_of_mem (Entries.mem_of_get? hdeclares)

/-- What is said of further properties, the object meets under a name that the fragment does not
speak of. -/
theorem violationsOf_of_additional? (hentries : Entries.Unique entries)
    (haccepts : violationsOf fragment.toJson (.object entries) = [])
    (hpart : fragment.additional? = some part) (hsilent : ¬SpeaksOf fragment.toJson name)
    (hmem : (name, value) ∈ entries) : violationsOf part.toJson value = [] := by
  obtain ⟨keywords, schema, hkeywords, hadditional, hstands⟩ :=
    htidy.exists_standsFor_additional hpart
  rw [hkeywords] at hplain haccepts hsilent
  rw [violationsOf_standsFor hstands (hplain.member (Entries.mem_of_get? hadditional))]
  refine (((violationsOf_object_iff hplain hentries).mp haccepts).1 _ hmem).further ?_ schema
    hadditional
  by_contra hspeaks
  exact hsilent ⟨keywords, rfl, hspeaks⟩

theorem isSchema_of_additional? (hschema : IsSchema fragment.toJson)
    (hpart : fragment.additional? = some part) : IsSchema part.toJson := by
  obtain ⟨keywords, schema, hkeywords, hadditional, hstands⟩ :=
    htidy.exists_standsFor_additional hpart
  rw [hkeywords] at hplain hschema
  cases hschema with
  | object hfits hparts =>
    exact isSchema_standsFor hstands (hplain.member (Entries.mem_of_get? hadditional))
      (hparts "additionalProperties" .schema _ schema (by simp [demands]) hadditional
        List.mem_cons_self)

/-- The object has what the fragment requires. -/
theorem contains_of_mem_required (haccepts : violationsOf fragment.toJson (.object entries) = [])
    (hrequired : name ∈ fragment.required) : Entries.contains entries name = true := by
  have hread : ∃ keywords items, fragment.toJson = .object keywords ∧
      Entries.get? keywords "required" = some (.array items) ∧ .string name ∈ items := by
    cases fragment with
    | object properties required additional annotations =>
      cases required with
      | none => exact absurd hrequired List.not_mem_nil
      | some names =>
        have hname := (mem_requiredNames_toJson htidy).mpr hrequired
        rw [Fragment.toJson_eq_written htidy.distinct.written (List.cons_ne_nil _ _)] at hname ⊢
        obtain ⟨items, hget, hitem⟩ := mem_requiredNames_iff.mp hname
        exact ⟨_, items, rfl, hget, hitem⟩
    | any inner =>
      cases inner with
      | object members =>
        obtain ⟨items, hget, hitem, -⟩ := mem_required_any_iff.mp hrequired
        exact ⟨members, items, Fragment.toJson.eq_1 _, hget, hitem⟩
      | _ => exact absurd hrequired List.not_mem_nil
    | _ => exact absurd hrequired List.not_mem_nil
  obtain ⟨keywords, items, hkeywords, hget, hitem⟩ := hread
  rw [hkeywords] at hplain haccepts
  have hnames : requiredViolations (.array items) (.object entries) ⟨[]⟩ = [] :=
    (violationsOf_eq_nil_iff hplain).mp haccepts "required" _ hget
  rw [requiredViolations, List.flatMap_eq_nil_iff] at hnames
  exact demand_eq_nil_iff.mp (hnames name (List.mem_filterMap.mpr ⟨_, hitem, rfl⟩))

end Member

/-! ### What an object schema asks -/

section Written

variable {properties : Properties} {names : List String} {further : Option Fragment}

theorem get?_toMembers (properties : Properties) (name : String) :
    Entries.get? (Fragment.toMembers properties) name =
      (properties.get? name).map Fragment.toJson := by
  rw [Fragment.toMembers_eq_map]
  exact Entries.get?_mapValues Fragment.toJson properties name

theorem mem_written_iff {key : String} {argument : Json} :
    (key, argument) ∈ (Fragment.object (some properties) (some names) further []).written ↔
      (key = "type" ∧ argument = .string "object") ∨
      (key = "properties" ∧ argument = .object (Fragment.toMembers properties)) ∨
      (key = "required" ∧ argument = .array (names.map .string)) ∨
      key = "additionalProperties" ∧ ∃ part, further = some part ∧ argument = part.toJson := by
  cases further <;> simp [Fragment.written, Fragment.keywords, Fragment.kept]

theorem schemasFor_written (name : String) :
    schemasFor (Fragment.object (some properties) (some names) further []).written name =
      ((properties.get? name).map Fragment.toJson).toList := by
  have hproperties : fieldsOf (Fragment.object (some properties) (some names) further []).written
      "properties" = Fragment.toMembers properties := rfl
  have hpatterns : fieldsOf (Fragment.object (some properties) (some names) further []).written
      "patternProperties" = [] := by
    cases further <;> rfl
  rw [schemasFor, hproperties, hpatterns, get?_toMembers]
  exact List.append_nil _

theorem permits_written_iff {entry : String × Json} :
    Permits (Fragment.object (some properties) (some names) further []).written entry ↔
      (∀ part, properties.get? entry.1 = some part → violationsOf part.toJson entry.2 = []) ∧
      (properties.get? entry.1 = none → ∀ part, further = some part →
        violationsOf part.toJson entry.2 = []) := by
  have hadditional : Entries.get? (Fragment.object (some properties) (some names) further
      []).written "additionalProperties" = further.map Fragment.toJson := by
    cases further <;> rfl
  constructor
  · rintro ⟨hdeclared, hfurther⟩
    refine ⟨fun part hpart ↦ hdeclared _ ?_, fun hnone part hpart ↦ hfurther ?_ _ ?_⟩
    · simp [schemasFor_written, hpart]
    · simp [schemasFor_written, hnone]
    · rw [hadditional, hpart]
      rfl
  · rintro ⟨hdeclared, hfurther⟩
    refine ⟨fun schema hschema ↦ ?_, fun hnone argument hget ↦ ?_⟩
    · rw [schemasFor_written, Option.mem_toList, Option.map_eq_some_iff] at hschema
      obtain ⟨part, hpart, rfl⟩ := hschema
      exact hdeclared part hpart
    · rw [hadditional, Option.map_eq_some_iff] at hget
      obtain ⟨part, hpart, rfl⟩ := hget
      refine hfurther ?_ part hpart
      simpa [schemasFor_written] using hnone

/-- An object schema without annotations accepts the objects with the required names in which every
entry is accepted by the property of its name, or if there is none by what is said of further
properties. -/
theorem violationsOf_written_iff (hvalue : value.Distinct)
    (htidy : (Fragment.object (some properties) (some names) further []).Tidy)
    (hplain : (Fragment.object (some properties) (some names) further []).toJson.Plain) :
    violationsOf (Fragment.object (some properties) (some names) further []).toJson value = [] ↔
      ∃ entries, value = .object entries ∧
        (∀ name ∈ names, Entries.contains entries name = true) ∧
        ∀ entry ∈ entries,
          (∀ part, properties.get? entry.1 = some part → violationsOf part.toJson entry.2 = []) ∧
          (properties.get? entry.1 = none → ∀ part, further = some part →
            violationsOf part.toJson entry.2 = []) := by
  rw [Fragment.toJson_eq_written htidy.distinct.written (List.cons_ne_nil _ _)] at hplain ⊢
  have hrequired (entries : Fields) :
      requiredViolations (.array (names.map .string)) (.object entries) ⟨[]⟩ = [] ↔
        ∀ name ∈ names, Entries.contains entries name = true := by
    have hstrings : (names.map Json.string).filterMap Json.asString? = names := by
      rw [List.filterMap_map]
      exact List.filterMap_some
    rw [requiredViolations, List.flatMap_eq_nil_iff, hstrings]
    simp only [demand_eq_nil_iff]
  constructor
  · intro haccepts
    have hkeywords := (violationsOf_eq_nil_iff hplain).mp haccepts
    have hkind : Kind.object.includes value = true :=
      (typeViolations_eq_nil_iff .object).mp (hkeywords "type" _ rfl)
    cases value with
    | object entries =>
      have hpermits := ((violationsOf_object_iff hplain hvalue.unique).mp haccepts).1
      exact ⟨entries, rfl, (hrequired entries).mp (hkeywords "required" _ rfl),
        fun entry hentry ↦ permits_written_iff.mp (hpermits entry hentry)⟩
    | _ => cases hkind
  · rintro ⟨entries, rfl, hnames, hentries⟩
    refine (violationsOf_object_iff hplain hvalue.unique).mpr
      ⟨fun entry hentry ↦ permits_written_iff.mpr (hentries entry hentry),
        fun key argument hkey hget ↦ ?_⟩
    rcases mem_written_iff.mp (Entries.mem_of_get? hget) with
      ⟨rfl, rfl⟩ | ⟨rfl, -⟩ | ⟨rfl, rfl⟩ | ⟨rfl, -⟩
    · exact (typeViolations_eq_nil_iff .object).mpr rfl
    · exact absurd (by decide) hkey
    · exact (hrequired entries).mpr hnames
    · exact absurd (by decide) hkey

theorem hasAbsoluteIdentifier_written
    (htidy : (Fragment.object (some properties) (some names) further []).Tidy) :
    hasAbsoluteIdentifier (Fragment.object (some properties) (some names) further []).toJson =
      true := by
  rw [Fragment.toJson_eq_written htidy.distinct.written (List.cons_ne_nil _ _)]
  cases further <;> rfl

theorem allDistinct_strings {names : List String} (hnodup : names.Nodup) :
    allDistinct (names.map .string) = true := by
  induction names with
  | nil => rfl
  | cons name rest ih =>
    rw [List.nodup_cons] at hnodup
    rw [List.map_cons, allDistinct, ih hnodup.2, Bool.and_true, Bool.not_eq_true', List.any_map,
      List.any_eq_false]
    intro other hother hequal
    rw [Function.comp, equal, beq_iff_eq] at hequal
    exact hnodup.1 (hequal ▸ hother)

/-- An object schema without annotations is a schema if its parts are. -/
theorem isSchema_written (hnames : names.Nodup)
    (htidy : (Fragment.object (some properties) (some names) further []).Tidy)
    (hproperties : ∀ entry ∈ properties, IsSchema entry.2.toJson)
    (hfurther : ∀ part, further = some part → IsSchema part.toJson) :
    IsSchema (Fragment.object (some properties) (some names) further []).toJson := by
  rw [Fragment.toJson_eq_written htidy.distinct.written (List.cons_ne_nil _ _)]
  refine .object (fun key demand argument hdemand hget ↦ ?_)
    fun key demand argument part hdemand hget hpart ↦ ?_
  · rcases mem_written_iff.mp (Entries.mem_of_get? hget) with
      ⟨rfl, rfl⟩ | ⟨rfl, rfl⟩ | ⟨rfl, rfl⟩ | ⟨rfl, -⟩
    · obtain rfl := demand_eq hdemand rfl
      rfl
    · rw [demand_eq hdemand rfl]
      rfl
    · obtain rfl := demand_eq hdemand rfl
      rw [Demand.fits, areNames, allDistinct_strings hnames, Bool.and_true, List.all_map]
      exact List.all_eq_true.mpr fun name _ ↦ rfl
    · rw [demand_eq hdemand rfl, Demand.fits]
  · rcases mem_written_iff.mp (Entries.mem_of_get? hget) with
      ⟨rfl, rfl⟩ | ⟨rfl, rfl⟩ | ⟨rfl, rfl⟩ | ⟨rfl, inner, hinner, rfl⟩
    · obtain rfl := demand_eq hdemand rfl
      cases hpart
    · rw [demand_eq hdemand rfl] at hpart
      obtain ⟨entry, hentry, rfl⟩ := List.mem_map.mp hpart
      obtain ⟨inner, hinner, hwritten⟩ := Fragment.mem_toMembers hentry
      rw [hwritten]
      exact hproperties _ hinner
    · obtain rfl := demand_eq hdemand rfl
      cases hpart
    · rw [demand_eq hdemand rfl] at hpart
      obtain rfl := List.mem_singleton.mp hpart
      exact hfurther inner hinner

end Written

/-! ### What a merge accepts of what its members accept -/

section Merge

variable {members : List Fragment}

/-- No member declares the name, and the last member with a schema for further properties does not
ask that of the name: it has schemas for it, by a pattern. -/
structure OnlyPatterned (members : List Fragment) (name : String) (further : Fragment) : Prop where
  undeclared : ∀ member ∈ members, name ∉ member.properties.keys
  last : ∃ before last after, members = before ++ last :: after ∧
    last.additional? = some further ∧ (∀ member ∈ after, member.additional? = none) ∧
    SpeaksOf last.toJson name

theorem exists_last_additional {further : Fragment}
    (hfurther : (mergeAllOf members).additional? = some further) :
    ∃ before last after, members = before ++ last :: after ∧ last.additional? = some further ∧
      ∀ member ∈ after, member.additional? = none := by
  rw [Fragment.additional?_mergeAllOf, List.findSome?_eq_some_iff] at hfurther
  obtain ⟨after, last, before, hmembers, hlast, hafter⟩ := hfurther
  refine ⟨before.reverse, last, after.reverse, ?_, hlast, ?_⟩
  · rw [← List.reverse_reverse members, hmembers]
    simp
  · simpa using hafter

theorem additional?_mergeAllOf_of_last (before : List Fragment) {after : List Fragment}
    {last further : Fragment} (hlast : last.additional? = some further)
    (hafter : ∀ member ∈ after, member.additional? = none) :
    (mergeAllOf (before ++ last :: after)).additional? = some further := by
  rw [Fragment.additional?_mergeAllOf, List.findSome?_eq_some_iff]
  exact ⟨after.reverse, last, before.reverse, by simp, hlast, by simpa using hafter⟩

theorem get?_properties_mergeAllOf_eq_none_iff {name : String} :
    (mergeAllOf members).properties.get? name = none ↔
      ∀ member ∈ members, name ∉ member.properties.keys := by
  rw [Entries.get?_eq_none_iff, Fragment.keys_properties_mergeAllOf, List.mem_eraseDups,
    List.mem_flatMap]
  simp

/-- Of what its members accept a merge refuses all but objects, and those with an entry that only a
pattern speaks of, where further properties are refused. -/
theorem violationsOf_mergeAllOf_iff (htidy : ∀ member ∈ members, member.Tidy)
    (hclean : ∀ member ∈ members, ¬member.Marked) (hvalue : value.Distinct)
    (haccepts : ∀ member ∈ members, violationsOf member.toJson value = []) :
    violationsOf (mergeAllOf members).toJson value = [] ↔
      ∃ entries, value = .object entries ∧ ∀ entry ∈ entries, ∀ further,
        OnlyPatterned members entry.1 further → violationsOf further.toJson entry.2 = [] := by
  have hmerged := Fragment.tidy_mergeAllOf htidy
  have hplain : (mergeAllOf members).toJson.Plain := by
    refine plain_toJson hmerged fun hmarked ↦ ?_
    obtain ⟨member, hmem, hmarked⟩ := Fragment.marked_of_mergeAllOf hmarked
    exact hclean member hmem hmarked
  have hmember (member : Fragment) (hmem : member ∈ members) :=
    plain_toJson (htidy member hmem) (hclean member hmem)
  rw [show violationsOf (mergeAllOf members).toJson value = [] ↔ _ from
    violationsOf_written_iff hvalue hmerged hplain]
  constructor
  · rintro ⟨entries, rfl, -, hentries⟩
    refine ⟨entries, rfl, fun entry hentry further honly ↦ ?_⟩
    obtain ⟨before, last, after, rfl, hlast, hafter, -⟩ := honly.last
    exact (hentries entry hentry).2 (get?_properties_mergeAllOf_eq_none_iff.mpr honly.undeclared)
      further (additional?_mergeAllOf_of_last before hlast hafter)
  · rintro ⟨entries, rfl, hentries⟩
    have hunique := hvalue.unique
    refine ⟨entries, rfl, fun name hname ↦ ?_, fun entry hentry ↦ ⟨fun part hpart ↦ ?_,
      fun hnone further hfurther ↦ ?_⟩⟩
    · have hrequired : name ∈ (mergeAllOf members).required := hname
      rw [Fragment.required_mergeAllOf, List.mem_eraseDups, List.mem_flatMap] at hrequired
      obtain ⟨member, hmem, hrequired⟩ := hrequired
      exact contains_of_mem_required (htidy member hmem) (hmember member hmem)
        (haccepts member hmem) hrequired
    · obtain ⟨member, hmem, hproperty⟩ :=
        (Fragment.Merged.From.foldl members).properties _ (Entries.mem_of_get? hpart)
      exact violationsOf_of_mem_properties (htidy member hmem) (hmember member hmem) hunique
        (haccepts member hmem) hproperty hentry
    · obtain ⟨before, last, after, rfl, hlast, hafter⟩ := exists_last_additional hfurther
      by_cases hspeaks : SpeaksOf last.toJson entry.1
      · exact hentries entry hentry further ⟨get?_properties_mergeAllOf_eq_none_iff.mp hnone,
          before, last, after, rfl, hlast, hafter, hspeaks⟩
      · have hmem : last ∈ before ++ last :: after := by simp
        exact violationsOf_of_additional? (htidy last hmem) (hmember last hmem) hunique
          (haccepts last hmem) hlast hspeaks hentry

theorem isSchema_mergeAllOf (htidy : ∀ member ∈ members, member.Tidy)
    (hclean : ∀ member ∈ members, ¬member.Marked)
    (hschemas : ∀ member ∈ members, IsSchema member.toJson) :
    IsSchema (mergeAllOf members).toJson := by
  have hfrom := Fragment.Merged.From.foldl members
  have hmember (member : Fragment) (hmem : member ∈ members) :=
    plain_toJson (htidy member hmem) (hclean member hmem)
  refine isSchema_written (Fragment.nodup_required_mergeAllOf members)
    (Fragment.tidy_mergeAllOf htidy) (fun entry hentry ↦ ?_) fun part hpart ↦ ?_
  · obtain ⟨member, hmem, hproperty⟩ := hfrom.properties entry hentry
    exact isSchema_of_mem_properties (htidy member hmem) (hmember member hmem)
      (hschemas member hmem) hproperty
  · obtain ⟨member, hmem, hadditional⟩ := hfrom.additional part hpart
    exact isSchema_of_additional? (htidy member hmem) (hmember member hmem)
      (hschemas member hmem) hadditional

end Merge

theorem root_of_ofJson {root : Json} {accepted : Schema}
    (haccepted : Schema.ofJson root = .ok accepted) : accepted.root = root := by
  rw [Schema.ofJson] at haccepted
  split_ifs at haccepted
  split at haccepted
  · exact (Except.ok.inj haccepted) ▸ rfl
  · cases haccepted

end Schema

namespace Fragment

open Schema (IsSchema OnlyPatterned violationsOf hasAbsoluteIdentifier)

/-- The fragment is written as a schema, and that accepts the value. -/
def Accepts (fragment : Fragment) (value : Json) : Prop :=
  ∃ schema, Schema.ofJson fragment.toJson = .ok schema ∧ schema.accepts value = true

theorem accepts_iff {fragment : Fragment} {value : Json} : fragment.Accepts value ↔
    (hasAbsoluteIdentifier fragment.toJson = true ∧ IsSchema fragment.toJson) ∧
      violationsOf fragment.toJson value = [] := by
  rw [← Schema.exists_ofJson_iff]
  constructor
  · rintro ⟨schema, hschema, haccepts⟩
    rw [Schema.accepts, Schema.violations, Schema.root_of_ofJson hschema,
      List.isEmpty_iff] at haccepts
    exact ⟨⟨schema, hschema⟩, haccepts⟩
  · rintro ⟨⟨schema, hschema⟩, haccepts⟩
    refine ⟨schema, hschema, ?_⟩
    rwa [Schema.accepts, Schema.violations, Schema.root_of_ofJson hschema, List.isEmpty_iff]

/-- The merge of resolved members is a schema if they are. Of the values that all of them accept it
refuses those that are no objects, and the objects with an entry that no member declares and the
last one with a schema for further properties only knows by a pattern, where that schema refuses it;
and no others. A composition that resolves to these members resolves to their merge. -/
theorem accepts_mergeAllOf {members : List Fragment} {value : Json}
    (hmembers : ∀ member ∈ members, member.Tidy ∧ member.IsResolved) (hvalue : value.Distinct)
    (haccepts : ∀ member ∈ members, member.Accepts value) :
    (∃ merged, Schema.ofJson (mergeAllOf members).toJson = .ok merged) ∧
      ((mergeAllOf members).Accepts value ↔
        ∃ entries, value = .object entries ∧ ∀ entry ∈ entries, ∀ further,
          OnlyPatterned members entry.1 further → violationsOf further.toJson entry.2 = []) ∧
      ∀ (r : Resolver) (root : Json) (current : Path) (parts : List Fragment) (schema : Fragment),
        parts.mapM (fun part ↦ (r.resolve part root current).1) = .ok members →
          (r.resolve (.composition parts) root current).1 = .ok schema →
            schema = mergeAllOf members := by
  have htidy (member : Fragment) (hmem : member ∈ members) : member.Tidy := (hmembers member hmem).1
  have hclean (member : Fragment) (hmem : member ∈ members) : ¬member.Marked :=
    (htidy member hmem).isResolved_iff.mp (hmembers member hmem).2
  have hidentifier : hasAbsoluteIdentifier (mergeAllOf members).toJson = true :=
    Schema.hasAbsoluteIdentifier_written (tidy_mergeAllOf htidy)
  have hschema : IsSchema (mergeAllOf members).toJson :=
    Schema.isSchema_mergeAllOf htidy hclean fun member hmem ↦
      (accepts_iff.mp (haccepts member hmem)).1.2
  refine ⟨Schema.exists_ofJson_iff.mpr ⟨hidentifier, hschema⟩, ?_, ?_⟩
  · rw [accepts_iff, and_iff_right ⟨hidentifier, hschema⟩]
    exact Schema.violationsOf_mergeAllOf_iff htidy hclean hvalue fun member hmem ↦
      (accepts_iff.mp (haccepts member hmem)).2
  · intro r root current parts schema hparts hresolve
    obtain ⟨others, hothers, rfl⟩ := Resolver.exists_mapM_of_resolve_composition hresolve
    rw [Except.ok.inj (hparts.symm.trans hothers)]

theorem accepts_of_check {fragment : Fragment} {value : Json}
    (hidentifier : hasAbsoluteIdentifier fragment.toJson = true)
    (hschema : Schema.checkWithin Schema.metaSchema (8 * fragment.toJson.weight) Schema.metaSchema
      fragment.toJson ⟨[]⟩ = []) (hvalue : violationsOf fragment.toJson value = []) :
    fragment.Accepts value :=
  accepts_iff.mpr ⟨⟨hidentifier, (Schema.decides_isSchema _ _ (Nat.le_refl _) ⟨[]⟩).mp hschema⟩,
    hvalue⟩

/-- A member with a property, and one with a pattern beside a schema for further properties. -/
def patternedMembers : List Fragment :=
  [.object (some [("id", .primitive .string none [])]) (some ["id"]) none [],
    .any (.object [("patternProperties", .object [("^x", .bool true)]),
      ("additionalProperties", .object [("type", .string "string")])])]

def patternedValue : Json :=
  .object [("id", .string "a"), ("x", .string "b"), ("y", .string "c")]

theorem distinct_string : (Json.object [("type", .string "string")]).Distinct :=
  Json.Distinct.empty.insert "type" (.string "string")

theorem tidy_patternedMembers : ∀ member ∈ patternedMembers, member.Tidy := by
  have hproperties : (Json.object [("id", .object [("type", .string "string")])]).Distinct :=
    Json.Distinct.empty.insert "id" distinct_string
  have hnames : (Json.array [.string "id"]).Distinct :=
    .array (List.forall_mem_singleton.mpr (.string "id"))
  have hpatterns : (Json.object [("^x", .bool true)]).Distinct :=
    Json.Distinct.empty.insert "^x" (.bool true)
  have hfirst := ((Json.Distinct.empty.insert "type" (.string "object")).insert "properties"
    hproperties).insert "required" hnames
  exact List.forall_mem_cons.mpr ⟨tidy_ofJson hfirst, List.forall_mem_singleton.mpr
    (.any ((Json.Distinct.empty.insert "patternProperties" hpatterns).insert "additionalProperties"
      distinct_string))⟩

theorem accepts_mergeAllOf_patternedMembers :
    (∀ member ∈ patternedMembers, member.Tidy ∧ member.IsResolved) ∧ patternedValue.Distinct ∧
      (∀ member ∈ patternedMembers, member.Accepts patternedValue) ∧
      (mergeAllOf patternedMembers).Accepts patternedValue := by
  have hresolved : ∀ member ∈ patternedMembers, member.IsResolved :=
    List.forall_mem_cons.mpr ⟨⟨rfl, rfl⟩, List.forall_mem_singleton.mpr ⟨rfl, rfl⟩⟩
  have hmembers : ∀ member ∈ patternedMembers, member.Tidy ∧ member.IsResolved :=
    fun member hmem ↦ ⟨tidy_patternedMembers member hmem, hresolved member hmem⟩
  have hvalue : patternedValue.Distinct :=
    ((Json.Distinct.empty.insert "id" (.string "a")).insert "x" (.string "b")).insert "y"
      (.string "c")
  have haccepts : ∀ member ∈ patternedMembers, member.Accepts patternedValue :=
    List.forall_mem_cons.mpr ⟨accepts_of_check rfl (by decide +kernel) (by decide +kernel),
      List.forall_mem_singleton.mpr (accepts_of_check rfl (by decide +kernel) (by decide +kernel))⟩
  refine ⟨hmembers, hvalue, haccepts, ?_⟩
  refine (accepts_mergeAllOf hmembers hvalue haccepts).2.1.mpr ⟨_, rfl, fun entry hentry further
    honly ↦ ?_⟩
  obtain ⟨before, last, after, hsplit, hlast, hafter, -⟩ := honly.last
  have hfurther := Schema.additional?_mergeAllOf_of_last before hlast hafter
  rw [← hsplit] at hfurther
  obtain rfl : Fragment.primitive .string none [] = further := Option.some.inj hfurther
  simp only [List.mem_cons, List.not_mem_nil, or_false] at hentry
  rcases hentry with rfl | rfl | rfl <;> decide +kernel

/-- A pattern beside a refusal of all further properties. -/
def closedMember : Fragment :=
  .any (.object [("patternProperties", .object [("^x", .bool true)]),
    ("additionalProperties", .bool false)])

/-- A merge accepts objects only, and does not know the patterns of its members. -/
theorem refused_of_merge :
    ((Fragment.primitive .string none []).Tidy ∧ (Fragment.primitive .string none []).IsResolved ∧
      (Fragment.primitive .string none []).Accepts (.string "x") ∧
      ¬(mergeAllOf [.primitive .string none []]).Accepts (.string "x")) ∧
    closedMember.Tidy ∧ closedMember.IsResolved ∧
      closedMember.Accepts (.object [("x", .null)]) ∧
      ¬(mergeAllOf [closedMember]).Accepts (.object [("x", .null)]) := by
  have hpatterns : (Json.object [("^x", .bool true)]).Distinct :=
    Json.Distinct.empty.insert "^x" (.bool true)
  have hclosed : closedMember.Tidy :=
    .any ((Json.Distinct.empty.insert "patternProperties" hpatterns).insert "additionalProperties"
      (.bool false))
  refine ⟨⟨tidy_ofJson distinct_string, ⟨rfl, rfl⟩,
    accepts_of_check rfl (by decide +kernel) (by decide +kernel), fun haccepts ↦ ?_⟩,
    hclosed, ⟨rfl, rfl⟩, accepts_of_check rfl (by decide +kernel) (by decide +kernel),
    fun haccepts ↦ ?_⟩
  · exact absurd (accepts_iff.mp haccepts).2 (by decide +kernel)
  · exact absurd (accepts_iff.mp haccepts).2 (by decide +kernel)

end Fragment

end EventSchema
