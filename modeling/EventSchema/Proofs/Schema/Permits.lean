import EventSchema.Proofs.Schema.Acceptance

/-!
# What a schema asks of the entries of an object

Three keywords speak of the entries of an object, and share the work in a way that depends on which
of them are there. Together they ask one thing of every entry (`Permits`): it satisfies all schemas
that speak of its name, and the one for further properties if none does. A schema accepts an object
exactly if it permits all entries and its other keywords ask for nothing more
(`violationsOf_object_iff`).
-/

set_option autoImplicit false

namespace EventSchema.Schema

/-- The keywords permit the entry. -/
structure Permits (keywords : Fields) (entry : String × Json) : Prop where
  declared : ∀ schema ∈ schemasFor keywords entry.1, violationsOf schema entry.2 = []
  further : schemasFor keywords entry.1 = [] → ∀ argument,
    Entries.get? keywords "additionalProperties" = some argument →
      violationsOf argument entry.2 = []

section Entries

variable {keywords members : Fields} {argument value : Json} {place : Pointer}

theorem violationsOf_true : violationsOf (.bool true) value = [] := by
  simp [violationsOf, checkWithin]

theorem violationsOf_false : violationsOf (.bool false) value ≠ [] := by
  simp [violationsOf, checkWithin]

theorem permits_iff (hget : Entries.get? keywords "additionalProperties" = some argument)
    {entry : String × Json} : Permits keywords entry ↔
      (match schemasFor keywords entry.1 with
        | [] => asRoot argument entry.2 place
        | schemas => schemas.flatMap fun schema ↦ asRoot schema entry.2 place) = [] := by
  constructor
  · rintro ⟨hdeclared, hfurther⟩
    split
    · rename_i hnone
      exact hfurther hnone argument hget
    · exact List.flatMap_eq_nil_iff.mpr hdeclared
  · intro hnil
    split at hnil
    · rename_i hnone
      refine ⟨by simp [hnone], fun _ other hother ↦ ?_⟩
      obtain rfl := Option.some.inj (hget.symm.trans hother)
      exact hnil
    · rename_i hsome
      exact ⟨List.flatMap_eq_nil_iff.mp hnil, fun hnone ↦ absurd hnone (by simpa using hsome)⟩

theorem permits_members_iff
    (hget : Entries.get? keywords "additionalProperties" = some argument) :
    (members.flatMap fun (name, member) ↦
      match schemasFor keywords name with
      | [] => asRoot argument member (place.push name)
      | schemas => schemas.flatMap fun schema ↦ asRoot schema member (place.push name)) = [] ↔
      ∀ entry ∈ members, Permits keywords entry := by
  rw [List.flatMap_eq_nil_iff]
  exact forall₂_congr fun entry _ ↦ (permits_iff hget).symm

theorem permits_iff_of_false
    (hget : Entries.get? keywords "additionalProperties" = some (.bool false))
    {entry : String × Json} : Permits keywords entry ↔
      (∀ schema ∈ schemasFor keywords entry.1, violationsOf schema entry.2 = []) ∧
        schemasFor keywords entry.1 ≠ [] := by
  constructor
  · exact fun hpermits ↦ ⟨hpermits.declared, fun hnone ↦
      violationsOf_false (hpermits.further hnone _ hget)⟩
  · rintro ⟨hdeclared, hsome⟩
    exact ⟨hdeclared, fun hnone ↦ absurd hnone hsome⟩

theorem schemasFor_of_not_contains (hproperties : Entries.contains keywords "properties" = false)
    (hpatterns : Entries.contains keywords "patternProperties" = false) (name : String) :
    schemasFor keywords name = [] := by
  rw [Entries.contains, Option.isSome_eq_false_iff, Option.isNone_iff_eq_none] at *
  rw [schemasFor, fieldsOf, fieldsOf, hproperties, hpatterns]
  rfl

/-- Where further properties are not all allowed, the keyword for them asks all that is asked of
the entries. -/
theorem additionalViolations_iff
    (hget : Entries.get? keywords "additionalProperties" = some argument)
    (hargument : argument ≠ .bool true) :
    additionalViolations asRoot keywords argument (.object members) place = [] ↔
      ∀ entry ∈ members, Permits keywords entry := by
  cases argument with
  | bool allowed =>
    cases allowed with
    | true => exact absurd rfl hargument
    | false =>
      simp only [additionalViolations, permits_iff_of_false hget]
      split_ifs with hcontains
      · rw [List.append_eq_nil_iff, demand_eq_nil_iff, List.flatMap_eq_nil_iff, List.isEmpty_iff,
          List.filter_eq_nil_iff, ← forall₂_and]
        refine forall₂_congr fun entry _ ↦ and_congr List.flatMap_eq_nil_iff ?_
        rw [List.isEmpty_iff]
      · rw [Bool.not_eq_true, Bool.or_eq_false_iff] at hcontains
        have hnone := schemasFor_of_not_contains hcontains.1 hcontains.2
        cases members with
        | nil => simp
        | cons first rest =>
          exact iff_of_false (List.cons_ne_nil _ _) fun hall ↦
            (hall first List.mem_cons_self).2 (hnone first.1)
  | _ => exact permits_members_iff hget

theorem mem_schemasFor {name : String} {schema : Json} : schema ∈ schemasFor keywords name ↔
    (fieldsOf keywords "properties").get? name = some schema ∨
      ∃ pattern, (pattern, schema) ∈ fieldsOf keywords "patternProperties" ∧
        nameMatches pattern name = true := by
  rw [schemasFor, List.mem_append, Option.mem_toList, List.mem_map]
  refine or_congr_right ⟨?_, ?_⟩
  · rintro ⟨⟨pattern, schema⟩, hmem, rfl⟩
    exact ⟨pattern, List.mem_filter.mp hmem⟩
  · rintro ⟨pattern, hmem⟩
    exact ⟨(pattern, schema), List.mem_filter.mpr hmem, rfl⟩

/-- What is asked of the object under a keyword. -/
theorem forall_argument_iff {key : String} {P : Json → Prop} {Q : Fields → Prop}
    (hobject : ∀ fields, P (.object fields) ↔ Q fields)
    (hother : ∀ argument : Json, argument.asObject? = none → P argument) (hempty : Q []) :
    (∀ argument, Entries.get? keywords key = some argument → P argument) ↔
      Q (fieldsOf keywords key) := by
  rw [fieldsOf]
  cases Entries.get? keywords key with
  | none => exact iff_of_true (fun _ hother ↦ absurd hother (by simp)) hempty
  | some argument =>
    have hself : (∀ other, some argument = some other → P other) ↔ P argument :=
      ⟨fun hall ↦ hall argument rfl, fun hargument _ hother ↦ Option.some.inj hother ▸ hargument⟩
    rw [hself]
    cases argument with
    | object fields => exact hobject fields
    | _ => exact iff_of_true (hother _ rfl) hempty

theorem forall_properties_iff (hleaves : leavesToAdditional keywords = false) :
    (∀ argument, Entries.get? keywords "properties" = some argument →
        propertiesViolations asRoot keywords argument (.object members) place = []) ↔
      ∀ entry ∈ fieldsOf keywords "properties", ∀ member,
        Entries.get? members entry.1 = some member → violationsOf entry.2 member = [] := by
  refine forall_argument_iff
    (Q := fun fields ↦ ∀ entry ∈ fields, ∀ member, Entries.get? members entry.1 = some member →
      violationsOf entry.2 member = [])
    (fun fields ↦ propertiesViolations_eq_nil_iff hleaves) (fun argument hargument ↦ ?_)
    (fun _ hmem ↦ absurd hmem List.not_mem_nil)
  cases argument with
  | object fields => cases hargument
  | _ => simp [propertiesViolations]

theorem forall_patterns_iff (hleaves : leavesToAdditional keywords = false) :
    (∀ argument, Entries.get? keywords "patternProperties" = some argument →
        patternPropertiesViolations asRoot keywords argument (.object members) place = []) ↔
      ∀ entry ∈ fieldsOf keywords "patternProperties", ∀ member ∈ members,
        nameMatches entry.1 member.1 = true → violationsOf entry.2 member.2 = [] := by
  refine forall_argument_iff
    (Q := fun fields ↦ ∀ entry ∈ fields, ∀ member ∈ members,
      nameMatches entry.1 member.1 = true → violationsOf entry.2 member.2 = [])
    (fun fields ↦ ?_) (fun argument hargument ↦ ?_)
    (fun _ hmem ↦ absurd hmem List.not_mem_nil)
  · simp only [patternPropertiesViolations, hleaves, Bool.false_eq_true, if_false,
      List.flatMap_eq_nil_iff, List.forall_mem_filter]
    exact Iff.rfl
  · cases argument with
    | object fields => cases hargument
    | _ => simp [patternPropertiesViolations]

theorem unique_fieldsOf (hplain : (Json.object keywords).Plain) (key : String) :
    Entries.Unique (fieldsOf keywords key) := by
  rw [fieldsOf]
  cases hget : Entries.get? keywords key with
  | none => exact List.nodup_nil
  | some argument =>
    cases argument with
    | object fields => exact (hplain.member (Entries.mem_of_get? hget)).distinct.unique
    | _ => exact List.nodup_nil

/-- Nothing but `false` and an object refuses anything. -/
theorem violationsOf_of_not_leaves (hleaves : leavesToAdditional keywords = false)
    (hget : Entries.get? keywords "additionalProperties" = some argument) :
    violationsOf argument value = [] := by
  rw [leavesToAdditional, hget] at hleaves
  cases argument with
  | bool allowed =>
    cases allowed with
    | true => exact violationsOf_true
    | false => cases hleaves
  | object fields => cases hleaves
  | _ => simp [violationsOf, checkWithin]

theorem ne_true_of_leaves (hleaves : leavesToAdditional keywords = true) : ∃ argument,
    Entries.get? keywords "additionalProperties" = some argument ∧ argument ≠ .bool true := by
  rw [leavesToAdditional] at hleaves
  split at hleaves
  · exact ⟨_, ‹_›, by simp⟩
  · exact ⟨_, ‹_›, by simp⟩
  · cases hleaves

/-- What the three keywords that speak of entries ask for together. -/
theorem entryKeywords_iff (hplain : (Json.object keywords).Plain)
    (hmembers : Entries.Unique members) :
    ((∀ argument, Entries.get? keywords "properties" = some argument →
        propertiesViolations asRoot keywords argument (.object members) place = []) ∧
      (∀ argument, Entries.get? keywords "patternProperties" = some argument →
        patternPropertiesViolations asRoot keywords argument (.object members) place = []) ∧
      ∀ argument, Entries.get? keywords "additionalProperties" = some argument →
        additionalViolations asRoot keywords argument (.object members) place = []) ↔
      ∀ entry ∈ members, Permits keywords entry := by
  cases hleaves : leavesToAdditional keywords with
  | true =>
    -- The keyword for further properties speaks for the other two.
    obtain ⟨argument, hget, hargument⟩ := ne_true_of_leaves hleaves
    have hsilent : ∀ declared patterns, propertiesViolations asRoot keywords declared
        (.object members) place = [] ∧ patternPropertiesViolations asRoot keywords patterns
          (.object members) place = [] := by
      simp [propertiesViolations, patternPropertiesViolations, hleaves]
    rw [← additionalViolations_iff hget hargument, hget]
    constructor
    · exact fun hall ↦ hall.2.2 argument rfl
    · refine fun hnil ↦ ⟨fun declared _ ↦ (hsilent declared .null).1,
        fun patterns _ ↦ (hsilent .null patterns).2, fun other hother ↦ ?_⟩
      rwa [← Option.some.inj hother]
  | false =>
    -- It refuses nothing, and the other two speak for themselves.
    rw [forall_properties_iff hleaves, forall_patterns_iff hleaves]
    constructor
    · rintro ⟨hproperties, hpatterns, -⟩ entry hentry
      refine ⟨fun schema hschema ↦ ?_, fun _ argument hget ↦
        violationsOf_of_not_leaves hleaves hget⟩
      rcases mem_schemasFor.mp hschema with hdeclared | ⟨pattern, hpattern, hmatches⟩
      · exact hproperties _ (Entries.mem_of_get? hdeclared) _ (hmembers.get?_of_mem hentry)
      · exact hpatterns _ hpattern entry hentry hmatches
    · intro hpermits
      refine ⟨fun entry hentry member hmember ↦ ?_, fun pattern hpattern entry hentry hmatches ↦ ?_,
        fun argument hget ↦ ?_⟩
      · exact (hpermits _ (Entries.mem_of_get? hmember)).declared _ (mem_schemasFor.mpr
          (.inl ((unique_fieldsOf hplain "properties").get?_of_mem hentry)))
      · exact (hpermits entry hentry).declared _ (mem_schemasFor.mpr (.inr ⟨_, hpattern, hmatches⟩))
      · by_cases hargument : argument = .bool true
        · rw [hargument, additionalViolations]
        · exact (additionalViolations_iff hget hargument).mpr hpermits

/-- The keywords that speak of the entries of an object. -/
def entryKeywords : List String := ["properties", "patternProperties", "additionalProperties"]

/-- A schema accepts an object if it permits its entries and the other keywords ask for nothing. -/
theorem violationsOf_object_iff (hplain : (Json.object keywords).Plain)
    (hmembers : Entries.Unique members) :
    violationsOf (.object keywords) (.object members) = [] ↔
      (∀ entry ∈ members, Permits keywords entry) ∧
        ∀ key argument, key ∉ entryKeywords → Entries.get? keywords key = some argument →
          keywordViolations asRoot keywords key argument (.object members) ⟨[]⟩ = [] := by
  rw [violationsOf_eq_nil_iff hplain, ← entryKeywords_iff hplain hmembers]
  constructor
  · intro hall
    exact ⟨⟨hall "properties", hall "patternProperties", hall "additionalProperties"⟩,
      fun key argument _ ↦ hall key argument⟩
  · rintro ⟨⟨hproperties, hpatterns, hadditional⟩, hothers⟩ key argument hget
    by_cases hkey : key ∈ entryKeywords
    · simp only [entryKeywords, List.mem_cons, List.not_mem_nil, or_false] at hkey
      rcases hkey with rfl | rfl | rfl
      · exact hproperties argument hget
      · exact hpatterns argument hget
      · exact hadditional argument hget
    · exact hothers key argument hkey hget

end Entries

end EventSchema.Schema
