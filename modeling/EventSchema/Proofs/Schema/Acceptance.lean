import EventSchema.Proofs.Schema.Restated

/-!
# What a schema without references accepts

If nothing in a schema is a reference, every keyword asks for the same as long as the schemas inside
it ask for the same (`keywordViolations_agree`). So neither the root, nor the place, nor the number
of steps, once that is as large as the schema, decides about what is accepted
(`checkWithin_iff_violationsOf`), and what is written back of the schema accepts the same
(`violationsOf_restated_iff`).
-/

set_option autoImplicit false

namespace EventSchema.Schema

/-! ### What a keyword asks when the schemas inside ask the same -/

/-- One schema under one check and another under another one accept the same values, wherever they
stand. -/
def Agree (check check' : Check) (schema schema' : Json) : Prop :=
  ∀ value place place', check schema value place = [] ↔ check' schema' value place' = []

section Agree

variable {check check' : Check} {schema schema' value : Json} {place place' : Pointer}

theorem Agree.isEmpty (hagree : Agree check check' schema schema') (value : Json)
    (place place' : Pointer) :
    (check schema value place).isEmpty = (check' schema' value place').isEmpty := by
  rw [Bool.eq_iff_iff, List.isEmpty_iff, List.isEmpty_iff]
  exact hagree value place place'

theorem filter_agree {schemas : List Json}
    (hagree : ∀ schema ∈ schemas, Agree check check' schema schema) (value : Json)
    (place place' : Pointer) :
    (schemas.filter fun schema ↦ (check schema value place).isEmpty) =
      schemas.filter fun schema ↦ (check' schema value place').isEmpty :=
  List.filter_congr fun schema hmem ↦ (hagree schema hmem).isEmpty value place place'

theorem flatMap_agree {schemas schemas' : List Json}
    (hagree : List.Forall₂ (Agree check check') schemas schemas') (value : Json)
    (place place' : Pointer) :
    (schemas.flatMap fun schema ↦ check schema value place) = [] ↔
      (schemas'.flatMap fun schema ↦ check' schema value place') = [] := by
  induction hagree with
  | nil => exact Iff.rfl
  | cons hfirst _ ih =>
    rw [List.flatMap_cons, List.flatMap_cons, List.append_eq_nil_iff, List.append_eq_nil_iff, ih,
      hfirst value place place']

theorem eachItem_agree (hagree : Agree check check' schema schema') (items : List Json)
    (index : Nat) : eachItem check schema place index items = [] ↔
      eachItem check' schema' place' index items = [] := by
  induction items generalizing index with
  | nil => exact Iff.rfl
  | cons item rest ih =>
    rw [eachItem, eachItem, List.append_eq_nil_iff, List.append_eq_nil_iff, ih]
    exact and_congr_left' (hagree item _ _)

theorem itemByItem_agree {schemas : List Json}
    (hagree : ∀ schema ∈ schemas, Agree check check' schema schema) (items : List Json)
    (index : Nat) : itemByItem check place index schemas items = [] ↔
      itemByItem check' place' index schemas items = [] := by
  induction schemas generalizing items index with
  | nil => simp [itemByItem]
  | cons schema rest ih =>
    rw [List.forall_mem_cons] at hagree
    cases items with
    | nil => simp [itemByItem]
    | cons item items =>
      rw [itemByItem, itemByItem, List.append_eq_nil_iff, List.append_eq_nil_iff,
        ih hagree.2, hagree.1 item _ _]

end Agree

/-! ### Keywords without schemas: the place does not matter -/

section Everywhere

variable {argument value : Json} {place place' : Pointer}

theorem demand_agree {met : Bool} {cause : Cause} :
    demand met value place cause = [] ↔ demand met value place' cause = [] := by
  rw [demand_eq_nil_iff, demand_eq_nil_iff]

theorem typeViolations_agree :
    typeViolations argument value place = [] ↔ typeViolations argument value place' = [] := by
  unfold typeViolations
  split
  · cases Kind.ofName? _ with
    | none => exact Iff.rfl
    | some kind => exact demand_agree
  · dsimp only
    split
    · exact demand_agree
    · exact demand_agree
  · exact Iff.rfl

theorem enumViolations_agree :
    enumViolations argument value place = [] ↔ enumViolations argument value place' = [] := by
  unfold enumViolations
  split
  · exact demand_agree
  · exact Iff.rfl

theorem boundViolations_agree {test : Int → Int → Bool} {cause : Number → Cause} :
    boundViolations test cause argument value place = [] ↔
      boundViolations test cause argument value place' = [] := by
  unfold boundViolations
  split
  · exact demand_agree
  · exact Iff.rfl

theorem multipleViolations_agree : multipleViolations argument value place = [] ↔
    multipleViolations argument value place' = [] := by
  unfold multipleViolations
  split
  · exact demand_agree
  · exact Iff.rfl

theorem sizeViolations_agree {test : Nat → Nat → Bool} {cause : Nat → Cause}
    {size? : Json → Option Nat} : sizeViolations test cause size? argument value place = [] ↔
      sizeViolations test cause size? argument value place' = [] := by
  unfold sizeViolations
  split
  · exact demand_agree
  · exact Iff.rfl

theorem patternViolations_agree : patternViolations argument value place = [] ↔
    patternViolations argument value place' = [] := by
  unfold patternViolations
  split
  · split
    · exact demand_agree
    · exact Iff.rfl
  · exact Iff.rfl

theorem formatViolations_agree : formatViolations argument value place = [] ↔
    formatViolations argument value place' = [] := by
  unfold formatViolations
  split
  · exact demand_agree
  · exact Iff.rfl

theorem uniqueViolations_agree : uniqueViolations argument value place = [] ↔
    uniqueViolations argument value place' = [] := by
  unfold uniqueViolations
  split
  · exact demand_agree
  · exact Iff.rfl

theorem requiredViolations_agree : requiredViolations argument value place = [] ↔
    requiredViolations argument value place' = [] := by
  unfold requiredViolations
  split
  · simp only [List.flatMap_eq_nil_iff, demand_eq_nil_iff]
  · exact Iff.rfl

end Everywhere

/-! ### Keywords with schemas -/

/-- The two checks agree on all plain schemas up to a weight, written back or not. -/
def AgreeWithin (check check' : Check) (bound : Nat) : Prop :=
  ∀ schema : Json, schema.PlainWithin bound →
    Agree check check' schema schema ∧ Agree check check' schema schema.restated

section Keywords

variable {check check' : Check} {bound : Nat} {keywords keywords' : Fields}
  {argument argument' value : Json} {place place' : Pointer} {key : String}

theorem AgreeWithin.of_restates (hagree : AgreeWithin check check' bound)
    (hwithin : argument.PlainWithin bound) (hrestates : Restates key argument argument')
    (hkey : key ≠ "properties") : Agree check check' argument argument' := by
  cases hrestates with
  | same => exact (hagree argument hwithin).1
  | items | additional => exact (hagree argument hwithin).2
  | properties => exact absurd rfl hkey

theorem AgreeWithin.schemasOf (hagree : AgreeWithin check check' bound)
    (hwithin : argument.PlainWithin bound) :
    ∀ schema ∈ schemasOf argument, Agree check check' schema schema := by
  intro schema hmem
  cases argument with
  | array items => exact (hagree schema (hwithin.item hmem)).1
  | _ => exact absurd hmem List.not_mem_nil

theorem itemsViolations_agree (hagree : AgreeWithin check check' bound)
    (hwithin : argument.PlainWithin bound) (hrestates : Restates "items" argument argument') :
    itemsViolations check argument value place = [] ↔
      itemsViolations check' argument' value place' = [] := by
  have heach := hagree.of_restates hwithin hrestates (by decide)
  cases value with
  | array items =>
    rcases hrestates.eq_or with rfl | ⟨members, members', rfl, rfl⟩
    · cases argument' with
      | array schemas =>
        exact itemByItem_agree (fun schema hmem ↦ (hagree schema (hwithin.item hmem)).1) items 0
      | _ => exact eachItem_agree heach items 0
    · exact eachItem_agree heach items 0
  | _ => simp [itemsViolations]

theorem additionalItemsViolations_agree (hagree : AgreeWithin check check' bound)
    (hwithin : argument.PlainWithin bound)
    (hitems : Option.Rel (Restates "items") (Entries.get? keywords "items")
      (Entries.get? keywords' "items")) :
    additionalItemsViolations check keywords argument value place = [] ↔
      additionalItemsViolations check' keywords' argument value place' = [] := by
  unfold additionalItemsViolations
  generalize Entries.get? keywords "items" = found at hitems ⊢
  generalize Entries.get? keywords' "items" = found' at hitems ⊢
  cases hitems with
  | none => simp
  | @some listed listed' hrestates =>
    rcases hrestates.eq_or with rfl | ⟨members, members', rfl, rfl⟩
    · cases listed' with
      | array schemas =>
        cases value with
        | array items =>
          dsimp only
          split
          · rw [demand_eq_nil_iff, demand_eq_nil_iff]
          · exact eachItem_agree (hagree _ hwithin).1 _ _
        | _ => simp
      | bool allowed => cases allowed <;> simp
      | _ => simp
    · simp

theorem containsViolations_agree (hagree : AgreeWithin check check' bound)
    (hwithin : argument.PlainWithin bound) :
    containsViolations check argument value place = [] ↔
      containsViolations check' argument value place' = [] := by
  cases value with
  | array items =>
    simp only [containsViolations, (hagree argument hwithin).1.isEmpty _ place place',
      demand_eq_nil_iff]
  | _ => simp [containsViolations]

theorem leavesToAdditional_eq
    (hadditional : Option.Rel (Restates "additionalProperties")
      (Entries.get? keywords "additionalProperties")
      (Entries.get? keywords' "additionalProperties")) :
    leavesToAdditional keywords' = leavesToAdditional keywords := by
  unfold leavesToAdditional
  generalize Entries.get? keywords "additionalProperties" = found at hadditional ⊢
  generalize Entries.get? keywords' "additionalProperties" = found' at hadditional ⊢
  cases hadditional with
  | none => rfl
  | some hrestates =>
    rcases hrestates.eq_or with rfl | ⟨members, members', rfl, rfl⟩
    · rfl
    · rfl

theorem memberUnder_agree {schema schema' : Json} (hschema : Agree check check' schema schema')
    (members : Fields) (name : String) :
    (match Entries.get? members name with
      | some member => check schema member (place.push name)
      | none => []) = [] ↔
    (match Entries.get? members name with
      | some member => check' schema' member (place'.push name)
      | none => []) = [] := by
  cases Entries.get? members name with
  | none => exact Iff.rfl
  | some member => exact hschema member _ _

theorem propertiesViolations_agree (hagree : AgreeWithin check check' bound)
    (hleaves : leavesToAdditional keywords' = leavesToAdditional keywords)
    (hwithin : argument.PlainWithin bound) (hrestates : Restates "properties" argument argument') :
    propertiesViolations check keywords argument value place = [] ↔
      propertiesViolations check' keywords' argument' value place' = [] := by
  unfold propertiesViolations
  rw [hleaves]
  cases leavesToAdditional keywords with
  | true => simp
  | false =>
    simp only [Bool.false_eq_true, if_false]
    cases value with
    | object members =>
      rcases hrestates.properties_or with rfl | ⟨declared, rfl, rfl⟩
      · cases argument' with
        | object declared =>
          simp only [List.flatMap_eq_nil_iff]
          exact forall₂_congr fun entry hmem ↦
            memberUnder_agree (hagree _ (hwithin.member hmem)).1 members entry.1
        | _ => simp
      · simp only [List.flatMap_eq_nil_iff, Entries.mapValues, List.forall_mem_map]
        exact forall₂_congr fun entry hmem ↦
          memberUnder_agree (hagree _ (hwithin.member hmem)).2 members entry.1
    | _ => simp

theorem patternPropertiesViolations_agree (hagree : AgreeWithin check check' bound)
    (hleaves : leavesToAdditional keywords' = leavesToAdditional keywords)
    (hwithin : argument.PlainWithin bound) :
    patternPropertiesViolations check keywords argument value place = [] ↔
      patternPropertiesViolations check' keywords' argument value place' = [] := by
  unfold patternPropertiesViolations
  rw [hleaves]
  split_ifs
  · exact Iff.rfl
  · split
    · simp only [List.flatMap_eq_nil_iff]
      exact forall₂_congr fun entry hmem ↦ forall₂_congr fun member _ ↦
        (hagree _ (hwithin.member hmem)).1 member.2 _ _
    · exact Iff.rfl

theorem namesViolations_agree (hagree : AgreeWithin check check' bound)
    (hwithin : argument.PlainWithin bound) :
    namesViolations check argument value place = [] ↔
      namesViolations check' argument value place' = [] := by
  unfold namesViolations
  split
  · rw [demand_eq_nil_iff, demand_eq_nil_iff]
  · simp only [List.flatMap_eq_nil_iff, List.map_eq_nil_iff]
    exact forall₂_congr fun member _ ↦ (hagree _ hwithin).1 _ _ _
  · exact Iff.rfl

theorem dependenciesViolations_agree (hagree : AgreeWithin check check' bound)
    (hwithin : argument.PlainWithin bound) :
    dependenciesViolations check argument value place = [] ↔
      dependenciesViolations check' argument value place' = [] := by
  unfold dependenciesViolations
  split
  · simp only [List.flatMap_eq_nil_iff]
    refine forall₂_congr fun entry hmem ↦ ?_
    split_ifs
    · split
      · exact requiredViolations_agree
      · exact (hagree _ (hwithin.member hmem)).1 _ _ _
    · exact Iff.rfl
  · exact Iff.rfl

/-- The keywords of a plain schema and those that are written back of it. -/
structure Restate (bound : Nat) (keywords keywords' : Fields) : Prop where
  within : (Json.object keywords).PlainWithin (bound + 1)
  unique : Entries.Unique keywords'
  restates : ∀ key, Option.Rel (Restates key) (Entries.get? keywords key)
    (Entries.get? keywords' key)

theorem Restate.refl (hwithin : (Json.object keywords).PlainWithin (bound + 1)) :
    Restate bound keywords keywords := by
  refine ⟨hwithin, hwithin.distinct.unique, fun key ↦ ?_⟩
  cases Entries.get? keywords key with
  | none => exact .none
  | some argument => exact .some (.same key argument)

theorem Restate.within_of_get? (hrestate : Restate bound keywords keywords')
    (hget : Entries.get? keywords key = some argument) : argument.PlainWithin bound := by
  have hmem := Entries.mem_of_get? hget
  have hlt := Nat.lt_of_lt_of_le (Json.weight_lt_of_member hmem) hrestate.within.weight_le
  exact ⟨hrestate.within.toPlain.member hmem, Nat.le_of_lt_succ hlt⟩

theorem Restate.contains_eq (hrestate : Restate bound keywords keywords') (key : String) :
    Entries.contains keywords' key = Entries.contains keywords key := by
  have hrel := hrestate.restates key
  unfold Entries.contains
  generalize Entries.get? keywords key = found at hrel ⊢
  generalize Entries.get? keywords' key = found' at hrel ⊢
  cases hrel <;> rfl

theorem Restate.get?_eq (hrestate : Restate bound keywords keywords') (hitems : key ≠ "items")
    (hadditional : key ≠ "additionalProperties") (hproperties : key ≠ "properties") :
    Entries.get? keywords' key = Entries.get? keywords key := by
  have hrel := hrestate.restates key
  generalize Entries.get? keywords key = found at hrel ⊢
  generalize Entries.get? keywords' key = found' at hrel ⊢
  cases hrel with
  | none => rfl
  | some hrestates => rw [hrestates.eq_of_ne hitems hadditional hproperties]

theorem Restate.within_of_mem (hrestate : Restate bound keywords keywords')
    {entry : String × Json} (hmem : entry ∈ fieldsOf keywords key) :
    entry.2.PlainWithin bound := by
  unfold fieldsOf at hmem
  cases hget : Entries.get? keywords key with
  | none =>
    rw [hget] at hmem
    exact absurd hmem List.not_mem_nil
  | some argument =>
    rw [hget] at hmem
    cases argument with
    | object fields => exact (hrestate.within_of_get? hget).member hmem
    | _ => exact absurd hmem List.not_mem_nil

theorem Restate.get?_declared (hrestate : Restate bound keywords keywords')
    (hagree : AgreeWithin check check' bound) (name : String) :
    Option.Rel (Agree check check') ((fieldsOf keywords "properties").get? name)
      ((fieldsOf keywords' "properties").get? name) := by
  have hwithin (schema : Json) (hget : (fieldsOf keywords "properties").get? name = some schema) :
      Agree check check' schema schema ∧ Agree check check' schema schema.restated :=
    hagree schema (hrestate.within_of_mem (Entries.mem_of_get? hget))
  have hfields : fieldsOf keywords' "properties" = fieldsOf keywords "properties" ∨
      fieldsOf keywords' "properties" =
        Entries.mapValues Json.restated (fieldsOf keywords "properties") := by
    have hrel := hrestate.restates "properties"
    unfold fieldsOf
    generalize Entries.get? keywords "properties" = found at hrel ⊢
    generalize Entries.get? keywords' "properties" = found' at hrel ⊢
    cases hrel with
    | none => exact .inl rfl
    | some hrestates =>
      rcases hrestates.properties_or with rfl | ⟨declared, rfl, rfl⟩
      · exact .inl rfl
      · exact .inr rfl
  rcases hfields with hfields | hfields
  · rw [hfields]
    cases hget : (fieldsOf keywords "properties").get? name with
    | none => exact .none
    | some schema => exact .some (hwithin schema hget).1
  · rw [hfields, Entries.get?_mapValues]
    cases hget : (fieldsOf keywords "properties").get? name with
    | none => exact .none
    | some schema => exact .some (hwithin schema hget).2

theorem Restate.schemasFor (hrestate : Restate bound keywords keywords')
    (hagree : AgreeWithin check check' bound) (name : String) :
    List.Forall₂ (Agree check check') (schemasFor keywords name) (schemasFor keywords' name) := by
  refine List.rel_append ?_ ?_
  · have hrel := hrestate.get?_declared hagree name
    generalize (fieldsOf keywords "properties").get? name = found at hrel ⊢
    generalize (fieldsOf keywords' "properties").get? name = found' at hrel ⊢
    cases hrel with
    | none => exact .nil
    | some hschema => exact .cons hschema .nil
  · have hpatterns : fieldsOf keywords' "patternProperties" =
        fieldsOf keywords "patternProperties" := by
      rw [fieldsOf, fieldsOf, hrestate.get?_eq (by decide) (by decide) (by decide)]
    rw [hpatterns, List.forall₂_same]
    intro schema hmem
    obtain ⟨entry, hentry, rfl⟩ := List.mem_map.mp hmem
    exact (hagree _ (hrestate.within_of_mem (List.mem_filter.mp hentry).1)).1

/-- The entry is further to both or to neither, and the schemas that speak of it ask the same. -/
theorem additionalMember_agree {schemas schemas' : List Json}
    (hschemas : List.Forall₂ (Agree check check') schemas schemas')
    (hargument : Agree check check' argument argument') :
    (match schemas with
      | [] => check argument value place
      | schemas => schemas.flatMap fun schema ↦ check schema value place) = [] ↔
    (match schemas' with
      | [] => check' argument' value place'
      | schemas => schemas.flatMap fun schema ↦ check' schema value place') = [] := by
  cases hschemas with
  | nil => exact hargument value _ _
  | cons hfirst hrest => exact flatMap_agree (.cons hfirst hrest) value _ _

theorem additionalMembers_agree (hrestate : Restate bound keywords keywords')
    (hagree : AgreeWithin check check' bound) (hargument : Agree check check' argument argument')
    (members : Fields) :
    (members.flatMap fun (name, member) ↦
      match schemasFor keywords name with
      | [] => check argument member (place.push name)
      | schemas => schemas.flatMap fun schema ↦ check schema member (place.push name)) = [] ↔
    (members.flatMap fun (name, member) ↦
      match schemasFor keywords' name with
      | [] => check' argument' member (place'.push name)
      | schemas => schemas.flatMap fun schema ↦ check' schema member (place'.push name)) = [] := by
  simp only [List.flatMap_eq_nil_iff]
  exact forall₂_congr fun member _ ↦
    additionalMember_agree (hrestate.schemasFor hagree member.1) hargument

theorem additionalViolations_of_not_object (hvalue : value.asObject? = none) :
    additionalViolations check keywords argument value place = [] := by
  unfold additionalViolations
  split
  · rfl
  · cases hvalue
  · cases hvalue
  · rfl

theorem additionalViolations_agree (hrestate : Restate bound keywords keywords')
    (hagree : AgreeWithin check check' bound) (hwithin : argument.PlainWithin bound)
    (hrestates : Restates "additionalProperties" argument argument') :
    additionalViolations check keywords argument value place = [] ↔
      additionalViolations check' keywords' argument' value place' = [] := by
  have hargument := hagree.of_restates hwithin hrestates (by decide)
  have hschemas := hrestate.schemasFor hagree
  cases value with
  | object members =>
    rcases hrestates.eq_or with rfl | ⟨fields, fields', rfl, rfl⟩
    · cases argument' with
      | bool allowed =>
        cases allowed with
        | true => exact Iff.rfl
        | false =>
          have hempty (name : String) : (Schema.schemasFor keywords' name).isEmpty =
              (Schema.schemasFor keywords name).isEmpty := by
            rw [Bool.eq_iff_iff, List.isEmpty_iff_length_eq_zero, List.isEmpty_iff_length_eq_zero,
              (hschemas name).length_eq]
          simp only [additionalViolations, hrestate.contains_eq, hempty]
          split_ifs
          · rw [List.append_eq_nil_iff, List.append_eq_nil_iff, demand_eq_nil_iff,
              demand_eq_nil_iff, List.flatMap_eq_nil_iff, List.flatMap_eq_nil_iff]
            exact and_congr_left' (forall₂_congr fun member _ ↦
              flatMap_agree (hschemas member.1) member.2 _ _)
          · cases members <;> simp
      | _ => exact additionalMembers_agree hrestate hagree hargument members
    · exact additionalMembers_agree hrestate hagree hargument members
  | _ =>
    rw [additionalViolations_of_not_object rfl, additionalViolations_of_not_object rfl]

theorem branch_agree {branch : Option Json}
    (hbranch : ∀ schema ∈ branch, Agree check check' schema schema) :
    (match branch with
      | some schema => check schema value place
      | none => []) = [] ↔
    (match branch with
      | some schema => check' schema value place'
      | none => []) = [] := by
  cases branch with
  | none => exact Iff.rfl
  | some schema => exact hbranch schema rfl value _ _

theorem conditionViolations_agree (hrestate : Restate bound keywords keywords')
    (hagree : AgreeWithin check check' bound) (hwithin : argument.PlainWithin bound) :
    conditionViolations check keywords argument value place = [] ↔
      conditionViolations check' keywords' argument value place' = [] := by
  have hschema (key : String) (schema : Json) (hget : schema ∈ Entries.get? keywords key) :
      Agree check check' schema schema :=
    (hagree schema (hrestate.within_of_get? hget)).1
  unfold conditionViolations
  rw [hrestate.contains_eq, hrestate.contains_eq,
    (hagree argument hwithin).1.isEmpty value place place']
  dsimp only
  split_ifs
  · exact Iff.rfl
  · rw [hrestate.get?_eq (by decide) (by decide) (by decide)]
    exact branch_agree (hschema "then")
  · rw [hrestate.get?_eq (by decide) (by decide) (by decide)]
    exact branch_agree (hschema "else")

theorem anyOfViolations_agree (hagree : AgreeWithin check check' bound)
    (hwithin : argument.PlainWithin bound) :
    anyOfViolations check argument value place = [] ↔
      anyOfViolations check' argument value place' = [] := by
  have hany : ((schemasOf argument).any fun schema ↦ (check schema value place).isEmpty) =
      (schemasOf argument).any fun schema ↦ (check' schema value place').isEmpty := by
    rw [Bool.eq_iff_iff, List.any_eq_true, List.any_eq_true]
    refine exists_congr fun schema ↦ and_congr_right fun hmem ↦ ?_
    rw [(hagree.schemasOf hwithin schema hmem).isEmpty value place place']
  rw [anyOfViolations, anyOfViolations, hany]
  exact demand_agree

theorem oneOfViolations_agree (hagree : AgreeWithin check check' bound)
    (hwithin : argument.PlainWithin bound) :
    oneOfViolations check argument value place = [] ↔
      oneOfViolations check' argument value place' = [] := by
  rw [oneOfViolations, oneOfViolations, filter_agree (hagree.schemasOf hwithin) value place place']
  split <;> simp

theorem notViolations_agree (hagree : AgreeWithin check check' bound)
    (hwithin : argument.PlainWithin bound) :
    notViolations check argument value place = [] ↔
      notViolations check' argument value place' = [] := by
  rw [notViolations, notViolations, (hagree argument hwithin).1.isEmpty value place place']
  exact demand_agree

/-- A keyword asks the same of a value before and after the schemas inside it are written back. -/
theorem keywordViolations_agree (hrestate : Restate bound keywords keywords')
    (hagree : AgreeWithin check check' bound) (hget : Entries.get? keywords key = some argument)
    (hget' : Entries.get? keywords' key = some argument') :
    keywordViolations check keywords key argument value place = [] ↔
      keywordViolations check' keywords' key argument' value place' = [] := by
  have hwithin := hrestate.within_of_get? hget
  have hrestates : Restates key argument argument' := by
    have hrel := hrestate.restates key
    rw [hget, hget'] at hrel
    cases hrel with
    | some hrestates => exact hrestates
  -- Three keywords may stand with another argument, the rest as they did.
  by_cases hitems : key = "items"
  · subst hitems
    exact itemsViolations_agree hagree hwithin hrestates
  by_cases hadditional : key = "additionalProperties"
  · subst hadditional
    exact additionalViolations_agree hrestate hagree hwithin hrestates
  have hleaves := leavesToAdditional_eq (hrestate.restates "additionalProperties")
  by_cases hproperties : key = "properties"
  · subst hproperties
    exact propertiesViolations_agree hagree hleaves hwithin hrestates
  obtain rfl := hrestates.eq_of_ne hitems hadditional hproperties
  have hself := List.forall₂_same.mpr (hagree.schemasOf hwithin)
  unfold keywordViolations
  split
  · exact typeViolations_agree
  · exact enumViolations_agree
  · exact demand_agree
  · exact boundViolations_agree
  · exact boundViolations_agree
  · exact boundViolations_agree
  · exact boundViolations_agree
  · exact multipleViolations_agree
  · exact sizeViolations_agree
  · exact sizeViolations_agree
  · exact patternViolations_agree
  · exact formatViolations_agree
  · exact absurd rfl hitems
  · exact additionalItemsViolations_agree hagree hwithin (hrestate.restates "items")
  · exact sizeViolations_agree
  · exact sizeViolations_agree
  · exact uniqueViolations_agree
  · exact containsViolations_agree hagree hwithin
  · exact sizeViolations_agree
  · exact sizeViolations_agree
  · exact requiredViolations_agree
  · exact absurd rfl hproperties
  · exact patternPropertiesViolations_agree hagree hleaves hwithin
  · exact absurd rfl hadditional
  · exact namesViolations_agree hagree hwithin
  · exact dependenciesViolations_agree hagree hwithin
  · exact conditionViolations_agree hrestate hagree hwithin
  · exact flatMap_agree hself value place place'
  · exact anyOfViolations_agree hagree hwithin
  · exact oneOfViolations_agree hagree hwithin
  · exact notViolations_agree hagree hwithin
  · exact Iff.rfl

end Keywords

/-! ### What a schema accepts -/

section Check

variable {root root' schema value : Json} {keywords keywords' : Fields} {place : Pointer}
  {bound steps steps' : Nat}

theorem checkWithin_of_ne_reference
    (hnode : ∀ reference, Entries.get? keywords "$ref" ≠ some (.string reference)) :
    checkWithin root (steps + 1) (.object keywords) value place =
      keywords.flatMap fun (key, argument) ↦
        keywordViolations (checkWithin root steps) keywords key argument value place := by
  rw [checkWithin]
  split
  · rename_i reference hreference
    exact absurd hreference (hnode reference)
  · rfl

theorem checkWithin_eq_nil_iff (hunique : Entries.Unique keywords)
    (hnode : ∀ reference, Entries.get? keywords "$ref" ≠ some (.string reference)) :
    checkWithin root (steps + 1) (.object keywords) value place = [] ↔
      ∀ key argument, Entries.get? keywords key = some argument →
        keywordViolations (checkWithin root steps) keywords key argument value place = [] := by
  rw [checkWithin_of_ne_reference hnode, List.flatMap_eq_nil_iff]
  constructor
  · exact fun hnil key argument hget ↦ hnil (key, argument) (Entries.mem_of_get? hget)
  · exact fun hnil entry hmem ↦ hnil entry.1 entry.2 (hunique.get?_of_mem hmem)

theorem ne_reference_of_plain (hplain : (Json.object keywords).Plain) (reference : String) :
    Entries.get? keywords "$ref" ≠ some (.string reference) := fun hget ↦
  hplain.unmarked (.entry (Entries.mem_of_get? hget) (.inl ⟨rfl, rfl⟩))

theorem Restate.agree (hrestate : Restate bound keywords keywords')
    (hplain : (Json.object keywords').Plain)
    (hagree : AgreeWithin (checkWithin root steps) (checkWithin root' steps') bound) :
    Agree (checkWithin root (steps + 1)) (checkWithin root' (steps' + 1)) (.object keywords)
      (.object keywords') := by
  intro value place place'
  rw [checkWithin_eq_nil_iff hrestate.within.distinct.unique
      (ne_reference_of_plain hrestate.within.toPlain),
    checkWithin_eq_nil_iff hrestate.unique (ne_reference_of_plain hplain)]
  refine forall_congr' fun key ↦ ?_
  have hrel := hrestate.restates key
  cases hget : Entries.get? keywords key with
  | none =>
    rw [hget] at hrel
    generalize Entries.get? keywords' key = found' at hrel ⊢
    cases hrel
    exact iff_of_true (fun _ habsent ↦ absurd habsent (by simp)) fun _ habsent ↦
      absurd habsent (by simp)
  | some argument =>
    rw [hget] at hrel
    generalize hget' : Entries.get? keywords' key = found' at hrel
    cases hrel
    simpa using keywordViolations_agree hrestate hagree hget hget'

theorem agree_of_not_object (hschema : schema.asObject? = none) :
    Agree (checkWithin root (steps + 1)) (checkWithin root' (steps' + 1)) schema schema := by
  intro value place place'
  cases schema with
  | object keywords => cases hschema
  | bool allowed => cases allowed <;> simp [checkWithin]
  | _ => simp [checkWithin]

/-- In a plain schema neither the root nor the number of steps decides about what is accepted, once
that is as large as the schema, and neither does writing back. -/
theorem agree_checkWithin (root root' : Json) (hsteps : bound ≤ steps) (hsteps' : bound ≤ steps') :
    AgreeWithin (checkWithin root steps) (checkWithin root' steps') bound := by
  -- The schemas under a keyword are smaller, and are checked with one step less.
  induction bound generalizing steps steps' with
  | zero =>
    intro schema hwithin
    exact absurd hwithin.weight_le (Nat.not_le.mpr schema.weight_pos)
  | succ bound ih =>
    obtain ⟨steps, rfl⟩ := Nat.exists_eq_add_of_le' (Nat.lt_of_lt_of_le bound.succ_pos hsteps)
    obtain ⟨steps', rfl⟩ := Nat.exists_eq_add_of_le' (Nat.lt_of_lt_of_le bound.succ_pos hsteps')
    have hagree := ih (Nat.le_of_succ_le_succ hsteps) (Nat.le_of_succ_le_succ hsteps')
    intro schema hwithin
    cases schema with
    | object keywords =>
      obtain ⟨keywords', hrestated, hunique, hrestates⟩ := exists_restates hwithin.toPlain
      have hplain := hwithin.toPlain.restated
      rw [hrestated] at hplain ⊢
      exact ⟨(Restate.refl hwithin).agree hwithin.toPlain hagree,
        Restate.agree ⟨hwithin, hunique, hrestates⟩ hplain hagree⟩
    | _ =>
      rw [Json.restated_of_not_object rfl]
      exact ⟨agree_of_not_object rfl, agree_of_not_object rfl⟩

/-- A check of a plain schema inside a larger one, with enough steps, accepts what the schema does
by itself. -/
theorem checkWithin_iff_violationsOf (hplain : schema.Plain) (hsteps : schema.weight ≤ steps) :
    checkWithin root steps schema value place = [] ↔ violationsOf schema value = [] := by
  have hown : schema.weight ≤ schema.weight * (value.weight + 1) + 1 :=
    Nat.le_succ_of_le (Nat.le_mul_of_pos_right _ (Nat.succ_pos _))
  exact (agree_checkWithin root schema hsteps hown schema ⟨hplain, Nat.le_refl _⟩).1 value _ _

/-- What is written back of a plain schema accepts the same values. -/
theorem violationsOf_restated_iff (hplain : schema.Plain) :
    violationsOf schema.restated value = [] ↔ violationsOf schema value = [] := by
  have hsteps : schema.weight ≤ schema.restated.weight + schema.weight := Nat.le_add_left _ _
  have hsame := (agree_checkWithin schema schema.restated hsteps hsteps schema
    ⟨hplain, Nat.le_refl _⟩).2 value ⟨[]⟩ ⟨[]⟩
  rw [checkWithin_iff_violationsOf hplain hsteps,
    checkWithin_iff_violationsOf hplain.restated (Nat.le_add_right _ _)] at hsame
  exact hsame.symm

/-- Every schema is a root of its own. -/
def asRoot : Check := fun schema value _ ↦ violationsOf schema value

theorem agreeWithin_asRoot (hsteps : bound ≤ steps) :
    AgreeWithin (checkWithin root steps) asRoot bound := by
  intro schema hwithin
  have hsame (value : Json) (place : Pointer) :
      checkWithin root steps schema value place = [] ↔ violationsOf schema value = [] :=
    checkWithin_iff_violationsOf hwithin.toPlain (Nat.le_trans hwithin.weight_le hsteps)
  exact ⟨fun value place _ ↦ hsame value place,
    fun value place _ ↦ (hsame value place).trans (violationsOf_restated_iff hwithin.toPlain).symm⟩

/-- A plain schema asks for what its keywords do. -/
theorem violationsOf_eq_nil_iff (hplain : (Json.object keywords).Plain) :
    violationsOf (.object keywords) value = [] ↔
      ∀ key argument, Entries.get? keywords key = some argument →
        keywordViolations asRoot keywords key argument value ⟨[]⟩ = [] := by
  have hrestate : Restate (Json.object keywords).weight keywords keywords :=
    .refl ⟨hplain, Nat.le_succ _⟩
  have hsteps : (Json.object keywords).weight ≤
      (Json.object keywords).weight * (value.weight + 1) :=
    Nat.le_mul_of_pos_right _ (Nat.succ_pos _)
  rw [violationsOf, checkWithin_eq_nil_iff hplain.distinct.unique (ne_reference_of_plain hplain)]
  exact forall₃_congr fun key argument hget ↦
    keywordViolations_agree hrestate (agreeWithin_asRoot hsteps) hget hget

end Check

end EventSchema.Schema
