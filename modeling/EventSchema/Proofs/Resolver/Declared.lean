import EventSchema.Proofs.Client.Required
import EventSchema.Proofs.Resolver.Agreement
import Mathlib

/-!
# What a composition declares

A composition resolves only if its members do, each as it would on its own, and then to their merge
(`exists_mapM_of_resolve_composition`). So no name is lost that a member declares or requires, and
there are no others (`declared_of_resolve`), if a member counts as what merging takes it for: a
schema of a type without properties has no names, a client's required name may be overlooked, and
what stands beside the members is not read (`unread_beside_members`).
-/

set_option autoImplicit false

namespace EventSchema

open Client (requiredNames)

/-- The names under `properties`, if it is an object. -/
def Json.declaredNames (value : Json) : List String :=
  Entries.keys (((value.get? "properties").bind Json.asObject?).getD [])

/-! ### Names of properties, classified and written -/

theorem Fragment.keys_properties_any (value : Json) :
    (Fragment.any value).properties.keys = value.declaredNames := by
  rw [Fragment.properties, Json.declaredNames]
  cases (value.get? "properties").bind Json.asObject? with
  | none => rfl
  | some entries =>
    change Entries.keys (Fragment.ofMembers entries) = Entries.keys entries
    rw [Fragment.ofMembers_eq_map, Entries.keys, Entries.keys, List.map_map]
    rfl

/-- The names of a map of properties are written under `properties`. -/
theorem Fragment.declaredNames_toJson {properties : Properties} {required : Option (List String)}
    {additional : Option Fragment} {annotations : Fields}
    (htidy : (Fragment.object (some properties) required additional annotations).Tidy) :
    (Fragment.object (some properties) required additional annotations).toJson.declaredNames =
      properties.keys := by
  have hget : Entries.get?
      (Fragment.object (some properties) required additional annotations).written "properties" =
        some (.object (Fragment.toMembers properties)) :=
    htidy.distinct.written.get?_of_mem (Fragment.properties_mem_written ..)
  rw [Fragment.toJson_eq_written htidy.distinct.written (List.cons_ne_nil _ _),
    Json.declaredNames, Json.get?, hget]
  exact Fragment.keys_toMembers properties

section Expansion

variable {library : Library} {root : Json} {current : Path}

/-- What is kept of a typed schema without a map of properties does not expand to one. -/
theorem Fragment.declaredNames_of_none {members annotations : Fields}
    {required : Option (List String)} {additional : Option Fragment}
    (hannotations : ExpandsFields library root current
      (members.filter fun entry ↦ !Fragment.isObjectKeyword entry) annotations)
    (htidy : (Fragment.object none required additional annotations).Tidy) :
    (Fragment.object none required additional annotations).toJson.declaredNames = [] := by
  have hkeyword : Entries.get? (Fragment.object none required additional annotations).keywords
      "properties" = none := by
    cases required <;> cases additional <;> rfl
  rw [Fragment.toJson_eq_written htidy.distinct.written (List.cons_ne_nil _ _),
    Json.declaredNames, Json.get?, Fragment.written, Entries.get?_append, hkeyword, Option.none_or]
  change Entries.keys (((Entries.get? annotations "properties").bind _).getD []) = []
  cases hget : Entries.get? annotations "properties" with
  | none => rfl
  | some value' =>
    obtain ⟨value, hvalue, hexpands⟩ := hannotations.exists_of_get? hget
    have hkept := (List.mem_filter.mp (Entries.mem_of_get? hvalue)).2
    have hobject : value.isObject = false := by
      simpa [Fragment.isObjectKeyword] using hkept
    have hobject' : value'.isObject = false := by
      rw [hexpands.isObject_eq, hobject]
      rintro inner rfl
      cases hobject
    cases value' with
    | object inner => cases hobject'
    | _ => rfl

end Expansion

/-- The properties of what a value expands to are those that are written, unless it is of a type
that has none. -/
theorem Expands.keys_properties {library : Library} :
    ∀ {root current fragment result}, Expands library root current fragment result →
      result.Tidy → result.isOpen = true → ∀ {value}, fragment = .ofJson value →
        result.properties.keys = result.toJson.declaredNames
  | _, _, _, _, .any _, _, _, _, _ => Fragment.keys_properties_any _
  | _, _, _, _, .object hproperties _ hannotations, htidy, _, _, hvalue => by
    obtain ⟨members, rfl, -, -, rfl⟩ := exists_members_of_object hvalue
    cases hproperties with
    | none => exact (Fragment.declaredNames_of_none hannotations htidy).symm
    | some _ => exact (Fragment.declaredNames_toJson htidy).symm
  | _, _, _, _, .dangling _ _, _, _, _, _ => rfl
  | _, _, _, _, .reference _ _ htarget, htidy, hopen, _, _ =>
    htarget.keys_properties htidy hopen rfl
  | _, _, _, _, .composition _, htidy, _, _, _ => (Fragment.declaredNames_toJson htidy).symm

namespace Resolver

/-! ### The members of a composition -/

/-- Members that expand one after the other resolve each on its own: what was resolved before leaves
a resolver alike. -/
theorem mapM_resolve_of_run {r : Resolver} {root : Json} {current : Path} {depth : Nat}
    {members parts : List Fragment} {s t : Resolver} (halike : Alike r s)
    (hrun : (Fragment.expandItems (follow (resolveWithin depth) root current) members).run.run s =
      some (.ok parts, t)) :
    members.mapM (fun member ↦ (r.resolve member root current).1) = .ok parts := by
  induction members generalizing parts s with
  | nil =>
    rw [Fragment.expandItems] at hrun
    cases hrun
    rfl
  | cons member rest ih =>
    rw [Fragment.expandItems] at hrun
    obtain ⟨part, u, hmember, hrun⟩ := ResolveM.exists_of_run_bind_eq_ok hrun
    obtain ⟨more, v, hrest, hrun⟩ := ResolveM.exists_of_run_bind_eq_ok hrun
    rw [ResolveM.run_return, Option.some_inj, Prod.mk.injEq, Except.ok.injEq] at hrun
    obtain ⟨rfl, rfl⟩ := hrun
    have hdeep : (resolveWithin (depth + 1) root current member).run.run s = some (.ok part, u) :=
      hmember
    have hresolve := run_eq_resolve s member root current hdeep
    have hu : Alike s u := by
      have hleft : Alike s (s.resolve member root current).2 := alike_resolve s member root current
      rwa [← hresolve] at hleft
    have hpart : (r.resolve member root current).1 = .ok part := by
      rw [(resolve_of_alike halike member root current).1, ← hresolve]
    rw [List.mapM_cons, hpart, ih (halike.trans hu) hrest]
    rfl

theorem exists_mapM_of_resolve_composition {r : Resolver} {members : List Fragment} {root : Json}
    {current : Path} {schema : Fragment}
    (hresolve : (r.resolve (.composition members) root current).1 = .ok schema) :
    ∃ parts, members.mapM (fun member ↦ (r.resolve member root current).1) = .ok parts ∧
      schema = .mergeAllOf parts := by
  have hrun := run_resolve r (.composition members) root current
  rw [depthLimit, resolveWithin, Fragment.expand] at hrun
  generalize r.resolve (.composition members) root current = answer at hresolve hrun
  obtain ⟨result, t⟩ := answer
  obtain rfl : result = .ok schema := hresolve
  obtain ⟨parts, s, hparts, hrun⟩ := ResolveM.exists_of_run_bind_eq_ok hrun
  rw [ResolveM.run_return, Option.some_inj, Prod.mk.injEq, Except.ok.injEq] at hrun
  obtain ⟨rfl, rfl⟩ := hrun
  exact ⟨parts, mapM_resolve_of_run (.refl r) hparts, rfl⟩

/-! ### No name is lost -/

/-- A composition that resolves has the properties and the required names of its members, as each
resolves on its own, and no others. A member of a type without properties has neither; the names
that are required of the others are those that a client reads, of which some may be overlooked. -/
theorem declared_of_resolve {r : Resolver} {members : Fields} {items : List Json} {root : Json}
    {current : Path} {schema : Fragment} (hlibrary : Library.Distinct r.document?)
    (hroot : root.Distinct) (hmembers : (Json.object members).Distinct)
    (hreference : (Json.object members).reference? = none)
    (hitems : (Json.object members).allOf? = some items)
    (hresolve : (r.resolve (.ofJson (.object members)) root current).1 = .ok schema) :
    (∀ item ∈ items, ∃ part, (r.resolve (.ofJson item) root current).1 = .ok part ∧
        (part.isOpen = true →
          (∀ name ∈ part.toJson.declaredNames, name ∈ schema.properties.keys) ∧
            ∀ name ∈ requiredNames part.toJson, name ∈ schema.required ∨
              Overlooked r.document? name root current item)) ∧
      (∀ name ∈ schema.properties.keys, ∃ item ∈ items, ∃ part,
        (r.resolve (.ofJson item) root current).1 = .ok part ∧ part.isOpen = true ∧
          name ∈ part.toJson.declaredNames) ∧
      ∀ name ∈ schema.required, ∃ item ∈ items, ∃ part,
        (r.resolve (.ofJson item) root current).1 = .ok part ∧ part.isOpen = true ∧
          name ∈ requiredNames part.toJson := by
  rw [Fragment.ofJson_eq_composition hreference hitems] at hresolve
  obtain ⟨parts, hparts, rfl⟩ := exists_mapM_of_resolve_composition hresolve
  obtain ⟨value, hget, hvalue⟩ := Option.bind_eq_some_iff.mp hitems
  obtain rfl := Json.asArray?_eq_some_iff.mp hvalue
  have hdistinct (item : Json) (hitem : item ∈ items) : item.Distinct :=
    (hmembers.member (Entries.mem_of_get? hget)).item hitem
  have hkeys (item : Json) (hitem : item ∈ items) (part : Fragment)
      (hpart : (r.resolve (.ofJson item) root current).1 = .ok part)
      (hopen : part.isOpen = true) : part.properties.keys = part.toJson.declaredNames ∧
        ∀ name, name ∈ part.required ↔ name ∈ requiredNames part.toJson ∧
          ¬Overlooked r.document? name root current item := by
    have hexpands := expands_of_resolve hpart
    have htidy := hexpands.tidy hlibrary hroot (Fragment.tidy_ofJson (hdistinct item hitem))
    exact ⟨hexpands.keys_properties htidy hopen rfl,
      fun name ↦ hexpands.mem_required_iff_of_isOpen htidy hopen rfl⟩
  have hnames (name : String) : name ∈ (Fragment.mergeAllOf parts).properties.keys ↔
      ∃ part ∈ parts, name ∈ part.properties.keys := by
    rw [Fragment.keys_properties_mergeAllOf, List.mem_eraseDups, List.mem_flatMap]
  have hrequired (name : String) : name ∈ (Fragment.mergeAllOf parts).required ↔
      ∃ part ∈ parts, name ∈ part.required := by
    rw [Fragment.required_mergeAllOf, List.mem_eraseDups, List.mem_flatMap]
  rw [List.mapM_map] at hparts
  refine ⟨fun item hitem ↦ ?_, fun name hname ↦ ?_, fun name hname ↦ ?_⟩
  · obtain ⟨part, hmem, hpart⟩ := exists_mem_of_mapM hparts hitem
    refine ⟨part, hpart, fun hopen ↦ ?_⟩
    obtain ⟨hproperties, hread⟩ := hkeys item hitem part hpart hopen
    refine ⟨fun name hname ↦ (hnames name).mpr ⟨part, hmem, hproperties ▸ hname⟩, ?_⟩
    intro name hname
    by_cases hover : Overlooked r.document? name root current item
    · exact .inr hover
    · exact .inl ((hrequired name).mpr ⟨part, hmem, (hread name).mpr ⟨hname, hover⟩⟩)
  · obtain ⟨part, hmem, hdeclared⟩ := (hnames name).mp hname
    obtain ⟨item, hitem, hpart⟩ := exists_of_mem_mapM hparts hmem
    have hopen : part.isOpen = true := by
      refine Fragment.isOpen_of_properties fun hnone ↦ ?_
      rw [hnone] at hdeclared
      exact absurd hdeclared List.not_mem_nil
    exact ⟨item, hitem, part, hpart, hopen, (hkeys item hitem part hpart hopen).1 ▸ hdeclared⟩
  · obtain ⟨part, hmem, hneeded⟩ := (hrequired name).mp hname
    obtain ⟨item, hitem, hpart⟩ := exists_of_mem_mapM hparts hmem
    have hopen := Fragment.isOpen_of_mem_required hneeded
    exact ⟨item, hitem, part, hpart, hopen,
      (((hkeys item hitem part hpart hopen).2 name).mp hneeded).1⟩

/-- A composition with names of its own and a member of a type without properties. -/
def besideMembers : Fields :=
  [("properties", .object [("id", .object [])]), ("required", .array [.string "id"]),
    ("allOf", .array [.object [("properties", .object [("x", .object [])])],
      .object [("type", .string "array"), ("properties", .object [("y", .object [])])]])]

def besideSchema : Fragment := .object (some [("x", .any (.object []))]) (some []) none []

theorem resolve_besideMembers :
    (({ source := {} } : Resolver).resolve (.ofJson (.object besideMembers)) .null ⟨"a.json"⟩).1 =
      .ok besideSchema := by cbv

theorem distinct_besideMembers : (Json.object besideMembers).Distinct := by
  have hentry (key : String) {value : Json} (hvalue : value.Distinct) :
      (Json.object [(key, value)]).Distinct := Json.Distinct.empty.insert key hvalue
  have hdeclared (name : String) : (Json.object [(name, .object [])]).Distinct :=
    hentry name .empty
  have hnames : (Json.array [.string "id"]).Distinct :=
    .array (List.forall_mem_singleton.mpr (.string "id"))
  have htyped : (Json.object [("type", .string "array"),
      ("properties", .object [("y", .object [])])]).Distinct :=
    (hentry "type" (.string "array")).insert "properties" (hdeclared "y")
  have hitems : (Json.array [.object [("properties", .object [("x", .object [])])],
      .object [("type", .string "array"), ("properties", .object [("y", .object [])])]]).Distinct :=
    .array (List.forall_mem_cons.mpr
      ⟨hentry "properties" (hdeclared "x"), List.forall_mem_singleton.mpr htyped⟩)
  exact ((hentry "properties" (hdeclared "id")).insert "required" hnames).insert "allOf" hitems

theorem declared_of_resolve_besideMembers :
    Library.Distinct ({ source := {} } : Resolver).document? ∧ Json.null.Distinct ∧
      (Json.object besideMembers).Distinct ∧ (Json.object besideMembers).reference? = none ∧
      "x" ∈ besideSchema.properties.keys := by
  have hlibrary : Library.Distinct ({ source := {} } : Resolver).document? := by
    intro path document hdocument
    cases hdocument
  have hdeclared := declared_of_resolve hlibrary .null distinct_besideMembers rfl rfl
    resolve_besideMembers
  obtain ⟨part, hpart, hnames⟩ := hdeclared.1 _ List.mem_cons_self
  obtain rfl : part = .any (.object [("properties", .object [("x", .object [])])]) := by
    refine Except.ok.inj (hpart.symm.trans ?_)
    cbv
  exact ⟨hlibrary, .null, distinct_besideMembers, rfl, (hnames rfl).1 "x" (by decide)⟩

/-- What stands beside the members is not read, nor what a member of a type without properties
says. -/
theorem unread_beside_members :
    (Json.object besideMembers).reference? = none ∧
      (({ source := {} } : Resolver).resolve (.ofJson (.object besideMembers)) .null
        ⟨"a.json"⟩).1 = .ok besideSchema ∧
      "id" ∈ (Json.object besideMembers).declaredNames ∧
      "id" ∈ requiredNames (.object besideMembers) ∧
      "id" ∉ besideSchema.properties.keys ∧ "id" ∉ besideSchema.required ∧
      ∃ item part, .array [.object [("properties", .object [("x", .object [])])], item] =
          ((Json.object besideMembers).get? "allOf").getD .null ∧
        (({ source := {} } : Resolver).resolve (.ofJson item) .null ⟨"a.json"⟩).1 = .ok part ∧
        "y" ∈ part.toJson.declaredNames ∧ "y" ∉ besideSchema.properties.keys := by
  refine ⟨rfl, resolve_besideMembers, by decide, by decide, by decide, by decide,
    .object [("type", .string "array"), ("properties", .object [("y", .object [])])],
    .array none [("properties", .object [("y", .object [])])], rfl, by cbv, by decide, by decide⟩

end Resolver

end EventSchema
