import EventSchema.Proofs.Json.Blanked
import EventSchema.Proofs.Schema.MetaSchema

/-!
# Null where a schema is wanted

An empty object is a schema, and null is none. So a schema in which null takes the place of some
empty objects (`Json.Blanked`) stays a schema unless null stands where draft 7 wants a schema, or an
object of schemas (`Misplaced`, `isSchema_iff_of_blanked`).
-/

set_option autoImplicit false

namespace EventSchema

namespace Schema

/-- Whether an object is demanded, whose values are schemas. -/
def Demand.wantsObject : Demand → Bool
  | schemasByName _ | dependencies => true
  | _ => false

/-- Null stands where a schema is wanted, or an object of schemas. -/
inductive Misplaced : Json → Prop
  | schema : Misplaced .null
  | object {members : Fields} {key : String} {demand : Demand} (hdemand : (key, demand) ∈ demands)
    (hwants : demand.wantsObject = true) (hget : Entries.get? members key = some .null) :
    Misplaced (.object members)
  | part {members : Fields} {key : String} {demand : Demand} {argument part : Json}
    (hdemand : (key, demand) ∈ demands) (hget : Entries.get? members key = some argument)
    (hpart : part ∈ demand.parts argument) (hinner : Misplaced part) : Misplaced (.object members)

variable {demand : Demand} {filled value part : Json}

theorem Demand.fits_null (hwants : demand.wantsObject = true) : demand.fits .null = false := by
  cases demand with
  | schemasByName _ | dependencies => rfl
  | _ => cases hwants

theorem Misplaced.not_isSchema (hmisplaced : Misplaced value) : ¬IsSchema value := by
  induction hmisplaced with
  | schema => rintro ⟨⟩
  | object hdemand hwants hget =>
    rintro (_ | ⟨hfits, -⟩)
    have hfits := hfits _ _ _ hdemand hget
    rw [Demand.fits_null hwants] at hfits
    cases hfits
  | part hdemand hget hpart _ ih =>
    rintro (_ | ⟨-, hparts⟩)
    exact ih (hparts _ _ _ _ hdemand hget hpart)

/-- Nothing is blanked in a list of strings. -/
theorem eq_of_blanked_strings {items items' : List Json}
    (hblanked : List.Forall₂ Json.Blanked items items') (hstrings : ∀ item ∈ items, isString item) :
    items' = items := by
  induction hblanked with
  | nil => rfl
  | cons hfirst _ ih =>
    rw [List.forall_mem_cons] at hstrings
    rw [ih hstrings.2]
    cases hfirst with
    | string value => rfl
    | _ => exact absurd hstrings.1 (by simp [isString, Json.asString?])

theorem isString_of_isKind (hkind : isKind value = true) : isString value = true := by
  cases value with
  | string text => rfl
  | _ => cases hkind

theorem areNames_of_blanked (hblanked : filled.Blanked value) (hnames : areNames filled = true) :
    areNames value = true := by
  cases hblanked with
  | array hitems =>
    have hstrings := hnames
    rw [areNames, Bool.and_eq_true, List.all_eq_true] at hstrings
    rwa [eq_of_blanked_strings hitems hstrings.1]
  | _ => cases hnames

theorem isArray_of_blanked (hblanked : filled.Blanked value) : isArray value = isArray filled := by
  cases hblanked <;> rfl

/-- A value that meets a demand still does, unless an object is demanded and null is there. -/
theorem fits_of_blanked (hblanked : filled.Blanked value) (hfits : demand.fits filled = true)
    (hnull : value = .null → demand.wantsObject = false) : demand.fits value = true := by
  cases hblanked with
  | blank =>
    have hwants := hnull rfl
    cases demand <;> simp_all [Demand.fits, Demand.wantsObject, areNames, isKind]
  | null | bool _ | number _ | string _ => exact hfits
  | @array items items' hitems =>
    cases demand with
    | names => exact areNames_of_blanked (.array hitems) hfits
    | kinds =>
      have hstrings := hfits
      rw [Demand.fits, Bool.and_eq_true, Bool.and_eq_true, List.all_eq_true] at hstrings
      have hkinds := fun item hitem ↦ isString_of_isKind (hstrings.1.1 item hitem)
      rwa [eq_of_blanked_strings hitems hkinds]
    | schemas | schemaOrSchemas =>
      cases hitems with
      | nil => cases hfits
      | cons _ _ => rfl
    | nothing | schema | list => rfl
    | _ => cases hfits
  | object hleft hright hget =>
    have hmembers : Entries.Alike Json.Blanked _ _ := ⟨hleft, hright, hget⟩
    cases demand with
    | nothing | schema | schemaOrSchemas => rfl
    | schemasByName patterns =>
      rw [fits_schemasByName_iff] at hfits ⊢
      rintro hpatterns ⟨name, member⟩ hmem
      obtain ⟨other, hother, -⟩ := hmembers.exists_left_of_mem hmem
      exact hfits hpatterns (name, other) hother
    | dependencies =>
      rw [fits_dependencies_iff] at hfits ⊢
      rintro ⟨name, member⟩ hmem harray
      obtain ⟨other, hother, hblanked⟩ := hmembers.exists_left_of_mem hmem
      rw [isArray_of_blanked hblanked] at harray
      exact areNames_of_blanked hblanked (hfits (name, other) hother harray)
    | _ => cases hfits

/-- The parts of a blanked value are blanked parts. -/
theorem exists_part_of_blanked (hblanked : filled.Blanked value)
    (hpart : part ∈ demand.parts value) : ∃ other ∈ demand.parts filled, other.Blanked part := by
  have hself (hpart : part ∈ [value]) : ∃ other ∈ [filled], other.Blanked part :=
    ⟨filled, List.mem_cons_self, List.mem_singleton.mp hpart ▸ hblanked⟩
  cases hblanked with
  | blank | null | bool _ | number _ | string _ =>
    cases demand with
    | schema | schemaOrSchemas => exact hself hpart
    | _ => cases hpart
  | @array items items' hitems =>
    cases demand with
    | schema => exact hself hpart
    | schemas | schemaOrSchemas =>
      exact (Json.exists_item_of_blanked hitems).2 part hpart
    | _ => cases hpart
  | @object members members' hleft hright hget =>
    have hmembers : Entries.Alike Json.Blanked _ _ := ⟨hleft, hright, hget⟩
    cases demand with
    | schema | schemaOrSchemas => exact hself hpart
    | schemasByName patterns =>
      obtain ⟨⟨name, member⟩, hmem, rfl⟩ := List.mem_map.mp hpart
      obtain ⟨other, hother, hblanked⟩ := hmembers.exists_left_of_mem hmem
      exact ⟨other, List.mem_map_of_mem hother, hblanked⟩
    | dependencies =>
      obtain ⟨hmap, harray⟩ := List.mem_filter.mp hpart
      obtain ⟨⟨name, member⟩, hmem, rfl⟩ := List.mem_map.mp hmap
      obtain ⟨other, hother, hblanked⟩ := hmembers.exists_left_of_mem hmem
      rw [isArray_of_blanked hblanked] at harray
      exact ⟨other, List.mem_filter.mpr ⟨List.mem_map_of_mem hother, harray⟩, hblanked⟩
    | _ => cases hpart

/-- A schema in which empty objects have given way to null is a schema exactly if none of them was
wanted as a schema or as an object of schemas. -/
theorem isSchema_iff_of_blanked (hfilled : IsSchema filled) (hblanked : filled.Blanked value) :
    IsSchema value ↔ ¬Misplaced value := by
  refine ⟨fun hschema hmisplaced ↦ hmisplaced.not_isSchema hschema, fun hplaced ↦ ?_⟩
  induction hfilled generalizing value with
  | bool b =>
    cases hblanked
    exact .bool b
  | object hfits hparts ih =>
    cases hblanked with
    | blank => exact absurd .schema hplaced
    | object hleft hright hget =>
      have hmembers : Entries.Alike Json.Blanked _ _ := ⟨hleft, hright, hget⟩
      refine .object (fun key demand argument hmem hget ↦ ?_)
        fun key demand argument part hmem hget hpart ↦ ?_
      · obtain ⟨other, hother, hblanked⟩ := hmembers.exists_left hget
        refine fits_of_blanked hblanked (hfits key demand other hmem hother) ?_
        rintro rfl
        by_contra hwants
        exact hplaced (.object hmem (by simpa using hwants) hget)
      · obtain ⟨other, hother, hblanked⟩ := hmembers.exists_left hget
        obtain ⟨inner, hinner, hinner'⟩ := exists_part_of_blanked hblanked hpart
        exact ih key demand other inner hmem hother hinner hinner' fun hmisplaced ↦
          hplaced (.part hmem hget hpart hmisplaced)

theorem hasAbsoluteIdentifier_of_blanked (hblanked : filled.Blanked value) :
    hasAbsoluteIdentifier value = hasAbsoluteIdentifier filled := by
  rw [hasAbsoluteIdentifier, hasAbsoluteIdentifier]
  have hrel := hblanked.get? "$id"
  generalize filled.get? "$id" = found at hrel ⊢
  generalize value.get? "$id" = found' at hrel ⊢
  cases hrel with
  | none => rfl
  | some hidentifier => cases hidentifier <;> rfl

/-- What becomes of an accepted schema with blanks. -/
theorem exists_ofJson_iff_of_blanked (haccepted : ∃ schema, Schema.ofJson filled = .ok schema)
    (hblanked : filled.Blanked value) :
    (∃ schema, Schema.ofJson value = .ok schema) ↔ ¬Misplaced value := by
  obtain ⟨hidentifier, hfilled⟩ := exists_ofJson_iff.mp haccepted
  rw [exists_ofJson_iff, hasAbsoluteIdentifier_of_blanked hblanked, and_iff_right hidentifier]
  exact isSchema_iff_of_blanked hfilled hblanked

end Schema

end EventSchema
