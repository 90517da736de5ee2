import EventSchema.Proofs.Fragment.Classification
import EventSchema.Proofs.Resolver.Expands

/-!
# What resolves to an object

An object schema stays an object when it is resolved, whatever its members are, and every other
value stays what it is. A reference gives what it leads to. So a value resolves to an object exactly
if it is one or refers to one, through any number of references (`Expands.isObject_iff`), and a
reference that dangles does not (`not_leadsToObject_of_dangling`).
-/

set_option autoImplicit false

namespace EventSchema

/-- The value is an object, or a reference that leads to one. -/
inductive LeadsToObject (library : Library) : Json → Path → Json → Prop
  | here {root : Json} {current : Path} {members : Fields}
    (hplain : (Json.object members).reference? = none) :
    LeadsToObject library root current (.object members)
  | through {root : Json} {current : Path} {value : Json} {text : String} {reference : Reference}
    {found : Target} (hvalue : value.reference? = some text)
    (hparse : Reference.parse? text = some reference)
    (hfind : reference.find? library root current = .ok (some found))
    (hfound : LeadsToObject library found.document found.path found.value) :
    LeadsToObject library root current value

/-- The fragment is a schema with a keyword: no reference, and not kept as a value. -/
def Fragment.isKeyed : Fragment → Bool
  | .any _ => false
  | .reference _ => false
  | _ => true

section LeadsToObject

variable {library : Library} {root value : Json} {current : Path}

/-- Where there is no reference, the value is what counts. -/
theorem leadsToObject_iff_of_none (hplain : value.reference? = none) :
    LeadsToObject library root current value ↔ value.isObject = true := by
  constructor
  · intro hleads
    cases hleads with
    | here _ => rfl
    | through hvalue _ _ _ =>
      rw [hplain] at hvalue
      cases hvalue
  · intro hobject
    cases value with
    | object members => exact .here hplain
    | null | bool _ | number _ | string _ | array _ => cases hobject

theorem not_leadsToObject_of_dangling {text : String} {reference : Reference}
    (hvalue : value.reference? = some text) (hparse : Reference.parse? text = some reference)
    (hfind : reference.find? library root current = .ok none) :
    ¬LeadsToObject library root current value := by
  intro hleads
  cases hleads with
  | here hplain =>
    rw [hplain] at hvalue
    cases hvalue
  | through hvalue' hparse' hfind' _ =>
    obtain rfl := Option.some.inj (hvalue.symm.trans hvalue')
    obtain rfl := Option.some.inj (hparse.symm.trans hparse')
    cases hfind.symm.trans hfind'

theorem leadsToObject_iff_of_found {text : String} {reference : Reference} {found : Target}
    (hvalue : value.reference? = some text) (hparse : Reference.parse? text = some reference)
    (hfind : reference.find? library root current = .ok (some found)) :
    LeadsToObject library root current value ↔
      LeadsToObject library found.document found.path found.value := by
  refine ⟨fun hleads ↦ ?_, .through hvalue hparse hfind⟩
  cases hleads with
  | here hplain =>
    rw [hplain] at hvalue
    cases hvalue
  | through hvalue' hparse' hfind' hfound =>
    obtain rfl := Option.some.inj (hvalue.symm.trans hvalue')
    obtain rfl := Option.some.inj (hparse.symm.trans hparse')
    obtain rfl := Option.some.inj (Except.ok.inj (hfind.symm.trans hfind'))
    exact hfound

theorem ExpandsJson.isObject_eq {value' : Json}
    (hexpands : ExpandsJson library root current value value')
    (hplain : ∀ members, value = .object members → Json.isUnresolvedNode members = false) :
    value'.isObject = value.isObject := by
  cases hexpands with
  | node hnode _ => rw [hplain _ rfl] at hnode; cases hnode
  | _ => rfl

theorem reference?_eq_none_of_ofJson {fragment : Fragment} (hvalue : fragment = .ofJson value)
    (hreference : ∀ text, fragment ≠ .reference text) : value.reference? = none := by
  by_contra hsome
  obtain ⟨text, htext⟩ := Option.ne_none_iff_exists'.mp hsome
  exact hreference text (hvalue.trans (Fragment.ofJson_eq_reference_iff.mpr htext))

theorem leadsToObject_of_isKeyed {fragment : Fragment} (hvalue : fragment = .ofJson value)
    (hkeyed : fragment.isKeyed = true) : LeadsToObject library root current value := by
  have hreference (text : String) : fragment ≠ .reference text := by
    rintro rfl
    cases hkeyed
  rw [leadsToObject_iff_of_none (reference?_eq_none_of_ofJson hvalue hreference)]
  cases value with
  | object members => rfl
  | null | bool _ | number _ | string _ | array _ =>
    rw [Fragment.ofJson] at hvalue
    · rw [hvalue] at hkeyed
      cases hkeyed
    · simp

/-! ### Fragments of values -/

theorem isObject_iff_of_any {inner value' : Json} (hvalue : Fragment.any inner = .ofJson value)
    (hexpands : ExpandsJson library root current inner value') :
    (Fragment.any value').toJson.isObject = true ↔ LeadsToObject library root current value := by
  have hreference := reference?_eq_none_of_ofJson hvalue (by simp)
  obtain ⟨rfl, hplain⟩ := Fragment.ofJson_eq_any hvalue.symm
  rw [Fragment.toJson, hexpands.isObject_eq hplain, leadsToObject_iff_of_none hreference]

theorem isObject_iff_of_dangling {text : String} {reference : Reference}
    (hvalue : Fragment.reference text = .ofJson value)
    (hparse : Reference.parse? text = some reference)
    (hfind : reference.find? library root current = .ok none) :
    Fragment.absent.toJson.isObject = true ↔ LeadsToObject library root current value := by
  have htext := Fragment.ofJson_eq_reference_iff.mp hvalue.symm
  exact iff_of_false Bool.false_ne_true (not_leadsToObject_of_dangling htext hparse hfind)

theorem isObject_iff_of_reference {text : String} {reference : Reference} {found : Target}
    {result : Fragment} (hvalue : Fragment.reference text = .ofJson value)
    (hparse : Reference.parse? text = some reference)
    (hfind : reference.find? library root current = .ok (some found))
    (hfound : result.toJson.isObject = true ↔
      LeadsToObject library found.document found.path found.value) :
    result.toJson.isObject = true ↔ LeadsToObject library root current value := by
  have htext := Fragment.ofJson_eq_reference_iff.mp hvalue.symm
  rw [leadsToObject_iff_of_found htext hparse hfind, hfound]

end LeadsToObject

/-- A value expands to an object exactly if it leads to one. -/
theorem Expands.isObject_iff {library : Library} : ∀ {root current fragment result},
    Expands library root current fragment result → ∀ {value}, fragment = .ofJson value →
      (result.toJson.isObject = true ↔ LeadsToObject library root current value)
  | _, _, _, _, .any hexpands, _, hvalue => isObject_iff_of_any hvalue hexpands
  | _, _, _, _, .primitive _ _, _, hvalue =>
    iff_of_true rfl (leadsToObject_of_isKeyed hvalue rfl)
  | _, _, _, _, .array _ _, _, hvalue => iff_of_true rfl (leadsToObject_of_isKeyed hvalue rfl)
  | _, _, _, _, .object _ _ _, _, hvalue => iff_of_true rfl (leadsToObject_of_isKeyed hvalue rfl)
  | _, _, _, _, .dangling hparse hfind, _, hvalue => isObject_iff_of_dangling hvalue hparse hfind
  | _, _, _, _, .reference hparse hfind htarget, _, hvalue =>
    isObject_iff_of_reference hvalue hparse hfind (htarget.isObject_iff rfl)
  | _, _, _, _, .composition _, _, hvalue =>
    iff_of_true rfl (leadsToObject_of_isKeyed hvalue rfl)

end EventSchema
