import EventSchema.Proofs.Entries
import EventSchema.Proofs.Pointer
import EventSchema.Proofs.Text.EditDistance
import EventSchema.Validation.ReferenceCheck
import Mathlib.Data.List.MinMax
import Mathlib.Order.Bounds.Basic

/-!
# Repairs of references

A pointer that leads nowhere fails at its first missing segment. The repair that is suggested
replaces that segment by the key of the same object that is nearest to it, the earliest of several
(`isClosest_of_closestKey?`), and leaves the others as they are. Nothing is suggested if the segment
is missing in something else than an object, or if no key is near enough, and also if the way to
the missing segment passes through an array, where the look-up goes on (`repair?_repairs`,
`unrepaired_past_array`).
-/

set_option autoImplicit false

namespace EventSchema.Pointer

/-! ### The nearest key -/

/-- The segment becomes the key by `n` edits and no fewer, at most half the longer of the two. -/
def IsNear (n : Nat) (segment key : String) : Prop :=
  IsLeast {n | Text.Edits n segment.toList key.toList} n ∧
    0 < n ∧ n ≤ max segment.utf8ByteSize key.utf8ByteSize / 2

/-- No near key is nearer to the segment, and none that is as near comes earlier. -/
def IsClosest (segment : String) (keys : List String) (key : String) : Prop :=
  ∃ n, key ∈ keys ∧ IsNear n segment key ∧ ∀ other ∈ keys, ∀ m, IsNear m segment other →
    n < m ∨ n = m ∧ keys.idxOf key ≤ keys.idxOf other

section Closest

variable {segment key : String} {keys : List String} {n : Nat}

theorem isNear_iff : IsNear n segment key ↔
    n = Text.editDistance segment.toList key.toList ∧
      0 < n ∧ n ≤ max segment.utf8ByteSize key.utf8ByteSize / 2 := by
  have hleast := Text.isLeast_editDistance segment.toList key.toList
  unfold IsNear
  constructor
  · rintro ⟨hn, hbounds⟩
    exact ⟨hn.unique hleast, hbounds⟩
  · rintro ⟨rfl, hbounds⟩
    exact ⟨hleast, hbounds⟩

/-- Whether the key is near the segment, by the distance that is computed. -/
def isNear (segment key : String) : Bool :=
  0 < Text.editDistance segment.toList key.toList &&
    Text.editDistance segment.toList key.toList ≤ max segment.utf8ByteSize key.utf8ByteSize / 2

theorem isNear_eq_true_iff : isNear segment key = true ↔
    IsNear (Text.editDistance segment.toList key.toList) segment key := by
  rw [isNear, Bool.and_eq_true, decide_eq_true_iff, decide_eq_true_iff, isNear_iff]
  exact (and_iff_right rfl).symm

theorem closestKey?_eq_argmin (segment : String) (keys : List String) :
    closestKey? segment keys = (keys.filter (isNear segment)).argmin
      fun key ↦ Text.editDistance segment.toList key.toList := by
  unfold closestKey? List.argmin
  dsimp only
  congr 1
  funext best key
  cases best <;> rfl

/-- Keys that are kept stay in their order. -/
theorem idxOf_le_of_filter {keep : String → Bool} {first second : String}
    (hfirst : keep first = true) (hsecond : keep second = true)
    (hle : (keys.filter keep).idxOf first ≤ (keys.filter keep).idxOf second) :
    keys.idxOf first ≤ keys.idxOf second := by
  induction keys with
  | nil => exact Nat.le_refl _
  | cons key keys ih =>
    by_cases hkey : keep key = true
    · rw [List.filter_cons_of_pos hkey] at hle
      by_cases hk : key = first
      · rw [hk, List.idxOf_cons_self]
        exact Nat.zero_le _
      · have hk' : key ≠ second := by
          rintro rfl
          rw [List.idxOf_cons_self, List.idxOf_cons_ne _ hk] at hle
          exact absurd hle (Nat.not_succ_le_zero _)
        rw [List.idxOf_cons_ne _ hk, List.idxOf_cons_ne _ hk'] at hle ⊢
        exact Nat.succ_le_succ (ih (Nat.le_of_succ_le_succ hle))
    · rw [List.filter_cons_of_neg hkey] at hle
      rw [List.idxOf_cons_ne _ (by rintro rfl; exact hkey hfirst),
        List.idxOf_cons_ne _ (by rintro rfl; exact hkey hsecond)]
      exact Nat.succ_le_succ (ih hle)

/-- The key that is chosen is the nearest, and the earliest of several. -/
theorem isClosest_of_closestKey? (hkey : closestKey? segment keys = some key) :
    IsClosest segment keys key := by
  rw [closestKey?_eq_argmin] at hkey
  have hmem := List.argmin_mem hkey
  obtain ⟨hkeys, hnear⟩ := List.mem_filter.mp hmem
  refine ⟨_, hkeys, isNear_eq_true_iff.mp hnear, ?_⟩
  intro other hother m hm
  have hotherNear : isNear segment other = true := by
    rw [isNear_eq_true_iff, ← (isNear_iff.mp hm).1]
    exact hm
  have hotherMem := List.mem_filter.mpr ⟨hother, hotherNear⟩
  rw [(isNear_iff.mp hm).1]
  obtain hlt | heq := Nat.lt_or_eq_of_le (List.le_of_mem_argmin hotherMem hkey)
  · exact .inl hlt
  · exact .inr ⟨heq, idxOf_le_of_filter hnear hotherNear
      (List.index_of_argmin hkey hotherMem heq.ge)⟩

theorem closestKey?_eq_none_iff :
    closestKey? segment keys = none ↔ ∀ key ∈ keys, ∀ n, ¬IsNear n segment key := by
  rw [closestKey?_eq_argmin, List.argmin_eq_none, List.filter_eq_nil_iff]
  apply forall₂_congr
  intro key hkey
  rw [isNear_eq_true_iff]
  constructor
  · intro hfar n hn
    rw [(isNear_iff.mp hn).1] at hn
    exact hfar hn
  · intro hfar
    exact hfar _

end Closest

/-! ### The first missing segment -/

/-- The segments before the `i`-th lead to the part, where the `i`-th is missing. -/
structure FailsAt (pointer : Pointer) (root : Json) (i : Nat) (part : Json)
    (segment : String) : Prop where
  segment_eq : pointer.segments[i]? = some segment
  leads : lookup ⟨pointer.segments.take i⟩ root = some part
  missing : step part segment = none

/-- A segment before the `i`-th is a position in an array. -/
def PassesArray (pointer : Pointer) (root : Json) (i : Nat) : Prop :=
  ∃ j < i, ∃ items, lookup ⟨pointer.segments.take j⟩ root = some (.array items)

/-- The repair has the nearest key of the object for the missing segment. -/
structure Repairs (pointer : Pointer) (root : Json) (i : Nat) (part : Json) (segment : String)
    (repaired : Pointer) (key : String) : Prop where
  length_eq : repaired.segments.length = pointer.segments.length
  differs_iff : ∀ j, repaired.segments[j]? ≠ pointer.segments[j]? ↔ j = i
  replacement : repaired.segments[i]? = some key
  object : ∃ members, part = .object members ∧ Entries.get? members segment = none ∧
    IsClosest segment (Entries.keys members) key
  leads : ∃ value, lookup ⟨repaired.segments.take (i + 1)⟩ root = some value

section Walk

variable {segments rest replaced : List String} {root part next : Json} {i : Nat}
  {first segment key : String}

theorem failsAt_succ (hfails : FailsAt ⟨rest⟩ next i part segment)
    (hstep : step root first = some next) : FailsAt ⟨first :: rest⟩ root (i + 1) part segment := by
  obtain ⟨hsegment, hleads, hmissing⟩ := hfails
  refine ⟨hsegment, ?_, hmissing⟩
  rw [List.take_succ_cons, lookup_cons, hstep]
  exact hleads

/-- A pointer that leads nowhere has a first missing segment. -/
theorem exists_failsAt (hlookup : lookup ⟨segments⟩ root = none) :
    ∃ i part segment, FailsAt ⟨segments⟩ root i part segment := by
  induction segments generalizing root with
  | nil => cases hlookup
  | cons first rest ih =>
    cases hstep : step root first with
    | none => exact ⟨0, root, first, rfl, rfl, hstep⟩
    | some next =>
      rw [lookup_cons, hstep] at hlookup
      obtain ⟨i, part, segment, hfails⟩ := ih hlookup
      exact ⟨i + 1, part, segment, failsAt_succ hfails hstep⟩

theorem FailsAt.of_succ (hfails : FailsAt ⟨first :: rest⟩ root (i + 1) part segment) :
    ∃ next, step root first = some next ∧ FailsAt ⟨rest⟩ next i part segment := by
  obtain ⟨hsegment, hleads, hmissing⟩ := hfails
  rw [List.take_succ_cons, lookup_cons, Option.bind_eq_some_iff] at hleads
  obtain ⟨next, hstep, hleads⟩ := hleads
  exact ⟨next, hstep, hsegment, hleads, hmissing⟩

theorem not_passesArray_zero (pointer : Pointer) (root : Json) : ¬PassesArray pointer root 0 := by
  rintro ⟨j, hj, _⟩
  exact absurd hj (Nat.not_lt_zero j)

theorem passesArray_succ_iff (hstep : step root first = some next) :
    PassesArray ⟨first :: rest⟩ root (i + 1) ↔
      (∃ items, root = .array items) ∨ PassesArray ⟨rest⟩ next i := by
  constructor
  · rintro ⟨j, hj, items, hitems⟩
    cases j with
    | zero => exact .inl ⟨items, Option.some.inj hitems⟩
    | succ j =>
      rw [List.take_succ_cons, lookup_cons, hstep] at hitems
      exact .inr ⟨j, Nat.lt_of_succ_lt_succ hj, items, hitems⟩
  · rintro (⟨items, rfl⟩ | ⟨j, hj, items, hitems⟩)
    · exact ⟨0, Nat.succ_pos i, items, rfl⟩
    · refine ⟨j + 1, Nat.succ_lt_succ hj, items, ?_⟩
      rw [List.take_succ_cons, lookup_cons, hstep]
      exact hitems

/-- What is suggested for a pointer that fails at a segment. -/
theorem repairSegments?_eq_some_iff (hfails : FailsAt ⟨segments⟩ root i part segment) :
    repairSegments? root segments = some replaced ↔
      ¬PassesArray ⟨segments⟩ root i ∧ ∃ members key, part = .object members ∧
        closestKey? segment (Entries.keys members) = some key ∧ replaced = segments.set i key := by
  induction segments generalizing root i replaced with
  | nil => cases hfails.segment_eq
  | cons first rest ih =>
    cases i with
    | zero =>
      obtain ⟨hsegment, hleads, hmissing⟩ := hfails
      cases hsegment
      cases hleads
      cases part with
      | object members =>
        have hget : Entries.get? members segment = none := hmissing
        simp [repairSegments?, hget, not_passesArray_zero, eq_comm]
      | _ => simp [repairSegments?]
    | succ i =>
      obtain ⟨next, hstep, hrest⟩ := hfails.of_succ
      rw [passesArray_succ_iff hstep]
      cases root with
      | object members =>
        have hget : Entries.get? members first = some next := hstep
        have hobject : ¬∃ items, Json.object members = .array items := by
          rintro ⟨items, hitems⟩
          cases hitems
        simp only [repairSegments?, hget, Option.map_eq_some_iff, ih hrest, hobject, false_or]
        constructor
        · rintro ⟨_, ⟨hpasses, inner, key, hpart, hkey, rfl⟩, rfl⟩
          exact ⟨hpasses, inner, key, hpart, hkey, rfl⟩
        · rintro ⟨hpasses, inner, key, hpart, hkey, rfl⟩
          exact ⟨rest.set i key, ⟨hpasses, inner, key, hpart, hkey, rfl⟩, rfl⟩
      | array items => simp [repairSegments?]
      | _ => cases hstep

/-- With another key of the object for the missing segment, the pointer leads on. -/
theorem FailsAt.leads_set {members : Entries Json} {value : Json}
    (hfails : FailsAt ⟨segments⟩ root i (.object members) segment)
    (hvalue : Entries.get? members key = some value) :
    lookup ⟨(segments.set i key).take (i + 1)⟩ root = some value := by
  have hi : i < segments.length := (List.getElem?_eq_some_iff.mp hfails.segment_eq).1
  have htake : (segments.set i key).take (i + 1) = segments.take i ++ [key] := by
    rw [List.take_succ_eq_append_getElem (by rwa [List.length_set]), List.take_set_of_le le_rfl,
      List.getElem_set_self]
  rw [htake, lookup_append, hfails.leads, Option.bind_some, lookup_cons]
  change (Entries.get? members key).bind (lookup ⟨[]⟩) = some value
  rw [hvalue]
  rfl

theorem repairs_set {members : Entries Json}
    (hfails : FailsAt ⟨segments⟩ root i (.object members) segment)
    (hkey : closestKey? segment (Entries.keys members) = some key) :
    Repairs ⟨segments⟩ root i (.object members) segment ⟨segments.set i key⟩ key := by
  have hi : i < segments.length := (List.getElem?_eq_some_iff.mp hfails.segment_eq).1
  have hget : Entries.get? members segment = none := hfails.missing
  have hclosest : IsClosest segment (Entries.keys members) key := isClosest_of_closestKey? hkey
  obtain ⟨value, hvalue⟩ : ∃ value, Entries.get? members key = some value := by
    rw [← Option.ne_none_iff_exists', Ne, Entries.get?_eq_none_iff, not_not]
    exact hclosest.choose_spec.1
  refine ⟨List.length_set, ?_, ?_, ⟨members, rfl, hget, hclosest⟩, value,
    hfails.leads_set hvalue⟩
  · intro j
    by_cases hj : j = i
    · subst hj
      have hne : key ≠ segment := by
        rintro rfl
        rw [hget] at hvalue
        cases hvalue
      simp only [List.getElem?_set_self hi, hfails.segment_eq, ne_eq, Option.some.injEq, hne,
        not_false_eq_true]
    · simp only [List.getElem?_set_ne (Ne.symm hj), ne_eq, not_true_eq_false, hj]
  · exact List.getElem?_set_self hi

end Walk

/-- A pointer that leads nowhere has a first missing segment. A repair replaces that segment, and
it alone, by the nearest key of the object that lacks it. There is none if and only if the way to
the segment passes through an array, or the segment is missing in something else than an object,
or no key of the object is near. -/
theorem repair?_repairs {pointer : Pointer} {root : Json} (hlookup : pointer.lookup root = none) :
    ∃ i part segment, FailsAt pointer root i part segment ∧
      (∀ repaired, pointer.repair? root = some repaired →
        ∃ key, Repairs pointer root i part segment repaired key) ∧
      (pointer.repair? root = none ↔ PassesArray pointer root i ∨
        ∀ members, part = .object members →
          ∀ key ∈ Entries.keys members, ∀ n, ¬IsNear n segment key) := by
  obtain ⟨segments⟩ := pointer
  obtain ⟨i, part, segment, hfails⟩ := exists_failsAt hlookup
  refine ⟨i, part, segment, hfails, ?_, ?_⟩
  · intro repaired hrepaired
    rw [repair?, Option.map_eq_some_iff] at hrepaired
    obtain ⟨replaced, hreplaced, rfl⟩ := hrepaired
    obtain ⟨_, members, key, rfl, hkey, rfl⟩ := (repairSegments?_eq_some_iff hfails).mp hreplaced
    exact ⟨key, repairs_set hfails hkey⟩
  · rw [repair?, Option.map_eq_none_iff, Option.eq_none_iff_forall_ne_some]
    constructor
    · intro hnone
      by_cases hpasses : PassesArray ⟨segments⟩ root i
      · exact .inl hpasses
      · right
        rintro members rfl
        rw [← closestKey?_eq_none_iff, Option.eq_none_iff_forall_ne_some]
        intro key hkey
        exact hnone _ ((repairSegments?_eq_some_iff hfails).mpr
          ⟨hpasses, members, key, rfl, hkey, rfl⟩)
    · intro hnone replaced hreplaced
      obtain ⟨hpasses, members, key, rfl, hkey, _⟩ :=
        (repairSegments?_eq_some_iff hfails).mp hreplaced
      obtain hpasses' | hfar := hnone
      · exact hpasses hpasses'
      · rw [closestKey?_eq_none_iff.mpr (hfar members rfl)] at hkey
        cases hkey

/-- Two keys that are one edit away from `shre`. -/
def shelved : Json :=
  .object [("definitions", .object [("shop", .null), ("shore", .null), ("share", .null)])]

theorem repair?_repairs_shelved :
    lookup ⟨["definitions", "shre"]⟩ shelved = none ∧
      repair? ⟨["definitions", "shre"]⟩ shelved = some ⟨["definitions", "shore"]⟩ ∧
      ∃ i part segment key, FailsAt ⟨["definitions", "shre"]⟩ shelved i part segment ∧
        Repairs ⟨["definitions", "shre"]⟩ shelved i part segment ⟨["definitions", "shore"]⟩
          key := by
  have hlookup : lookup ⟨["definitions", "shre"]⟩ shelved = none := by decide +kernel
  have hrepair : repair? ⟨["definitions", "shre"]⟩ shelved = some ⟨["definitions", "shore"]⟩ := by
    decide +kernel
  obtain ⟨i, part, segment, hfails, hrepairs, -⟩ := repair?_repairs hlookup
  obtain ⟨key, hkey⟩ := hrepairs _ hrepair
  exact ⟨hlookup, hrepair, i, part, segment, key, hfails, hkey⟩

/-- An object with one key, in an array. -/
def listed : Json :=
  .object [("definitions", .object [("List", .object [("enum",
    .array [.object [("name", .null)]])])])]

/-- The look-up goes through the array to the object, which lacks `nam` and has the near key
`name`, but nothing is suggested. -/
theorem unrepaired_past_array :
    FailsAt ⟨["definitions", "List", "enum", "0", "nam"]⟩ listed 4 (.object [("name", .null)])
        "nam" ∧
      IsClosest "nam" (Entries.keys [("name", Json.null)]) "name" ∧
      lookup ⟨["definitions", "List", "enum", "0", "name"]⟩ listed = some .null ∧
      repair? ⟨["definitions", "List", "enum", "0", "nam"]⟩ listed = none := by
  refine ⟨⟨rfl, ?_, ?_⟩, isClosest_of_closestKey? ?_, ?_, ?_⟩
  · decide +kernel
  · decide +kernel
  · decide +kernel
  · decide +kernel
  · decide +kernel

end EventSchema.Pointer
