import EventSchema.Text.EditDistance
import Mathlib.Order.Bounds.Defs
import Mathlib.Data.List.Basic

/-!
# The least number of edits

An edit inserts, deletes or replaces one character anywhere in a text. The distance between two
texts is the least number of edits that lead from one to the other (`isLeast_editDistance`).

The distance is computed by rows, from the left. `distance` is the same recurrence at the heads of
two lists, and a row holds its values at one initial part of the first text and all initial parts
of the second, each written backwards (`foldl_extendRow`). One edit changes `distance` by at most
one (`distance_le_of_edit`), so no number of edits is smaller.
-/

set_option autoImplicit false

namespace EventSchema.Text

/-- One character is inserted, deleted or replaced. -/
inductive Edit : List Char → List Char → Prop
  | insertion (before after : List Char) (c : Char) : Edit (before ++ after) (before ++ c :: after)
  | deletion (before after : List Char) (c : Char) : Edit (before ++ c :: after) (before ++ after)
  | replacement (before after : List Char) (c d : Char) :
    Edit (before ++ c :: after) (before ++ d :: after)

/-- A number of edits, one after the other. -/
inductive Edits : Nat → List Char → List Char → Prop
  | none (text : List Char) : Edits 0 text text
  | next {n : Nat} {first middle last : List Char} :
    Edit first middle → Edits n middle last → Edits (n + 1) first last

variable {n : Nat} {c d : Char} {first second middle last : List Char}

/-! ### Edits elsewhere in a text -/

theorem Edit.cons (hedit : Edit first second) (c : Char) : Edit (c :: first) (c :: second) := by
  cases hedit with
  | insertion before after d => exact .insertion (c :: before) after d
  | deletion before after d => exact .deletion (c :: before) after d
  | replacement before after d e => exact .replacement (c :: before) after d e

theorem Edit.reverse (hedit : Edit first second) : Edit first.reverse second.reverse := by
  cases hedit with
  | insertion before after c => simpa using Edit.insertion after.reverse before.reverse c
  | deletion before after c => simpa using Edit.deletion after.reverse before.reverse c
  | replacement before after c d => simpa using Edit.replacement after.reverse before.reverse c d

theorem Edits.cons (hedits : Edits n first second) (c : Char) :
    Edits n (c :: first) (c :: second) := by
  induction hedits with
  | none text => exact .none (c :: text)
  | next hedit _ ih => exact .next (hedit.cons c) ih

theorem Edits.reverse (hedits : Edits n first second) :
    Edits n first.reverse second.reverse := by
  induction hedits with
  | none text => exact .none text.reverse
  | next hedit _ ih => exact .next hedit.reverse ih

theorem edits_reverse_iff : Edits n first.reverse second.reverse ↔ Edits n first second := by
  constructor
  · intro hedits
    simpa using hedits.reverse
  · exact Edits.reverse

/-- One more edit at the end. -/
theorem Edits.concat (hedits : Edits n first middle) (hedit : Edit middle last) :
    Edits (n + 1) first last := by
  induction hedits with
  | none text => exact .next hedit (.none last)
  | next hfirst _ ih => exact .next hfirst (ih hedit)

theorem Edits.min {m : Nat} (hm : Edits m first second) (hn : Edits n first second) :
    Edits (min m n) first second := by
  rw [Nat.min_def]
  split_ifs
  · exact hm
  · exact hn

/-! ### The recurrence -/

/-- The least number of edits, by what becomes of the heads of the two texts. -/
def distance : List Char → List Char → Nat
  | [], second => second.length
  | first@(_ :: _), [] => first.length
  | c :: first, d :: second =>
    min (min (distance (c :: first) second + 1) (distance first (d :: second) + 1))
      (if c = d then distance first second else distance first second + 1)
termination_by first second => first.length + second.length

@[simp] theorem distance_nil_left (second : List Char) : distance [] second = second.length := by
  rw [distance]

@[simp] theorem distance_nil_right (first : List Char) : distance first [] = first.length := by
  cases first <;> rw [distance]

theorem distance_cons_cons (c d : Char) (first second : List Char) :
    distance (c :: first) (d :: second) =
      min (min (distance (c :: first) second + 1) (distance first (d :: second) + 1))
        (if c = d then distance first second else distance first second + 1) := by
  rw [distance]

/-- A text is reached by as many edits as the recurrence says. -/
theorem edits_distance (first second : List Char) : Edits (distance first second) first second := by
  fun_induction distance first second with
  | case1 second =>
    induction second with
    | nil => exact .none []
    | cons d second ih => exact ih.concat (.insertion [] second d)
  | case2 c first =>
    have hall (text : List Char) : Edits text.length text [] := by
      induction text with
      | nil => exact .none []
      | cons c text ih => exact .next (.deletion [] text c) ih
    exact hall (c :: first)
  | case3 c first d second ihInsert ihDelete ihBoth =>
    have hinsert : Edits (distance (c :: first) second + 1) (c :: first) (d :: second) :=
      ihInsert.concat (.insertion [] second d)
    have hdelete : Edits (distance first (d :: second) + 1) (c :: first) (d :: second) :=
      .next (.deletion [] first c) ihDelete
    have hboth : Edits (if c = d then distance first second else distance first second + 1)
        (c :: first) (d :: second) := by
      by_cases hcd : c = d
      · rw [if_pos hcd, hcd]
        exact ihBoth.cons d
      · rw [if_neg hcd]
        exact (ihBoth.cons c).concat (.replacement [] second c d)
    exact (hinsert.min hdelete).min hboth

/-! ### One edit changes the distance by at most one -/

theorem distance_cons_left_le (c : Char) (first second : List Char) :
    distance (c :: first) second ≤ distance first second + 1 := by
  cases second with
  | nil => simp
  | cons d second =>
    rw [distance_cons_cons]
    omega

theorem distance_cons_right_le (d : Char) (first second : List Char) :
    distance first (d :: second) ≤ distance first second + 1 := by
  cases first with
  | nil => simp
  | cons c first =>
    rw [distance_cons_cons]
    omega

theorem distance_le_cons_left (c : Char) (first second : List Char) :
    distance first second ≤ distance (c :: first) second + 1 := by
  induction second with
  | nil =>
    simp only [distance_nil_right, List.length_cons]
    omega
  | cons d second ih =>
    have hright := distance_cons_right_le d first second
    rw [distance_cons_cons]
    split_ifs <;> omega

theorem distance_replaced_le (c d : Char) (first second : List Char) :
    distance (c :: first) second ≤ distance (d :: first) second + 1 := by
  induction second with
  | nil => simp
  | cons e second ih =>
    rw [distance_cons_cons, distance_cons_cons]
    split_ifs <;> omega

/-- What holds of the distances of two texts to every text holds after a common character. -/
theorem distance_cons_le_of_le (hle : ∀ text, distance first text ≤ distance middle text + 1)
    (c : Char) (second : List Char) :
    distance (c :: first) second ≤ distance (c :: middle) second + 1 := by
  induction second with
  | nil => simpa using hle []
  | cons d second ih =>
    have hshorter := hle second
    have hsame := hle (d :: second)
    rw [distance_cons_cons, distance_cons_cons]
    split_ifs <;> omega

theorem distance_append_le_of_le (hle : ∀ text, distance first text ≤ distance middle text + 1)
    (before second : List Char) :
    distance (before ++ first) second ≤ distance (before ++ middle) second + 1 := by
  induction before generalizing second with
  | nil => exact hle second
  | cons c before ih => exact distance_cons_le_of_le ih c second

theorem distance_le_of_edit (hedit : Edit first middle) (second : List Char) :
    distance first second ≤ distance middle second + 1 := by
  cases hedit with
  | insertion before after c =>
    exact distance_append_le_of_le (distance_le_cons_left c after) before second
  | deletion before after c =>
    exact distance_append_le_of_le (distance_cons_left_le c after) before second
  | replacement before after c d =>
    exact distance_append_le_of_le (distance_replaced_le c d after) before second

theorem distance_self (text : List Char) : distance text text = 0 := by
  induction text with
  | nil => simp
  | cons c text ih =>
    rw [distance_cons_cons, if_pos rfl, ih]
    exact Nat.min_zero _

theorem distance_le_of_edits (hedits : Edits n first second) : distance first second ≤ n := by
  induction hedits with
  | none text => exact Nat.le_of_eq (distance_self text)
  | next hedit _ ih => exact Nat.le_trans (distance_le_of_edit hedit _) (Nat.succ_le_succ ih)

/-! ### Row by row -/

/-- The distances of the first text to the second, to the second with one character of the rest
before it, and so on. -/
def distances (first second : List Char) : List Char → List Nat
  | [] => [distance first second]
  | d :: rest => distance first second :: distances first (d :: second) rest

theorem distances_eq_cons (first second rest : List Char) :
    distances first second rest = distance first second :: (distances first second rest).tail := by
  cases rest <;> rfl

theorem nextRow_distances (c : Char) (first second rest : List Char) :
    nextRow c (distance (c :: first) second) rest (distances first second rest) =
      (distances (c :: first) second rest).tail := by
  induction rest generalizing second with
  | nil => rfl
  | cons d rest ih =>
    rw [distances, distances_eq_cons first, nextRow, ← distance_cons_cons, ← distances_eq_cons, ih,
      distances, List.tail_cons, ← distances_eq_cons]

/-- One more character of the first text. -/
theorem extendRow_distances (c : Char) (first second : List Char) :
    extendRow second (distances first [] second) c = distances (c :: first) [] second := by
  have hleft : (distances first [] second).headD 0 + 1 = distance (c :: first) [] := by
    rw [distances_eq_cons]
    simp
  rw [extendRow, hleft, nextRow_distances, ← distances_eq_cons]

theorem foldl_extendRow (text first second : List Char) :
    text.foldl (extendRow second) (distances first [] second) =
      distances (text.reverse ++ first) [] second := by
  induction text generalizing first with
  | nil => rfl
  | cons c text ih =>
    rw [List.foldl_cons, extendRow_distances, ih, List.reverse_cons, List.append_assoc,
      List.singleton_append]

/-- Nothing is turned into a text by inserting all its characters. -/
theorem distances_nil (second rest : List Char) :
    distances [] second rest = List.range' second.length (rest.length + 1) := by
  induction rest generalizing second with
  | nil => rw [distances, distance_nil_left, List.length_nil, List.range'_one]
  | cons d rest ih =>
    rw [distances, ih, distance_nil_left, List.length_cons, List.length_cons, ← List.range'_succ]

theorem getLastD_distances (first second rest : List Char) :
    (distances first second rest).getLastD 0 = distance first (rest.reverse ++ second) := by
  induction rest generalizing second with
  | nil => rfl
  | cons d rest ih =>
    rw [List.reverse_cons, List.append_assoc, List.singleton_append, ← ih, distances,
      distances_eq_cons first (d :: second)]
    rfl

/-- The distance by rows is the recurrence on the texts written backwards. -/
theorem editDistance_eq (first second : List Char) :
    editDistance first second = distance first.reverse second.reverse := by
  have hstart : List.range (second.length + 1) = distances [] [] second := by
    rw [distances_nil, List.range_eq_range', List.length_nil]
  rw [editDistance, hstart, foldl_extendRow, getLastD_distances, List.append_nil, List.append_nil]

/-- The distance of two texts is the least number of edits that lead from one to the other. -/
theorem isLeast_editDistance (first second : List Char) :
    IsLeast {n | Edits n first second} (editDistance first second) := by
  rw [editDistance_eq]
  constructor
  · exact edits_reverse_iff.mp (edits_distance first.reverse second.reverse)
  · intro n hedits
    exact distance_le_of_edits hedits.reverse

end EventSchema.Text
