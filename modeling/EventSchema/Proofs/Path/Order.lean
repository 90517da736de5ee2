import EventSchema.Path
import Mathlib.Data.List.Lex
import Mathlib.Data.Prod.Lex
import Mathlib.Data.String.Basic

/-!
# The order of paths

A component has a rank in a linear order: its kind comes first, then its name. Paths compare as the
lists of the ranks of their components do (`lt_iff`), and two spellings of which neither comes
before the other are the same path (`same_iff`).
-/

set_option autoImplicit false

namespace EventSchema.Path

namespace Component

def rank : Component → ℕ ×ₗ String
  | .root => toLex (0, "")
  | .here => toLex (1, "")
  | .up => toLex (2, "")
  | .name text => toLex (3, text)

theorem rank_injective : Function.Injective rank := by
  intro a b hrank
  cases a <;> cases b <;> simp_all [rank]

theorem lt_iff {a b : Component} : a.lt b = true ↔ a.rank < b.rank := by
  cases a <;> cases b <;> simp [lt, rank, Prod.Lex.toLex_lt_toLex, Component.ctorIdx]

end Component

def rank (path : Path) : List (ℕ ×ₗ String) := path.components.map Component.rank

theorem go_iff {xs ys : List Component} :
    lt.go xs ys = true ↔ xs.map Component.rank < ys.map Component.rank := by
  induction xs generalizing ys with
  | nil => cases ys <;> simp [lt.go]
  | cons x xs ih =>
    cases ys with
    | nil => simp [lt.go]
    | cons y ys =>
      rw [lt.go, List.map_cons, List.map_cons, List.cons_lt_cons_iff, ← ih]
      simp only [Component.lt_iff]
      rcases lt_trichotomy x.rank y.rank with hlt | heq | hgt
      · simp [hlt]
      · simp [heq]
      · simp [hgt, hgt.not_gt, hgt.ne']

theorem lt_iff {a b : Path} : a.lt b = true ↔ a.rank < b.rank := go_iff

theorem same_iff {a b : Path} : a.same b = true ↔ a.rank = b.rank := by
  rw [same, beq_iff_eq, rank, rank,
    (List.map_injective_iff.mpr Component.rank_injective).eq_iff]

theorem same_congr {a b : Path} (hsame : a.same b = true) : a.same = b.same := by
  funext other
  rw [Bool.eq_iff_iff, same_iff, same_iff, same_iff.mp hsame]

end EventSchema.Path
