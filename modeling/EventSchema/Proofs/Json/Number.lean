import EventSchema.Json.Parser
import EventSchema.Json.Printer
import EventSchema.Proofs.Outcome
import Mathlib.Data.List.TakeWhile
import Mathlib.Tactic.DefEqTransformations
import Mathlib.Tactic.IntervalCases
import Mathlib.Tactic.SplitIfs

/-!
# Reading numbers

The text of a number has only the characters of numbers (`all_isNumeric_text`), so that reading
it stops at the first other one: what follows does not change the number that is read
(`scans_readNumber`).
-/

set_option autoImplicit false

namespace EventSchema.Json

def isNumeric (c : Char) : Bool :=
  isDigit c || c = '-' || c = '+' || c = '.' || c = 'e' || c = 'E'

/-- No number goes on with the text. -/
def EndsNumber (text : List Char) : Prop := ∀ c ∈ text.head?, isNumeric c = false

theorem EndsNumber.nil : EndsNumber [] := fun _ hc ↦ absurd hc (Option.not_mem_none _)

theorem EndsNumber.cons {c : Char} (hc : isNumeric c = false) (rest : List Char) :
    EndsNumber (c :: rest) := by
  intro d hd
  obtain rfl := Option.some.inj hd
  exact hc

/-! ### What follows a number -/

section Following

variable {negative positive : Bool} {significand : Nat} {exponent : Int} {n : Number}
  {text rest after : List Char}

theorem EndsNumber.takeWhile_append (hafter : EndsNumber after) (text : List Char) :
    (text ++ after).takeWhile isDigit = text.takeWhile isDigit := by
  induction text with
  | nil =>
    cases after with
    | nil => rfl
    | cons c more =>
      have hc : isDigit c = false := by
        have hc := hafter c rfl
        simp only [isNumeric, Bool.or_eq_false_iff] at hc
        exact hc.1.1.1.1.1
      rw [List.nil_append, List.takeWhile_cons, hc]
      rfl
  | cons c more ih => rw [List.cons_append, List.takeWhile_cons, List.takeWhile_cons, ih]

theorem EndsNumber.dropWhile_append (hafter : EndsNumber after) (text : List Char) :
    (text ++ after).dropWhile isDigit = text.dropWhile isDigit ++ after := by
  have happend := List.takeWhile_append_dropWhile (p := isDigit) (l := text ++ after)
  rw [hafter.takeWhile_append] at happend
  refine List.append_cancel_left (?_ : text.takeWhile isDigit ++ _ = text.takeWhile isDigit ++ _)
  rw [happend, ← List.append_assoc, List.takeWhile_append_dropWhile]

/-- What is left is an end of the text, and what follows the text does not change the number. -/
def Scans (read : List Char → Except Failure (Number × List Char)) : Prop :=
  ∀ {text n rest}, read text = .ok (n, rest) →
    rest <:+ text ∧ ∀ after, EndsNumber after → read (text ++ after) = .ok (n, rest ++ after)

-- The statement is about the function and not about its values: checking it at arguments would
-- reduce the arithmetic of `combine`.
theorem finish_eq : finish = fun negative significand exponent rest ↦
    match combine negative significand exponent with
    | some value => .ok (.float value, rest)
    | none => .error (.before .numberOutOfRange rest) := by
  delta finish
  rfl

theorem scans_finish : Scans (finish negative significand exponent) := by
  intro text n rest hread
  rw [finish_eq] at hread ⊢
  beta_reduce at hread ⊢
  generalize combine negative significand exponent = value at hread ⊢
  cases value with
  | none => cases hread
  | some value =>
    cases hread
    exact ⟨List.suffix_rfl, fun _ _ ↦ rfl⟩

/-- Whether an exponent is positive, and its digits. -/
def exponentSign (text : List Char) : Bool × List Char :=
  match text with
  | '+' :: rest => (true, rest)
  | '-' :: rest => (false, rest)
  | _ => (true, text)

/-- Reads the digits of an exponent after its sign. -/
def readPower (negative : Bool) (significand : Nat) (exponent : Int) (sign : Bool × List Char) :
    Except Failure (Number × List Char) :=
  let (positive, text) := sign
  let digits := text.takeWhile isDigit
  let rest := text.dropWhile isDigit
  if digits.isEmpty then
    .error (.at (if rest.isEmpty then .eofValue else .invalidNumber) rest)
  else
    match appendDigits largestExponent 0 digits with
    | (value, []) => finish negative significand (if positive then exponent + value
        else exponent - value) rest
    | (_, _ :: unread) =>
      if significand ≠ 0 ∧ positive then .error (.before .numberOutOfRange (unread ++ rest))
      else .ok (.float (.zero negative), rest)

theorem readExponent_eq (negative : Bool) (significand : Nat) (exponent : Int)
    (text : List Char) : readExponent negative significand exponent text =
      readPower negative significand exponent (exponentSign text) := rfl

theorem exponentSign_cons (c : Char) (more after : List Char) : exponentSign (c :: more ++ after) =
    ((exponentSign (c :: more)).1, (exponentSign (c :: more)).2 ++ after) := by
  by_cases hplus : c = '+'
  · subst hplus
    rfl
  by_cases hminus : c = '-'
  · subst hminus
    rfl
  simp [exponentSign, hplus, hminus]

theorem exponentSign_suffix (text : List Char) : (exponentSign text).2 <:+ text := by
  unfold exponentSign
  split
  · exact List.suffix_cons _ _
  · exact List.suffix_cons _ _
  · exact List.suffix_rfl

theorem scans_readPower :
    Scans fun text ↦ readPower negative significand exponent (positive, text) := by
  intro text n rest hread
  have hsuffix : text.dropWhile isDigit <:+ text := List.dropWhile_suffix isDigit
  simp only [readPower] at hread ⊢
  by_cases hdigits : (text.takeWhile isDigit).isEmpty = true
  · rw [if_pos hdigits] at hread
    cases hread
  rw [if_neg hdigits] at hread
  split at hread
  · rename_i value hvalue
    obtain ⟨hrest, hscan⟩ := scans_finish hread
    refine ⟨hrest.trans hsuffix, fun after hafter ↦ ?_⟩
    rw [hafter.takeWhile_append, hafter.dropWhile_append, if_neg hdigits, hvalue]
    exact hscan after hafter
  · rename_i value c unread hvalue
    split_ifs at hread with hrange
    cases hread
    refine ⟨hsuffix, fun after hafter ↦ ?_⟩
    rw [hafter.takeWhile_append, hafter.dropWhile_append, if_neg hdigits, hvalue]
    exact if_neg hrange

theorem scans_readExponent : Scans (readExponent negative significand exponent) := by
  intro text n rest hread
  rw [readExponent_eq] at hread
  cases text with
  | nil => cases hread
  | cons c more =>
    obtain ⟨hrest, hscan⟩ := scans_readPower hread
    refine ⟨hrest.trans (exponentSign_suffix (c :: more)), fun after hafter ↦ ?_⟩
    rw [readExponent_eq, exponentSign_cons]
    exact hscan after hafter

theorem optionalExponent_eq_finish (hlower : text.head? ≠ some 'e')
    (hupper : text.head? ≠ some 'E') : optionalExponent negative significand exponent text =
      finish negative significand exponent text := by
  cases text with
  | nil => rfl
  | cons c more =>
    have hlower : c ≠ 'e' := by simpa using hlower
    have hupper : c ≠ 'E' := by simpa using hupper
    unfold optionalExponent
    split
    · rename_i hc
      exact absurd (List.cons.inj hc).1 hlower
    · rename_i hc
      exact absurd (List.cons.inj hc).1 hupper
    · rfl

theorem EndsNumber.head?_append_ne (hafter : EndsNumber after) {c : Char}
    (hc : isNumeric c = true) (htext : text.head? ≠ some c) : (text ++ after).head? ≠ some c := by
  cases text with
  | nil =>
    intro hhead
    exact absurd hc (Bool.eq_false_iff.mp (hafter c hhead))
  | cons d more => exact htext

theorem scans_optionalExponent : Scans (optionalExponent negative significand exponent) := by
  intro text n rest hread
  by_cases hlower : text.head? = some 'e'
  · obtain ⟨more, rfl⟩ := List.head?_eq_some_iff.mp hlower
    exact (scans_readExponent hread).imp_left (·.trans (List.suffix_cons 'e' more))
  by_cases hupper : text.head? = some 'E'
  · obtain ⟨more, rfl⟩ := List.head?_eq_some_iff.mp hupper
    exact (scans_readExponent hread).imp_left (·.trans (List.suffix_cons 'E' more))
  rw [optionalExponent_eq_finish hlower hupper] at hread
  refine (scans_finish hread).imp_right fun hscan after hafter ↦ ?_
  rw [optionalExponent_eq_finish (hafter.head?_append_ne (by decide) hlower)
    (hafter.head?_append_ne (by decide) hupper)]
  exact hscan after hafter

theorem scans_readFraction : Scans (readFraction negative significand exponent) := by
  intro text n rest hread
  simp only [readFraction] at hread ⊢
  by_cases hdigits : (text.takeWhile isDigit).isEmpty = true
  · rw [if_pos hdigits] at hread
    cases hread
  rw [if_neg hdigits] at hread
  obtain ⟨hrest, hscan⟩ := scans_optionalExponent hread
  refine ⟨hrest.trans (List.dropWhile_suffix isDigit), fun after hafter ↦ ?_⟩
  rw [hafter.takeWhile_append, hafter.dropWhile_append, if_neg hdigits]
  exact hscan after hafter

/-- Reads what follows the whole digits of a number. -/
def readAfterDigits (negative : Bool) (digits text : List Char) :
    Except Failure (Number × List Char) :=
  let (value, unread) := appendDigits largestSignificand 0 digits
  let exponent : Int := unread.length
  match text with
  | '.' :: rest => readFraction negative value exponent rest
  | 'e' :: rest => readExponent negative value exponent rest
  | 'E' :: rest => readExponent negative value exponent rest
  | rest =>
    if unread.isEmpty then .ok (wholeNumber negative value, rest)
    else finish negative value exponent rest

theorem readNumber_eq (negative : Bool) (text : List Char) : readNumber negative text =
    match text.takeWhile isDigit with
    | [] => .error (.at (if (text.dropWhile isDigit).isEmpty then .eofValue else .invalidNumber)
        (text.dropWhile isDigit))
    | '0' :: c :: more => .error (.at .invalidNumber (c :: more ++ text.dropWhile isDigit))
    | digits => readAfterDigits negative digits (text.dropWhile isDigit) := rfl

/-- A number without a fraction and an exponent. -/
theorem readAfterDigits_eq (negative : Bool) (digits : List Char) (hpoint : text.head? ≠ some '.')
    (hlower : text.head? ≠ some 'e') (hupper : text.head? ≠ some 'E') :
    readAfterDigits negative digits text =
      let (value, unread) := appendDigits largestSignificand 0 digits
      if unread.isEmpty then .ok (wholeNumber negative value, text)
      else finish negative value unread.length text := by
  cases text with
  | nil => rfl
  | cons c more =>
    have hpoint : c ≠ '.' := by simpa using hpoint
    have hlower : c ≠ 'e' := by simpa using hlower
    have hupper : c ≠ 'E' := by simpa using hupper
    unfold readAfterDigits
    simp only
    split
    · rename_i hc
      exact absurd (List.cons.inj hc).1 hpoint
    · rename_i hc
      exact absurd (List.cons.inj hc).1 hlower
    · rename_i hc
      exact absurd (List.cons.inj hc).1 hupper
    · rfl

theorem scans_readAfterDigits (digits : List Char) :
    Scans (readAfterDigits negative digits) := by
  intro text n rest hread
  by_cases hpoint : text.head? = some '.'
  · obtain ⟨more, rfl⟩ := List.head?_eq_some_iff.mp hpoint
    exact (scans_readFraction hread).imp_left (·.trans (List.suffix_cons '.' more))
  by_cases hlower : text.head? = some 'e'
  · obtain ⟨more, rfl⟩ := List.head?_eq_some_iff.mp hlower
    exact (scans_readExponent hread).imp_left (·.trans (List.suffix_cons 'e' more))
  by_cases hupper : text.head? = some 'E'
  · obtain ⟨more, rfl⟩ := List.head?_eq_some_iff.mp hupper
    exact (scans_readExponent hread).imp_left (·.trans (List.suffix_cons 'E' more))
  rw [readAfterDigits_eq negative digits hpoint hlower hupper] at hread
  have happend {after : List Char} (hafter : EndsNumber after) :=
    readAfterDigits_eq negative digits
      (hafter.head?_append_ne (by decide) hpoint) (hafter.head?_append_ne (by decide) hlower)
      (hafter.head?_append_ne (by decide) hupper)
  simp only at hread
  split_ifs at hread with hunread
  · cases hread
    refine ⟨List.suffix_rfl, fun after hafter ↦ ?_⟩
    rw [happend hafter]
    exact if_pos hunread
  · refine (scans_finish hread).imp_right fun hscan after hafter ↦ ?_
    rw [happend hafter]
    simp only [if_neg hunread]
    exact hscan after hafter

theorem scans_readNumber : Scans (readNumber negative) := by
  intro text n rest hread
  rw [readNumber_eq] at hread
  split at hread
  · cases hread
  · cases hread
  · rename_i hnil hzero
    obtain ⟨hrest, hscan⟩ := scans_readAfterDigits _ hread
    refine ⟨hrest.trans (List.dropWhile_suffix isDigit), fun after hafter ↦ ?_⟩
    rw [readNumber_eq, hafter.takeWhile_append, hafter.dropWhile_append]
    split
    · rename_i hdigits
      exact absurd hdigits hnil
    · rename_i hdigits
      exact absurd hdigits (hzero _ _)
    · exact hscan after hafter

end Following

/-! ### The text of a number -/

theorem isDigit_of_mem_decimalDigits {n : Nat} {c : Char} (hc : c ∈ decimalDigits n) :
    isDigit c = true := by
  have hdigit : c.isDigit = true :=
    Nat.isDigit_of_mem_toDigits (b := 10) (by decide) (by decide) hc
  simpa [isDigit, Char.isDigit, Char.le_def] using hdigit

theorem all_isNumeric_decimalText (d : Decimal) : d.text.all isNumeric = true := by
  have hmem {n : Nat} {c : Char} (hc : c ∈ decimalDigits n) : isNumeric c = true := by
    simp [isNumeric, isDigit_of_mem_decimalDigits hc]
  have hdigits (n : Nat) : (decimalDigits n).all isNumeric = true :=
    List.all_eq_true.mpr fun c hc ↦ hmem hc
  have htake (n k : Nat) : ((decimalDigits n).take k).all isNumeric = true :=
    List.all_eq_true.mpr fun c hc ↦ hmem (List.mem_of_mem_take hc)
  have hdrop (n k : Nat) : ((decimalDigits n).drop k).all isNumeric = true :=
    List.all_eq_true.mpr fun c hc ↦ hmem (List.mem_of_mem_drop hc)
  have hzeros (k : Nat) : (List.replicate k '0').all isNumeric = true := by
    rw [List.all_replicate]
    split_ifs <;> decide
  have hmarks : ['0', '.', 'e', '-', '+'].all isNumeric = true := by decide
  simp only [List.all_cons, List.all_nil, Bool.and_eq_true] at hmarks
  unfold Decimal.text
  simp only
  split_ifs <;> simp only [List.all_append, List.all_cons, List.all_nil, hdigits, htake, hdrop,
    hzeros, hmarks, Bool.and_self]

theorem all_isNumeric_text (n : Number) : n.text.all isNumeric = true := by
  have hminus : isNumeric '-' = true := by decide
  cases n with
  | integer value =>
    have hdigits : (decimalDigits value.natAbs).all isNumeric = true := by
      refine List.all_eq_true.mpr fun c hc ↦ ?_
      simp [isNumeric, isDigit_of_mem_decimalDigits hc]
    rw [Number.text, intText]
    split_ifs
    · rw [List.all_cons, hminus, hdigits, Bool.and_self]
    · exact hdigits
  | float value =>
    have hmagnitude : (if value.isZero then ['0', '.', '0'] else value.shortest.text).all
        isNumeric = true := by
      split_ifs
      · decide
      · exact all_isNumeric_decimalText _
    change (if value.negative then '-' :: _ else _).all isNumeric = true
    by_cases hnegative : value.negative = true
    · rw [if_pos hnegative, List.all_cons, hminus, hmagnitude, Bool.and_self]
    · rw [if_neg hnegative]
      exact hmagnitude

/-! ### Whole numbers -/

theorem head?_decimalDigits_ne {n : Nat} (hn : n ≠ 0) : (decimalDigits n).head? ≠ some '0' := by
  induction n using Nat.strongRecOn with
  | ind n ih =>
    rw [decimalDigits, Nat.toDigits_eq_if (by decide)]
    split_ifs with hsmall
    · interval_cases n <;> first | exact absurd rfl hn | decide
    · have hquotient : n / 10 ≠ 0 := by omega
      rw [List.head?_append_of_ne_nil _ Nat.toDigits_ne_nil]
      exact ih (n / 10) (by omega) hquotient

theorem le_ofDigitChars (digits : List Char) (value : Nat) :
    value ≤ Nat.ofDigitChars 10 digits value := by
  induction digits generalizing value with
  | nil => rw [Nat.ofDigitChars_nil]
  | cons c rest ih =>
    rw [Nat.ofDigitChars_cons]
    exact le_trans (by omega) (ih _)

theorem appendDigits_eq {limit value : Nat} {digits : List Char}
    (hlimit : Nat.ofDigitChars 10 digits value ≤ limit) :
    appendDigits limit value digits = (Nat.ofDigitChars 10 digits value, []) := by
  induction digits generalizing value with
  | nil => rw [appendDigits, Nat.ofDigitChars_nil]
  | cons c rest ih =>
    have hnext : 10 * value + (c.toNat - '0'.toNat) = value * 10 + digitValue c := by
      rw [Nat.mul_comm]
      rfl
    rw [Nat.ofDigitChars_cons, hnext] at hlimit ⊢
    rw [appendDigits, if_pos (le_trans (le_ofDigitChars rest _) hlimit)]
    exact ih hlimit

theorem readNumber_decimalDigits (negative : Bool) {n : Nat} (hn : n ≤ largestSignificand) :
    readNumber negative (decimalDigits n) = .ok (wholeNumber negative n, []) := by
  have hall : ∀ c ∈ decimalDigits n, isDigit c = true := fun _ ↦ isDigit_of_mem_decimalDigits
  have hdigits : (decimalDigits n).takeWhile isDigit = decimalDigits n :=
    List.takeWhile_eq_self_iff.mpr hall
  have hrest : (decimalDigits n).dropWhile isDigit = [] := List.dropWhile_eq_nil_iff.mpr hall
  have hvalue : Nat.ofDigitChars 10 (decimalDigits n) 0 = n := Nat.ofDigitChars_ten_toDigits
  have happend : appendDigits largestSignificand 0 (decimalDigits n) = (n, []) := by
    rw [appendDigits_eq (by rwa [hvalue]), hvalue]
  rw [readNumber_eq, hdigits, hrest]
  split
  · rename_i hnil
    exact absurd hnil Nat.toDigits_ne_nil
  · rename_i c more hzero
    have hn0 : n ≠ 0 := by
      rintro rfl
      cases hzero
    exact absurd (by rw [hzero]; rfl) (head?_decimalDigits_ne hn0)
  · rw [readAfterDigits_eq _ _ (by simp) (by simp) (by simp), happend]
    rfl

end EventSchema.Json
