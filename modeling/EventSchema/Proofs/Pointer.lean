import EventSchema.Pointer
import EventSchema.Proofs.Text

/-!
# Pointers and their texts

A path is read as the pointer that it is the text of, whatever its segments hold
(`parse?_path`), and an array position in decimal is read as the position
(`index?_toDigits`). Looking up goes segment by segment, so that a look-up along two lists of
segments is one after the other (`lookup_append`).
-/

set_option autoImplicit false

namespace EventSchema.Pointer

/-! ### Reading a path -/

theorem slash_notMem_escapeChars (segment : List Char) : '/' ∉ escapeChars segment := by
  fun_induction escapeChars segment with
  | case1 => exact List.not_mem_nil
  | case2 rest ih => simpa using ih
  | case3 rest ih => simpa using ih
  | case4 c rest hTilde hSlash ih =>
    rw [List.mem_cons, not_or]
    exact ⟨fun hc ↦ hSlash hc.symm, ih⟩

/-- What follows the first slash are the escaped segments with slashes between them. -/
theorem flatMap_eq_join {segments : List String} (hne : segments ≠ []) :
    (segments.flatMap fun segment ↦ '/' :: escapeChars segment.toList) =
      '/' :: Text.join ['/'] (segments.map fun segment ↦ escapeChars segment.toList) := by
  induction segments with
  | nil => exact absurd rfl hne
  | cons segment rest ih =>
    cases rest with
    | nil => simp [Text.join]
    | cons next others =>
      rw [List.flatMap_cons, ih (List.cons_ne_nil _ _)]
      simp [Text.join]

theorem split_join_escapeChars {segments : List String} (hne : segments ≠ []) :
    Text.split (· = '/')
        (Text.join ['/'] (segments.map fun segment ↦ escapeChars segment.toList)) =
      segments.map fun segment ↦ escapeChars segment.toList := by
  refine Text.split_join (by simp) (by simpa using hne) ?_
  rw [List.forall_mem_map]
  intro segment _ c hc
  rw [decide_eq_false_iff_not]
  rintro rfl
  exact slash_notMem_escapeChars _ hc

theorem parseChars?_slash (rest : List Char) : parseChars? ('/' :: rest) =
    some ⟨(Text.split (· = '/') rest).map fun part ↦ String.ofList (unescapeChars part)⟩ := rfl

/-- A path is read as the pointer it is the text of. -/
theorem parse?_path (pointer : Pointer) : parse? pointer.path = some pointer := by
  obtain ⟨segments⟩ := pointer
  rw [parse?, path, textChars, List.tail_cons, String.toList_ofList]
  by_cases hne : segments = []
  · subst hne
    rfl
  · rw [flatMap_eq_join hne, parseChars?_slash, split_join_escapeChars hne, List.map_map]
    simp only [Function.comp_def, unescapeChars_escapeChars, String.ofList_toList, List.map_id']

theorem path_injective : Function.Injective path := by
  intro first second hpath
  have hparse := parse?_path first
  rw [hpath, parse?_path] at hparse
  exact (Option.some.inj hparse).symm

/-! ### Array positions -/

theorem isAsciiDigit_eq_isDigit : Text.isAsciiDigit = Char.isDigit := by
  funext c
  simp [Text.isAsciiDigit, Char.isDigit, Char.le_def]

/-- What is read as a number are one or more digits that denote it. -/
theorem digits?_eq_some_iff {text : List Char} {n : Nat} : Text.digits? text = some n ↔
    text ≠ [] ∧ (∀ c ∈ text, c.isDigit = true) ∧ Nat.ofDigitChars 10 text 0 = n := by
  have hfold (digits : List Char) (value : Nat) :
      digits.foldl (fun value c ↦ value * 10 + (c.toNat - 48)) value =
        Nat.ofDigitChars 10 digits value := by
    induction digits generalizing value with
    | nil => rfl
    | cons c rest ih =>
      rw [List.foldl_cons, ih, Nat.ofDigitChars_cons, Nat.mul_comm]
      rfl
  rw [Text.digits?, hfold, isAsciiDigit_eq_isDigit]
  by_cases htext : text = [] <;> by_cases hall : ∀ c ∈ text, c.isDigit = true <;>
    simp [htext, hall]

theorem isDigit_of_mem_toDigits {n : Nat} {c : Char} (hc : c ∈ Nat.toDigits 10 n) :
    c.isDigit = true :=
  Nat.isDigit_of_mem_toDigits (b := 10) (by decide) (by decide) hc

theorem digits?_toDigits (n : Nat) : Text.digits? (Nat.toDigits 10 n) = some n :=
  digits?_eq_some_iff.mpr
    ⟨Nat.toDigits_ne_nil, fun _ hc ↦ isDigit_of_mem_toDigits hc, Nat.ofDigitChars_ten_toDigits⟩

/-- A position in decimal is read as the position, if a machine word holds it. -/
theorem index?_toDigits {n : Nat} (hn : n < Nat.pow 2 64) :
    index? (String.ofList (Nat.toDigits 10 n)) = some n := by
  have hplus : ∀ rest, Nat.toDigits 10 n ≠ '+' :: rest := by
    intro rest hrest
    have hdigit := isDigit_of_mem_toDigits (n := n) (c := '+') (by simp [hrest])
    exact absurd hdigit (by decide)
  rw [index?, String.toList_ofList]
  split
  · rename_i rest hrest
    exact absurd hrest (hplus rest)
  · rw [digits?_toDigits, Option.filter_some_pos]
    exact decide_eq_true hn

theorem toDigits_injective : Function.Injective (Nat.toDigits 10) := by
  intro m n hdigits
  have hm := digits?_toDigits m
  rw [hdigits, digits?_toDigits] at hm
  exact (Option.some.inj hm).symm

/-! ### Looking up -/

theorem lookup_cons (segment : String) (rest : List String) (root : Json) :
    lookup ⟨segment :: rest⟩ root = (step root segment).bind (lookup ⟨rest⟩) := rfl

theorem lookup_append (first second : List String) (root : Json) :
    lookup ⟨first ++ second⟩ root = (lookup ⟨first⟩ root).bind (lookup ⟨second⟩) := by
  rw [lookup, List.foldlM_append]
  rfl

end EventSchema.Pointer
