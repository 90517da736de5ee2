import EventSchema.Proofs.Pointer
import EventSchema.Reference
import Mathlib.Tactic.SplitIfs

/-!
# Pointers as they are written

To escape a segment is to replace its tildes and then its slashes, and to read it back is to replace
the written slashes and then the written tildes (`escapeChars_eq_replace`,
`unescapeChars_eq_replace`). Whatever the segments hold, the text of a pointer is read as that
pointer, so no two pointers have the same text, and a text that is read once may be written and read
again (`text_lossless`).
-/

set_option autoImplicit false

namespace EventSchema.Pointer

/-! ### Escapes as replacements -/

/-- Replaces every occurrence of a character. -/
def replaceChar (mark : Char) (replacement text : List Char) : List Char :=
  text.flatMap fun c ↦ if c = mark then replacement else [c]

/-- Replaces the occurrences of two characters in a row, from the left. -/
def replacePair (first second replacement : Char) : List Char → List Char
  | c :: d :: rest =>
    if c = first ∧ d = second then replacement :: replacePair first second replacement rest
    else c :: replacePair first second replacement (d :: rest)
  | text => text

section Replace

variable {first second replacement c : Char} {rest : List Char}

theorem replacePair_cons_of_ne (hc : c ≠ first) : replacePair first second replacement (c :: rest) =
    c :: replacePair first second replacement rest := by
  cases rest with
  | nil => rfl
  | cons d rest => rw [replacePair, if_neg fun h ↦ hc h.1]

theorem replacePair_cons_of_head?_ne (hrest : rest.head? ≠ some second) :
    replacePair first second replacement (c :: rest) =
      c :: replacePair first second replacement rest := by
  cases rest with
  | nil => rfl
  | cons d rest => rw [replacePair, if_neg fun h ↦ hrest (congrArg some h.2)]

/-- A replacement brings no other character to the front than its own. -/
theorem head?_replacePair_ne {other : Char} (hother : other ≠ replacement)
    (hrest : rest.head? ≠ some other) :
    (replacePair first second replacement rest).head? ≠ some other := by
  cases rest with
  | nil => exact hrest
  | cons c rest =>
    cases rest with
    | nil => exact hrest
    | cons d rest =>
      rw [replacePair]
      split_ifs
      · exact fun h ↦ hother (Option.some.inj h).symm
      · exact hrest

end Replace

theorem escapeChars_eq_replace (segment : List Char) :
    escapeChars segment = replaceChar '/' ['~', '1'] (replaceChar '~' ['~', '0'] segment) := by
  fun_induction escapeChars segment with
  | case1 => rfl
  | case2 rest ih => simp_all [replaceChar]
  | case3 rest ih => simp_all [replaceChar]
  | case4 c rest htilde hslash ih =>
    have hc : c ≠ '~' ∧ c ≠ '/' := ⟨htilde, hslash⟩
    simp_all [replaceChar]

/-- Slashes come first: a tilde that is read back may not make an escape with what follows it. -/
theorem unescapeChars_eq_replace (token : List Char) :
    unescapeChars token = replacePair '~' '0' '~' (replacePair '~' '1' '/' token) := by
  fun_induction unescapeChars token with
  | case1 => rfl
  | case2 rest ih =>
    have hinner : replacePair '~' '1' '/' ('~' :: '0' :: rest) =
        '~' :: '0' :: replacePair '~' '1' '/' rest := by
      rw [replacePair_cons_of_head?_ne (by simp), replacePair_cons_of_ne (by decide)]
    rw [hinner, replacePair, if_pos ⟨rfl, rfl⟩, ih]
  | case3 rest ih =>
    rw [replacePair, if_pos ⟨rfl, rfl⟩, replacePair_cons_of_ne (by decide), ih]
  | case4 c rest hzero hone ih =>
    by_cases hc : c = '~'
    · have hhead {d : Char} (hd : ∀ more, rest ≠ d :: more) : rest.head? ≠ some d := by
        intro h
        obtain ⟨more, hmore⟩ := List.head?_eq_some_iff.mp h
        exact hd more hmore
      have hzero' : rest.head? ≠ some '0' := hhead fun more hmore ↦ hzero more hc hmore
      have hone' : rest.head? ≠ some '1' := hhead fun more hmore ↦ hone more hc hmore
      rw [replacePair_cons_of_head?_ne hone',
        replacePair_cons_of_head?_ne (head?_replacePair_ne (by decide) hzero'), ih]
    · rw [replacePair_cons_of_ne hc, replacePair_cons_of_ne hc, ih]

/-- In the other order the two replacements read the escape of `~1` as a slash. -/
example : replacePair '~' '1' '/' (replacePair '~' '0' '~' (escapeChars ['~', '1'])) = ['/'] := by
  decide

/-! ### Reading texts -/

/-- The text less the mark in front of it, if there is one. -/
def unmarked : List Char → List Char
  | '#' :: body => body
  | text => text

/-- Reading begins behind the mark. -/
theorem parseChars?_eq (text : List Char) : parseChars? text =
    match unmarked text with
    | [] => some ⟨[]⟩
    | '/' :: rest =>
      some ⟨(Text.split (· = '/') rest).map fun part ↦ String.ofList (unescapeChars part)⟩
    | _ => none := rfl

theorem unmarked_of_head?_ne {text : List Char} (htext : text.head? ≠ some '#') :
    unmarked text = text := by
  rw [unmarked]
  rintro body rfl
  exact htext rfl

theorem parseChars?_mark {body : List Char} (hbody : body.head? ≠ some '#') :
    parseChars? ('#' :: body) = parseChars? body := by
  rw [parseChars?_eq body, unmarked_of_head?_ne hbody]
  rfl

theorem head?_flatMap_ne (segments : List String) :
    (segments.flatMap fun segment ↦ '/' :: escapeChars segment.toList).head? ≠ some '#' := by
  cases segments <;> simp

/-- The text of a pointer is read as the pointer. -/
theorem parse?_text (pointer : Pointer) : parse? pointer.text = some pointer := by
  have hpath := parse?_path pointer
  rw [parse?, path, textChars, List.tail_cons, String.toList_ofList] at hpath
  rw [parse?, text, String.toList_ofList, textChars, parseChars?_mark (head?_flatMap_ne _), hpath]

/-- The text of a pointer, as a reference, is one to its place in the same document. -/
theorem parse?_internal_text (pointer : Pointer) :
    Reference.parse? pointer.text = some (.internal pointer) := by
  have hparse := parse?_text pointer
  rw [parse?, text, String.toList_ofList] at hparse
  rw [Reference.parse?, text, String.toList_ofList, Reference.parseChars?,
    if_pos (show pointer.textChars.head? = some '#' from rfl), hparse, Option.map_some]

/-- Pointers lose nothing by being written: the text of a pointer is read as that pointer, also as a
reference, no other pointer has the same text, and what a text is read as stays the same when it is
written and read again. -/
theorem text_lossless :
    (∀ segments, parse? (text ⟨segments⟩) = some ⟨segments⟩) ∧
      (∀ segments, Reference.parse? (text ⟨segments⟩) = some (.internal ⟨segments⟩)) ∧
      (∀ first second : Pointer, first.text = second.text → first = second) ∧
      ∀ written, (parse? written).bind (fun pointer ↦ parse? pointer.text) = parse? written := by
  refine ⟨fun segments ↦ parse?_text ⟨segments⟩, fun segments ↦ parse?_internal_text ⟨segments⟩,
    ?_, fun written ↦ ?_⟩
  · intro first second htext
    have hfirst := parse?_text first
    rw [htext, parse?_text second] at hfirst
    exact (Option.some.inj hfirst).symm
  · cases parse? written with
    | none => rfl
    | some pointer => exact parse?_text pointer

/-- Segments that are empty or look like escapes. -/
example : text ⟨["", "~1", "~01/#"]⟩ = "#//~01/~001~1#" ∧
    parse? "#//~01/~001~1#" = some ⟨["", "~1", "~01/#"]⟩ := by
  decide

end EventSchema.Pointer
