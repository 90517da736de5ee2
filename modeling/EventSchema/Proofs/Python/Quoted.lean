import EventSchema.Proofs.Json.RoundTrip
import EventSchema.Python.Literal

/-!
# String literals

A string literal is first delimited and then decoded: `scan` finds the closing quotes, which are
three if three open it, passing over every backslash together with the character after it, and
`decode` replaces the escapes in between. No literal holds the character zero, and one with single
closing quotes no end of a line. What is quoted in double quotes is one literal on one line, which
decodes to the text (`readString_quoteChars`); what is quoted as a docstring is one literal which
decodes to the text unless the text holds the character zero, which is not escaped
(`readString_docstringChars`).
-/

set_option autoImplicit false

namespace EventSchema.Python

/-! ### Reading literals -/

/-- The quotes that open a literal and close it; three are one delimiter wherever they stand. -/
def quotes : List (List Char) := [['"', '"', '"'], ['\x27', '\x27', '\x27'], ['"'], ['\x27']]

/-- Whether the character cannot stand in a literal that the quotes close. -/
def isRefused (closing : List Char) (c : Char) : Bool :=
  c == '\x00' || (closing.length == 1 && (c == '\n' || c == '\r'))

/-- The raw text up to the closing quotes, and what follows them; the first character may be one
that a backslash escapes. -/
def scan (closing : List Char) : Bool → List Char → Option (List Char × List Char)
  | _, [] => none
  | true, c :: rest =>
    if c = '\x00' then none
    else (scan closing false rest).map fun (raw, after) ↦ (c :: raw, after)
  | false, c :: rest =>
    if closing.isPrefixOf (c :: rest) then some ([], (c :: rest).drop closing.length)
    else if isRefused closing c then none
    else (scan closing (c == '\\') rest).map fun (raw, after) ↦ (c :: raw, after)

/-- What a backslash and one character stand for. -/
def simpleEscape? (mark : Char) : Option Char :=
  if mark = '\\' then some '\\'
  else if mark = '"' then some '"'
  else if mark = '\x27' then some '\x27'
  else if mark = 'n' then some '\n'
  else if mark = 'r' then some '\r'
  else if mark = 't' then some '\t'
  else if mark = 'a' then some '\x07'
  else if mark = 'b' then some '\x08'
  else if mark = 'v' then some '\x0b'
  else if mark = 'f' then some '\x0c'
  else none

/-- The character of the code point that is written in hexadecimal digits. -/
def ofHex? (digits : List Char) : Option Char := do
  let code ← digits.foldlM (fun code digit ↦ (Json.hexValue? digit).map (code * 16 + ·)) 0
  if code.isValidChar then some (Char.ofNat code) else none

/-- The text that a raw text stands for. Escapes by a name or by octal digits are not read, and
neither are backslashes that start no escape. -/
def decode : List Char → Option (List Char)
  | [] => some []
  | '\\' :: mark :: rest =>
    match simpleEscape? mark with
    | some c => (decode rest).map (c :: ·)
    | none =>
      match mark, rest with
      | 'x', a :: b :: rest => do return (← ofHex? [a, b]) :: (← decode rest)
      | 'u', a :: b :: c :: d :: rest => do return (← ofHex? [a, b, c, d]) :: (← decode rest)
      | 'U', a :: b :: c :: d :: e :: f :: g :: h :: rest => do
        return (← ofHex? [a, b, c, d, e, f, g, h]) :: (← decode rest)
      | '\n', rest => decode rest
      | _, _ => none
  | c :: rest => if c = '\\' then none else (decode rest).map (c :: ·)

/-- Reads a string literal: its text, and what follows it. -/
def readString (text : List Char) : Option (List Char × List Char) := do
  let closing ← quotes.find? (·.isPrefixOf text)
  let (raw, after) ← scan closing false (text.drop closing.length)
  return (← decode raw, after)

/-! ### Delimiting -/

/-- Scanning passes over the text, whatever follows it. -/
def Passes (closing text : List Char) : Prop :=
  ∀ after, scan closing false (text ++ after) =
    (scan closing false after).map fun (raw, rest) ↦ (text ++ raw, rest)

section Scan

variable {closing more text after : List Char}

theorem Passes.flatMap {escape : Char → List Char}
    (hescape : ∀ c ∈ text, Passes closing (escape c)) : Passes closing (text.flatMap escape) := by
  intro after
  induction text with
  | nil =>
    rw [List.flatMap_nil, List.nil_append]
    cases scan closing false after <;> rfl
  | cons c rest ih =>
    rw [List.forall_mem_cons] at hescape
    rw [List.flatMap_cons, List.append_assoc, hescape.1, ih hescape.2, Option.map_map]
    simp only [Function.comp_def, List.append_assoc]

theorem isPrefixOf_quotes {c : Char} (hc : c ≠ '"') (rest : List Char) :
    ('"' :: more).isPrefixOf (c :: rest) = false := by
  rw [List.isPrefixOf, beq_false_of_ne hc.symm, Bool.false_and]

/-- Single characters are passed over, but for quotes, backslashes and those that no literal
holds. -/
theorem passes_singleton {c : Char} (hquote : c ≠ '"') (hescape : c ≠ '\\')
    (hrefused : isRefused ('"' :: more) c = false) : Passes ('"' :: more) [c] := by
  intro after
  rw [List.singleton_append, scan, isPrefixOf_quotes hquote, if_neg Bool.false_ne_true, hrefused,
    if_neg Bool.false_ne_true, beq_false_of_ne hescape]
  rfl

/-- An escaped character is passed over, be it a quote, with the plain ones after it. -/
theorem passes_escape {escaped : Char} (hescaped : escaped ≠ '\x00')
    (hplain : ∀ c ∈ text, c ≠ '"' ∧ c ≠ '\\' ∧ isRefused ('"' :: more) c = false) :
    Passes ('"' :: more) ('\\' :: escaped :: text) := by
  have hpasses : Passes ('"' :: more) (text.flatMap fun c ↦ [c]) :=
    .flatMap fun c hc ↦ passes_singleton (hplain c hc).1 (hplain c hc).2.1 (hplain c hc).2.2
  rw [List.flatMap_singleton'] at hpasses
  intro after
  have hrefused : isRefused ('"' :: more) '\\' = false := by simp [isRefused]
  rw [List.cons_append, List.cons_append, scan, isPrefixOf_quotes (by decide),
    if_neg Bool.false_ne_true, hrefused, if_neg Bool.false_ne_true, BEq.rfl, scan,
    if_neg hescaped, hpasses, Option.map_map, Option.map_map]
  rfl

/-- A text that is passed over is the raw text of the literal that it is quoted to. -/
theorem Passes.scan_append (hpasses : Passes ('"' :: more) text) (after : List Char) :
    scan ('"' :: more) false (text ++ ('"' :: more ++ after)) = some (text, after) := by
  have hclosing : scan ('"' :: more) false ('"' :: more ++ after) = some ([], after) := by
    have hprefix : ('"' :: more).isPrefixOf ('"' :: (more ++ after)) = true :=
      List.isPrefixOf_iff_prefix.mpr (List.prefix_append ('"' :: more) after)
    rw [List.cons_append, scan, if_pos hprefix, ← List.cons_append, List.drop_left]
  rw [hpasses, hclosing, Option.map_some]
  simp only [List.append_nil]

/-- No literal holds the character zero. -/
theorem scan_zero (after : List Char) : scan ('"' :: more) false ('\x00' :: after) = none := by
  rw [scan, isPrefixOf_quotes (by decide), if_neg Bool.false_ne_true]
  simp [isRefused]

end Scan

/-! ### Decoding -/

section Decode

variable {rest : List Char}

theorem decode_cons {c : Char} (hc : c ≠ '\\') :
    decode (c :: rest) = (decode rest).map (c :: ·) := by
  rw [decode, if_neg hc]
  rintro _ _ rfl
  exact absurd rfl hc

theorem decode_simple {mark c : Char} (hmark : simpleEscape? mark = some c) :
    decode ('\\' :: mark :: rest) = (decode rest).map (c :: ·) := by
  conv_lhs => unfold decode
  simp only [hmark]

/-- A control character is written by its code point, of two digits that count. -/
theorem decode_control {c : Char} (hc : c.toNat < 256) :
    decode ('\\' :: 'u' :: '0' :: '0' :: Json.hexDigit (c.toNat / 16) ::
      Json.hexDigit (c.toNat % 16) :: rest) = (decode rest).map (c :: ·) := by
  have hzero : Json.hexValue? '0' = some 0 := by decide
  have hhigh := Json.hexValue?_hexDigit (c.toNat / 16) (by omega)
  have hlow := Json.hexValue?_hexDigit (c.toNat % 16) (by omega)
  have hcode : c.toNat / 16 * 16 + c.toNat % 16 = c.toNat := by omega
  have hvalid : c.toNat.isValidChar := c.valid
  have hchar : ofHex? ['0', '0', Json.hexDigit (c.toNat / 16), Json.hexDigit (c.toNat % 16)] =
      some c := by
    simp [ofHex?, hzero, hhigh, hlow, hcode, hvalid]
  have hmark : simpleEscape? 'u' = none := by decide
  rw [decode, hmark]
  simp only [hchar]
  cases decode rest <;> rfl

/-- What is escaped character by character is decoded character by character. -/
theorem decode_flatMap {escape : Char → List Char} {text : List Char}
    (hescape : ∀ c ∈ text, ∀ rest, decode (escape c ++ rest) = (decode rest).map (c :: ·)) :
    decode (text.flatMap escape) = some text := by
  induction text with
  | nil => rfl
  | cons c rest ih =>
    rw [List.forall_mem_cons] at hescape
    rw [List.flatMap_cons, hescape.1, ih hescape.2, Option.map_some]

end Decode

/-! ### Strings and docstrings -/

/-- A literal is read if the text between its quotes is passed over and decoded. -/
theorem readString_append {closing raw content after : List Char}
    (hquotes : quotes.find? (·.isPrefixOf (closing ++ (raw ++ (closing ++ after)))) = some closing)
    (hscan : scan closing false (raw ++ (closing ++ after)) = some (raw, after))
    (hdecode : decode raw = some content) :
    readString (closing ++ (raw ++ (closing ++ after))) = some (content, after) := by
  rw [readString, hquotes]
  simp only [Option.bind_eq_bind, Option.bind_some, List.drop_left, hscan, hdecode]
  rfl

theorem isRefused_eq_false_iff {c : Char} :
    isRefused ['"'] c = false ↔ c ≠ '\x00' ∧ c ≠ '\n' ∧ c ≠ '\r' := by
  simp [isRefused]

/-- Each character of a quoted string is passed over, is decoded from what it is escaped to, and
does not end the line. -/
theorem escapeChar_spec (c : Char) : Passes ['"'] (escapeChar c) ∧
    (∀ rest, decode (escapeChar c ++ rest) = (decode rest).map (c :: ·)) ∧
    ∀ d ∈ escapeChar c, d ≠ '\n' ∧ d ≠ '\r' := by
  have hsimple {c mark : Char} (hmark : simpleEscape? mark = some c) (hzero : mark ≠ '\x00')
      (hline : mark ≠ '\n' ∧ mark ≠ '\r') : Passes ['"'] ['\\', mark] ∧
        (∀ rest, decode (['\\', mark] ++ rest) = (decode rest).map (c :: ·)) ∧
        ∀ d ∈ ['\\', mark], d ≠ '\n' ∧ d ≠ '\r' := by
    refine ⟨passes_escape hzero (by simp), fun _ ↦ decode_simple hmark, ?_⟩
    exact List.forall_mem_cons.mpr ⟨by decide, List.forall_mem_singleton.mpr hline⟩
  unfold escapeChar
  split_ifs with hquote hescape hnewline hreturn htab hcontrol
  · subst hquote
    exact hsimple rfl (by decide) (by decide)
  · subst hescape
    exact hsimple rfl (by decide) (by decide)
  · subst hnewline
    exact hsimple rfl (by decide) (by decide)
  · subst hreturn
    exact hsimple rfl (by decide) (by decide)
  · subst htab
    exact hsimple rfl (by decide) (by decide)
  · have hcode : c.toNat < 256 := by
      simp only [isControl, Bool.or_eq_true, Bool.and_eq_true, decide_eq_true_eq] at hcontrol
      omega
    have hdigit : ∀ n < 16, Json.hexDigit n ≠ '"' ∧ Json.hexDigit n ≠ '\\' ∧
        isRefused ['"'] (Json.hexDigit n) = false := by decide
    have hplain : ∀ d ∈ ['0', '0', Json.hexDigit (c.toNat / 16), Json.hexDigit (c.toNat % 16)],
        d ≠ '"' ∧ d ≠ '\\' ∧ isRefused ['"'] d = false := by
      simp only [List.forall_mem_cons]
      exact ⟨by decide, by decide, hdigit _ (by omega), hdigit _ (by omega), by simp⟩
    refine ⟨passes_escape (by decide) hplain, fun rest ↦ decode_control hcode, ?_⟩
    simp only [List.forall_mem_cons (a := '\\'), List.forall_mem_cons (a := 'u')]
    exact ⟨by decide, by decide, fun d hd ↦ (isRefused_eq_false_iff.mp (hplain d hd).2.2).2⟩
  · have hzero : c ≠ '\x00' := by
      rintro rfl
      exact hcontrol (by decide)
    have hrefused := isRefused_eq_false_iff.mpr ⟨hzero, hnewline, hreturn⟩
    exact ⟨passes_singleton hquote hescape hrefused, fun _ ↦ decode_cons hescape,
      List.forall_mem_singleton.mpr ⟨hnewline, hreturn⟩⟩

/-- A text that is passed over does not start with the closing quote. -/
theorem Passes.head?_ne {text : List Char} (hpasses : Passes ['"'] text) :
    text.head? ≠ some '"' := by
  intro hhead
  obtain ⟨rest, rfl⟩ := List.head?_eq_some_iff.mp hhead
  cases hpasses []

/-- One quote opens the literal: the text does not start with one, and what follows does not. -/
theorem find?_quotes {raw after : List Char} (hraw : raw.head? ≠ some '"')
    (hafter : after.head? ≠ some '"') :
    quotes.find? (·.isPrefixOf (['"'] ++ (raw ++ (['"'] ++ after)))) = some ['"'] := by
  cases raw with
  | nil =>
    cases after with
    | nil => rfl
    | cons c rest =>
      have hc : '"' ≠ c := fun h ↦ hafter (by rw [← h]; rfl)
      simp [quotes, List.isPrefixOf, hc]
  | cons c rest =>
    have hc : '"' ≠ c := fun h ↦ hraw (by rw [← h]; rfl)
    simp [quotes, List.isPrefixOf, hc]

/-- A quoted string is one literal, whatever follows it, unless another quote does: after the empty
string it would open a longer literal. -/
theorem readString_quoteChars (text : List Char) {after : List Char}
    (hafter : after.head? ≠ some '"') :
    readString (quoteChars text ++ after) = some (text, after) := by
  have hpasses : Passes ['"'] (text.flatMap escapeChar) :=
    .flatMap fun c _ ↦ (escapeChar_spec c).1
  have hdecode : decode (text.flatMap escapeChar) = some text :=
    decode_flatMap fun c _ ↦ (escapeChar_spec c).2.1
  have hchars : quoteChars text ++ after =
      ['"'] ++ (text.flatMap escapeChar ++ (['"'] ++ after)) := by simp [quoteChars]
  rw [hchars]
  exact readString_append (find?_quotes hpasses.head?_ne hafter) (hpasses.scan_append after) hdecode

/-- A quoted string stays on its line. -/
theorem quoteChars_oneLine (text : List Char) {c : Char} (hc : c ∈ quoteChars text) :
    c ≠ '\n' ∧ c ≠ '\r' := by
  rcases List.mem_append.mp hc with hc | hc
  · rcases List.mem_cons.mp hc with rfl | hc
    · decide
    · obtain ⟨d, -, hmem⟩ := List.mem_flatMap.mp hc
      exact (escapeChar_spec d).2.2 c hmem
  · rw [List.mem_singleton.mp hc]
    decide

/-- The three quotes around a docstring. -/
def tripleQuotes : List Char := ['"', '"', '"']

theorem docstringChars_cons (c : Char) (rest : List Char) :
    docstringChars (c :: rest) = docstringChars [c] ++ docstringChars rest := by
  rw [docstringChars, docstringChars, docstringChars, List.flatMap_cons, List.flatMap_singleton]

/-- Each character of a docstring but zero is passed over, and decoded from what it is escaped
to. -/
theorem docstringChars_spec {c : Char} (hc : c ≠ '\x00') :
    Passes tripleQuotes (docstringChars [c]) ∧
      ∀ rest, decode (docstringChars [c] ++ rest) = (decode rest).map (c :: ·) := by
  rw [docstringChars, List.flatMap_singleton]
  split_ifs with hescape hquote
  · subst hescape
    exact ⟨passes_escape (by decide) (by simp), fun _ ↦ decode_simple rfl⟩
  · subst hquote
    exact ⟨passes_escape (by decide) (by simp), fun _ ↦ decode_simple rfl⟩
  · have hrefused : isRefused tripleQuotes c = false := by simp [isRefused, tripleQuotes, hc]
    exact ⟨passes_singleton hquote hescape hrefused, fun _ ↦ decode_cons hescape⟩

/-- Scanning fails at the character zero. -/
theorem scan_docstringChars_of_mem {text : List Char} (hzero : '\x00' ∈ text) (after : List Char) :
    scan tripleQuotes false (docstringChars text ++ after) = none := by
  induction text with
  | nil => exact absurd hzero List.not_mem_nil
  | cons c rest ih =>
    rw [docstringChars_cons, List.append_assoc]
    by_cases hc : c = '\x00'
    · subst hc
      exact scan_zero _
    · have hrest : '\x00' ∈ rest := (List.mem_cons.mp hzero).resolve_left (Ne.symm hc)
      rw [(docstringChars_spec hc).1, ih hrest, Option.map_none]

/-- A docstring is one literal that decodes to the text, whatever the text holds but the character
zero: that one is not escaped, and no literal holds it. -/
theorem readString_docstringChars (text after : List Char) :
    readString (tripleQuotes ++ (docstringChars text ++ (tripleQuotes ++ after))) =
      if '\x00' ∈ text then none else some (text, after) := by
  have hquotes (raw : List Char) :
      quotes.find? (·.isPrefixOf (tripleQuotes ++ raw)) = some tripleQuotes := by
    simp [quotes, tripleQuotes, List.isPrefixOf]
  split_ifs with hzero
  · rw [readString, hquotes]
    simp only [Option.bind_eq_bind, Option.bind_some, List.drop_left,
      scan_docstringChars_of_mem hzero, Option.bind_none]
  · have hchars (c : Char) (hc : c ∈ text) : c ≠ '\x00' := fun h ↦ hzero (h ▸ hc)
    have htext : docstringChars text = text.flatMap fun c ↦ docstringChars [c] := by
      simp [docstringChars]
    rw [htext]
    refine readString_append (hquotes _) (Passes.scan_append ?_ after) ?_
    · exact .flatMap fun c hc ↦ (docstringChars_spec (hchars c hc)).1
    · exact decode_flatMap fun c hc ↦ (docstringChars_spec (hchars c hc)).2

end EventSchema.Python
