import EventSchema.Proofs.Json.Distinct
import EventSchema.Proofs.Json.Number

/-!
# Reading what was written

The text of a value is read as the value, and a value that is nested too deep is refused
(`parse_pretty_append`), if the objects have distinct keys and the numbers read back, as integers of
64 bits do (`readsBack_integer`). Each production of the reader has one lemma for success and for
too much depth at once (`Rereads`), and the text of a value goes through them by induction on the
value (`rereads_readValue`).
-/

set_option autoImplicit false

namespace EventSchema

namespace Json

/-! ### Nesting -/

mutual

/-- How many arrays and objects are open at once. -/
def nesting : Json → Nat
  | .array items => nestingOfItems items + 1
  | .object members => nestingOfMembers members + 1
  | _ => 0

def nestingOfItems : List Json → Nat
  | [] => 0
  | item :: rest => max item.nesting (nestingOfItems rest)

def nestingOfMembers : List (String × Json) → Nat
  | [] => 0
  | (_, value) :: rest => max value.nesting (nestingOfMembers rest)

end

mutual

def numbers : Json → List Number
  | .number n => [n]
  | .array items => numbersOfItems items
  | .object members => numbersOfMembers members
  | _ => []

def numbersOfItems : List Json → List Number
  | [] => []
  | item :: rest => item.numbers ++ numbersOfItems rest

def numbersOfMembers : List (String × Json) → List Number
  | [] => []
  | (_, value) :: rest => value.numbers ++ numbersOfMembers rest

end

theorem nestingOfMembers_le_iff {members : List (String × Json)} {depth : Nat} :
    nestingOfMembers members ≤ depth ↔ ∀ entry ∈ members, entry.2.nesting ≤ depth := by
  induction members with
  | nil => simp [nestingOfMembers]
  | cons entry rest ih => rw [nestingOfMembers, Nat.max_le, ih, List.forall_mem_cons]

theorem mem_numbersOfMembers_iff {members : List (String × Json)} {n : Number} :
    n ∈ numbersOfMembers members ↔ ∃ entry ∈ members, n ∈ entry.2.numbers := by
  induction members with
  | nil => simp [numbersOfMembers]
  | cons entry rest ih => rw [numbersOfMembers, List.mem_append, ih, List.exists_mem_cons_iff]

/-! ### Outcomes -/

/-- The run gives the result and leaves the rest if the value fits, and fails otherwise because it
is too deep. -/
inductive Rereads {α : Type} {text : List Char} (fits : Prop) (result : α) (rest : List Char) :
    Except Failure (α × Rest text) → Prop
  | ok (hfits : fits) (hrest : rest.length < text.length) :
    Rereads fits result rest (.ok (result, ⟨rest, hrest⟩))
  | tooDeep (hfits : ¬fits) (bytesLeft : Nat) :
    Rereads fits result rest (.error ⟨.tooDeep, bytesLeft⟩)

namespace Rereads

variable {α β : Type} {text text' rest rest' : List Char} {fits fits' : Prop}
  {first : α} {result : β}

theorem bind {run : Except Failure (α × Rest text)}
    {next : α × Rest text → Except Failure (β × Rest text')}
    (hrun : Rereads fits first rest run)
    (hnext : fits → ∀ hrest, Rereads fits' result rest' (next (first, ⟨rest, hrest⟩)))
    (hfits : fits' → fits) : Rereads fits' result rest' (run >>= next) := by
  cases hrun with
  | ok hfirst hrest => exact hnext hfirst hrest
  | tooDeep hfirst bytesLeft => exact .tooDeep (fun h ↦ hfirst (hfits h)) bytesLeft

theorem of_true {run : Except Failure (α × Rest text)} (hrun : Rereads True first rest run)
    (hfits : fits) : Rereads fits first rest run := by
  cases hrun with
  | ok _ hrest => exact .ok hfits hrest
  | tooDeep hfalse _ => exact absurd trivial hfalse

end Rereads

theorem next?_eq {text rest : List Char} {c : Char} (htext : skipBlanks text = c :: rest) :
    next? text = some (c, ⟨rest, length_lt_of_skipBlanks htext⟩) := by
  unfold next?
  split
  · rename_i hnil
    rw [htext] at hnil
    cases hnil
  · rename_i d more hcons
    rw [htext] at hcons
    cases hcons
    rfl

/-! ### Strings -/

theorem hexValue?_hexDigit : ∀ n < 16, hexValue? (hexDigit n) = some n := by decide

theorem rereads_readHexQuad {n : Nat} (hn : n < 32) (after : List Char) :
    Rereads True n after
      (readHexQuad ('0' :: '0' :: hexDigit (n / 16) :: hexDigit (n % 16) :: after)) := by
  have hzero : hexValue? '0' = some 0 := by decide
  have hhigh : hexValue? (hexDigit (n / 16)) = some (n / 16) := hexValue?_hexDigit _ (by omega)
  have hlow : hexValue? (hexDigit (n % 16)) = some (n % 16) := hexValue?_hexDigit _ (by omega)
  have hvalue : ((0 * 16 + 0) * 16 + n / 16) * 16 + n % 16 = n := by omega
  rw [readHexQuad]
  simp only [hzero, hhigh, hlow, hvalue]
  exact .ok trivial _

/-- A character is written as it is or as an escape that stands for it. -/
theorem escapeChar_cases (c : Char) :
    (escapeChar c = [c] ∧ c ≠ '"' ∧ c ≠ '\\' ∧ ¬c.toNat < 32) ∨
      ∃ escape, escapeChar c = '\\' :: escape ∧
        ∀ after, Rereads True c after (readEscape (escape ++ after)) := by
  unfold escapeChar
  split_ifs with hquote hescape hnewline htab hreturn hback hfeed hcontrol
  · subst hquote
    exact .inr ⟨_, rfl, fun _ ↦ .ok trivial _⟩
  · subst hescape
    exact .inr ⟨_, rfl, fun _ ↦ .ok trivial _⟩
  · subst hnewline
    exact .inr ⟨_, rfl, fun _ ↦ .ok trivial _⟩
  · subst htab
    exact .inr ⟨_, rfl, fun _ ↦ .ok trivial _⟩
  · subst hreturn
    exact .inr ⟨_, rfl, fun _ ↦ .ok trivial _⟩
  · subst hback
    exact .inr ⟨_, rfl, fun _ ↦ .ok trivial _⟩
  · subst hfeed
    exact .inr ⟨_, rfl, fun _ ↦ .ok trivial _⟩
  · refine .inr ⟨_, rfl, fun after ↦ ?_⟩
    have hlow : ¬(0xDC00 ≤ c.toNat ∧ c.toNat ≤ 0xDFFF) := by omega
    have hhigh : ¬(0xD800 ≤ c.toNat ∧ c.toNat ≤ 0xDBFF) := by omega
    refine (rereads_readHexQuad hcontrol after).bind (fun _ hrest ↦ ?_) id
    simp only [if_neg hlow, if_neg hhigh, Char.ofNat_toNat]
    exact .ok trivial _
  · exact .inl ⟨rfl, hquote, hescape, hcontrol⟩

/-- The characters of a string and the quote after them. -/
theorem rereads_readString (chars read rest : List Char) :
    Rereads True (String.ofList (read.reverse ++ chars)) rest
      (readString read (chars.flatMap escapeChar ++ '"' :: rest)) := by
  induction chars generalizing read with
  | nil =>
    rw [List.flatMap_nil, List.nil_append, List.append_nil, readString, if_pos rfl]
    exact .ok trivial (by simp)
  | cons c chars ih =>
    have hrest := ih (c :: read)
    rw [List.reverse_cons, List.append_assoc, List.singleton_append] at hrest
    rw [List.flatMap_cons, List.append_assoc]
    rcases escapeChar_cases c with ⟨hplain, hquote, hescape, hcontrol⟩ | ⟨escape, hescape, hread⟩
    · rw [hplain, List.singleton_append, readString, if_neg hquote, if_neg hescape,
        if_neg hcontrol]
      exact hrest.bind (fun _ _ ↦ .ok trivial _) id
    · rw [hescape, List.cons_append, readString, if_neg (by decide), if_pos rfl]
      refine (hread _).bind (fun _ _ ↦ ?_) id
      exact hrest.bind (fun _ _ ↦ .ok trivial _) id

/-! ### Numbers -/

/-- The text is read as the number. -/
inductive ReadAs (n : Number) : List Char → Prop
  | positive {c : Char} {more : List Char} (hc : isDigit c = true)
    (hread : readNumber false (c :: more) = .ok (n, [])) : ReadAs n (c :: more)
  | negative {more : List Char} (hread : readNumber true more = .ok (n, [])) :
    ReadAs n ('-' :: more)

theorem skipBlanks_cons {c : Char} (hc : isBlank c = false) (rest : List Char) :
    skipBlanks (c :: rest) = c :: rest :=
  List.dropWhile_cons_of_neg (Bool.eq_false_iff.mp hc)

theorem isBlank_of_isNumeric {c : Char} (hc : isNumeric c = true) : isBlank c = false := by
  by_contra hblank
  simp only [Bool.not_eq_false, isBlank, Bool.or_eq_true, decide_eq_true_eq] at hblank
  obtain ((rfl | rfl) | rfl) | rfl := hblank <;> exact absurd hc (by decide)

theorem skipBlanks_of_all_isNumeric {text : List Char} (htext : text.all isNumeric = true) :
    skipBlanks text = text := by
  cases text with
  | nil => rfl
  | cons c more =>
    have hc : isNumeric c = true := List.all_eq_true.mp htext c List.mem_cons_self
    exact skipBlanks_cons (isBlank_of_isNumeric hc) more

theorem parse_eq_ok_iff {text : String} {value : Json} : parse text = .ok value ↔
    ∃ rest, readValue depthLimit text.toList = .ok (value, rest) ∧ skipBlanks rest.1 = [] := by
  have hparse : parse text = .ok value ↔ parseChars text.toList = .ok value := by
    rw [parse]
    cases parseChars text.toList <;> simp
  rw [hparse, parseChars, bind_eq_ok]
  constructor
  · rintro ⟨⟨result, rest⟩, hread, hend⟩
    simp only at hend
    split at hend
    · rename_i hblank
      cases hend
      exact ⟨rest, hread, hblank⟩
    · cases hend
  · rintro ⟨rest, hread, hblank⟩
    refine ⟨_, hread, ?_⟩
    simp only [hblank]
    rfl

/-- What reads back as the number is read as the number. -/
theorem readAs_of_parse {n : Number} (hparse : parse (Json.number n).pretty = .ok (.number n)) :
    ReadAs n n.text := by
  obtain ⟨rest, hread, hblank⟩ := parse_eq_ok_iff.mp hparse
  have htext : (Json.number n).pretty.toList = n.text := by simp [pretty, prettyChars, scalarText]
  have hnumeric : (Json.number n).pretty.toList.all isNumeric = true := by
    rw [htext]
    exact all_isNumeric_text n
  rw [← htext]
  generalize (Json.number n).pretty.toList = text at rest hread hblank hnumeric
  -- What is left has only characters of numbers, so it is blank only if it is empty.
  have hempty {left : List Char} (hsuffix : left <:+ text) (hleft : skipBlanks left = []) :
      left = [] := by
    rwa [skipBlanks_of_all_isNumeric (List.all_eq_true.mpr fun c hc ↦
      List.all_eq_true.mp hnumeric c (hsuffix.subset hc))] at hleft
  cases text with
  | nil =>
    rw [readValue] at hread
    cases hread
  | cons c more =>
    have hc : isNumeric c = true := List.all_eq_true.mp hnumeric c List.mem_cons_self
    rw [readValue, next?_eq (skipBlanks_of_all_isNumeric hnumeric)] at hread
    simp only at hread
    split at hread
    all_goals first | exact absurd hc (by decide) | skip
    · obtain ⟨⟨m, left⟩, hnumber, hadvance⟩ := bind_eq_ok.mp hread
      cases advance_eq_ok hadvance
      obtain ⟨hsuffix, -⟩ := scans_readNumber hnumber
      rw [hempty (hsuffix.trans (List.suffix_cons _ _)) hblank] at hnumber
      exact .negative hnumber
    · split_ifs at hread with hdigit
      obtain ⟨⟨m, left⟩, hnumber, hadvance⟩ := bind_eq_ok.mp hread
      cases advance_eq_ok hadvance
      obtain ⟨hsuffix, -⟩ := scans_readNumber hnumber
      rw [hempty hsuffix hblank] at hnumber
      exact .positive hdigit hnumber

theorem rereads_advance {α : Type} {text rest : List Char} (result : α)
    (hrest : rest.length < text.length) :
    Rereads True result rest (advance (result, rest) : Except Failure (α × Rest text)) := by
  rw [advance, dif_pos hrest]
  exact .ok trivial hrest

theorem rereads_readValue_number {n : Number} {chars text rest : List Char} (depth : Nat)
    (hread : ReadAs n chars) (htext : skipBlanks text = chars ++ rest) (hrest : EndsNumber rest) :
    Rereads True (Json.number n) rest (readValue depth text) := by
  have hlength {c : Char} {more : List Char} (htext : skipBlanks text = c :: (more ++ rest)) :
      rest.length < text.length :=
    lt_of_le_of_lt (by simp) (length_lt_of_skipBlanks htext)
  cases hread with
  | @positive c more hc hread =>
    rw [List.cons_append] at htext
    have hnumber := (scans_readNumber hread).2 rest hrest
    rw [List.cons_append, List.nil_append] at hnumber
    rw [readValue, next?_eq htext]
    simp only
    split
    all_goals first | exact absurd hc (by decide) | skip
    rw [if_pos hc, hnumber]
    exact rereads_advance _ (hlength htext)
  | @negative more hread =>
    rw [List.cons_append] at htext
    rw [readValue, next?_eq htext]
    simp only
    rw [(scans_readNumber hread).2 rest hrest]
    exact rereads_advance _ (hlength htext)

/-! ### Values -/

theorem skipBlanks_newline {level : Nat} {c : Char} (hc : isBlank c = false) (rest : List Char) :
    skipBlanks (newline level ++ c :: rest) = c :: rest := by
  have hblanks : ∀ d ∈ newline level, isBlank d = true := by
    refine List.forall_mem_cons.mpr ⟨by decide, fun d hd ↦ ?_⟩
    rw [List.eq_of_mem_replicate hd]
    decide
  rw [skipBlanks, List.dropWhile_append_of_pos hblanks, ← skipBlanks, skipBlanks_cons hc]

theorem ReadAs.exists_cons {n : Number} {text : List Char} (hread : ReadAs n text) :
    ∃ c more, text = c :: more ∧ isNumeric c = true := by
  cases hread with
  | positive hc _ => exact ⟨_, _, rfl, by simp [isNumeric, hc]⟩
  | negative _ => exact ⟨_, _, rfl, by decide⟩

/-- A value does not start with a blank, and not as the end of an array. -/
theorem exists_cons_prettyChars (value : Json) (hnumbers : ∀ n ∈ value.numbers, ReadAs n n.text)
    (level : Nat) :
    ∃ c more, value.prettyChars level = c :: more ∧ isBlank c = false ∧ c ≠ ']' := by
  cases value with
  | number n =>
    obtain ⟨c, more, htext, hc⟩ := (hnumbers n (by simp [numbers])).exists_cons
    refine ⟨c, more, ?_, isBlank_of_isNumeric hc, ?_⟩
    · simpa [prettyChars, scalarText] using htext
    · rintro rfl
      exact absurd hc (by decide)
  | null => exact ⟨'n', _, rfl, by decide, by decide⟩
  | bool value => cases value <;> exact ⟨_, _, rfl, by decide, by decide⟩
  | string text => exact ⟨'"', _, rfl, by decide, by decide⟩
  | array items => cases items <;> exact ⟨'[', _, rfl, by decide, by decide⟩
  | object members => cases members <;> exact ⟨'\x7b', _, rfl, by decide, by decide⟩

/-- What is skipped before a value. -/
theorem skipBlanks_prettyChars {value : Json} (hnumbers : ∀ n ∈ value.numbers, ReadAs n n.text)
    (level indent : Nat) (after : List Char) :
    skipBlanks (newline indent ++ (value.prettyChars level ++ after)) =
        value.prettyChars level ++ after ∧
      skipBlanks (' ' :: (value.prettyChars level ++ after)) =
        value.prettyChars level ++ after := by
  obtain ⟨c, more, hchars, hblank, -⟩ := exists_cons_prettyChars value hnumbers level
  rw [hchars]
  exact ⟨skipBlanks_newline hblank _, skipBlanks_cons hblank _⟩

theorem quote_append (text : String) (rest : List Char) :
    quote text ++ rest = '"' :: (text.toList.flatMap escapeChar ++ '"' :: rest) := by
  simp [quote]

theorem skipBlanks_newline_quote (level : Nat) (text : String) (after : List Char) :
    skipBlanks (newline level ++ (quote text ++ after)) = quote text ++ after := by
  rw [quote_append]
  exact skipBlanks_newline (by decide) _

theorem rereads_quote (content : String) (rest : List Char) :
    Rereads True content rest
      (readString [] (content.toList.flatMap escapeChar ++ '"' :: rest)) := by
  have hread := rereads_readString content.toList [] rest
  rwa [List.reverse_nil, List.nil_append, String.ofList_toList] at hread

theorem rereads_readKey {key : String} {text rest : List Char}
    (htext : skipBlanks text = quote key ++ ':' :: rest) :
    Rereads True key rest (readKey text) := by
  rw [quote_append] at htext
  rw [readKey, next?_eq htext]
  refine (rereads_quote key (':' :: rest)).bind (fun _ _ ↦ ?_) id
  simp only
  rw [next?_eq (by rfl : skipBlanks (':' :: rest) = ':' :: rest)]
  exact .ok trivial _

theorem prettyItems_cons (level : Nat) (item : Json) (rest : List Json) :
    prettyItems level false (item :: rest) =
      ',' :: (newline level ++ (item.prettyChars level ++ prettyItems level false rest)) := by
  simp [prettyItems]

theorem endsNumber_prettyItems (level outer : Nat) (items : List Json) (rest : List Char) :
    EndsNumber (prettyItems level false items ++ (newline outer ++ rest)) := by
  cases items with
  | nil => exact .cons (by decide) _
  | cons item items =>
    rw [prettyItems_cons]
    exact .cons (by decide) _

theorem prettyMembers_cons (level : Nat) (key : String) (value : Json)
    (rest : List (String × Json)) : prettyMembers level false ((key, value) :: rest) =
      ',' :: (newline level ++ (quote key ++ ':' :: ' ' :: (value.prettyChars level ++
        prettyMembers level false rest))) := by
  simp [prettyMembers]

theorem endsNumber_prettyMembers (level outer : Nat) (members : List (String × Json))
    (rest : List Char) :
    EndsNumber (prettyMembers level false members ++ (newline outer ++ rest)) := by
  cases members with
  | nil => exact .cons (by decide) _
  | cons entry members =>
    rw [prettyMembers_cons]
    exact .cons (by decide) _

theorem readWord_append (value : Json) (word rest : List Char) :
    readWord value word (word ++ rest) = .ok (value, rest) := by
  induction word with
  | nil => rw [List.nil_append, readWord]
  | cons c word ih => rw [List.cons_append, readWord, if_pos rfl, ih]

theorem length_lt_of_skipBlanks_append {text start rest : List Char}
    (htext : skipBlanks text = start ++ rest) (hstart : start ≠ []) :
    rest.length < text.length := by
  have hlength := length_skipBlanks_le text
  have hpos := List.length_pos_of_ne_nil hstart
  rw [htext, List.length_append] at hlength
  omega

/-! ### One production each -/

section Productions

variable {depth : Nat} {text inside after next more rest : List Char}

theorem rereads_null (htext : skipBlanks text = ['n', 'u', 'l', 'l'] ++ rest) :
    Rereads True .null rest (readValue depth text) := by
  have hlength := length_lt_of_skipBlanks_append htext (List.cons_ne_nil _ _)
  have htext : skipBlanks text = 'n' :: (['u', 'l', 'l'] ++ rest) := htext
  rw [readValue, next?_eq htext]
  simp only [readWord_append]
  exact rereads_advance _ hlength

theorem rereads_bool {value : Bool} (htext : skipBlanks text = scalarText (.bool value) ++ rest) :
    Rereads True (.bool value) rest (readValue depth text) := by
  cases value with
  | true =>
    have hlength := length_lt_of_skipBlanks_append htext (List.cons_ne_nil _ _)
    have htext : skipBlanks text = 't' :: (['r', 'u', 'e'] ++ rest) := htext
    rw [readValue, next?_eq htext]
    simp only [readWord_append]
    exact rereads_advance _ hlength
  | false =>
    have hlength := length_lt_of_skipBlanks_append htext (List.cons_ne_nil _ _)
    have htext : skipBlanks text = 'f' :: (['a', 'l', 's', 'e'] ++ rest) := htext
    rw [readValue, next?_eq htext]
    simp only [readWord_append]
    exact rereads_advance _ hlength

theorem rereads_string {content : String} (htext : skipBlanks text = quote content ++ rest) :
    Rereads True (.string content) rest (readValue depth text) := by
  rw [quote_append] at htext
  rw [readValue, next?_eq htext]
  exact (rereads_quote content rest).bind (fun _ _ ↦ .ok trivial _) id

theorem rereads_array {items : List Json} (htext : skipBlanks text = '[' :: inside)
    (hitems : ∀ depth, Rereads (nestingOfItems items ≤ depth) items rest (readArray depth inside)) :
    Rereads (nestingOfItems items + 1 ≤ depth) (.array items) rest (readValue depth text) := by
  rw [readValue, next?_eq htext]
  cases depth with
  | zero => exact .tooDeep (Nat.not_succ_le_zero _) _
  | succ depth =>
    refine (hitems depth).bind (fun hfits _ ↦ ?_) Nat.le_of_succ_le_succ
    exact .ok (Nat.succ_le_succ hfits) _

theorem rereads_object {members : Fields} (htext : skipBlanks text = '\x7b' :: inside)
    (hmembers : ∀ depth,
      Rereads (nestingOfMembers members ≤ depth) members rest (readObject depth inside)) :
    Rereads (nestingOfMembers members + 1 ≤ depth) (.object members) rest
      (readValue depth text) := by
  rw [readValue, next?_eq htext]
  cases depth with
  | zero => exact .tooDeep (Nat.not_succ_le_zero _) _
  | succ depth =>
    refine (hmembers depth).bind (fun hfits _ ↦ ?_) Nat.le_of_succ_le_succ
    exact .ok (Nat.succ_le_succ hfits) _

theorem rereads_readArray_nil (htext : skipBlanks text = ']' :: rest) :
    Rereads (nestingOfItems [] ≤ depth) [] rest (readArray depth text) := by
  rw [readArray, next?_eq htext]
  exact .ok (Nat.zero_le depth) _

theorem readArray_eq {c : Char} (htext : skipBlanks text = c :: inside) (hc : c ≠ ']') :
    readArray depth text = readItems depth [] text := by
  rw [readArray, next?_eq htext]
  split
  · rename_i heq
    cases heq
  · rename_i heq
    cases heq
    exact absurd rfl hc
  · rfl

theorem rereads_readObject_nil (htext : skipBlanks text = '\x7d' :: rest) :
    Rereads (nestingOfMembers [] ≤ depth) [] rest (readObject depth text) := by
  rw [readObject, next?_eq htext]
  exact .ok (Nat.zero_le depth) _

theorem readObject_eq (htext : skipBlanks text = '"' :: inside) :
    readObject depth text = readMembers depth [] text := by
  rw [readObject, next?_eq htext]
  rfl

theorem rereads_readItems_last {item : Json} {before : List Json}
    (hitem : Rereads (item.nesting ≤ depth) item after (readValue depth text))
    (hafter : skipBlanks after = ']' :: rest) :
    Rereads (nestingOfItems [item] ≤ depth) (before.reverse ++ [item]) rest
      (readItems depth before text) := by
  rw [readItems]
  refine hitem.bind (fun hfits _ ↦ ?_) fun hfits ↦ (Nat.max_le.mp hfits).1
  simp only
  rw [next?_eq hafter, ← List.reverse_cons]
  exact .ok (Nat.max_le.mpr ⟨hfits, Nat.zero_le depth⟩) _

theorem rereads_readItems_more {item : Json} {before items : List Json} {c : Char}
    (hitem : Rereads (item.nesting ≤ depth) item after (readValue depth text))
    (hafter : skipBlanks after = ',' :: next) (hnext : skipBlanks next = c :: inside)
    (hc : c ≠ ']') (hrest : Rereads (nestingOfItems items ≤ depth)
      ((item :: before).reverse ++ items) rest (readItems depth (item :: before) next)) :
    Rereads (nestingOfItems (item :: items) ≤ depth) (before.reverse ++ item :: items) rest
      (readItems depth before text) := by
  rw [List.reverse_cons, List.append_assoc, List.singleton_append] at hrest
  rw [readItems]
  refine hitem.bind (fun hfits _ ↦ ?_) fun hfits ↦ (Nat.max_le.mp hfits).1
  simp only
  rw [next?_eq hafter]
  simp only
  rw [next?_eq hnext]
  split
  · rename_i heq
    cases heq
    exact absurd rfl hc
  · refine hrest.bind (fun hrestFits _ ↦ ?_) fun hfits ↦ (Nat.max_le.mp hfits).2
    exact .ok (Nat.max_le.mpr ⟨hfits, hrestFits⟩) _

section Members

variable {key : String} {value : Json} {before : Fields}
  (hkey : skipBlanks text = quote key ++ ':' :: inside)
  (hvalue : Rereads (value.nesting ≤ depth) value after (readValue depth inside))
  (hnew : key ∉ before.keys)

include hkey hvalue hnew

theorem rereads_readMembers_last (hafter : skipBlanks after = '\x7d' :: rest) :
    Rereads (nestingOfMembers [(key, value)] ≤ depth) (before ++ [(key, value)]) rest
      (readMembers depth before text) := by
  rw [readMembers]
  refine (rereads_readKey hkey).bind (fun _ _ ↦ ?_) fun _ ↦ trivial
  refine hvalue.bind (fun hfits _ ↦ ?_) fun hfits ↦ (Nat.max_le.mp hfits).1
  simp only [Entries.insert_eq_append hnew]
  rw [next?_eq hafter]
  exact .ok (Nat.max_le.mpr ⟨hfits, Nat.zero_le depth⟩) _

theorem rereads_readMembers_more {members : Fields} (hafter : skipBlanks after = ',' :: next)
    (hnext : skipBlanks next = '"' :: more)
    (hrest : Rereads (nestingOfMembers members ≤ depth) (before ++ [(key, value)] ++ members) rest
      (readMembers depth (before ++ [(key, value)]) next)) :
    Rereads (nestingOfMembers ((key, value) :: members) ≤ depth) (before ++ (key, value) :: members)
      rest (readMembers depth before text) := by
  rw [List.append_assoc, List.singleton_append] at hrest
  rw [readMembers]
  refine (rereads_readKey hkey).bind (fun _ _ ↦ ?_) fun _ ↦ trivial
  refine hvalue.bind (fun hfits _ ↦ ?_) fun hfits ↦ (Nat.max_le.mp hfits).1
  simp only [Entries.insert_eq_append hnew]
  rw [next?_eq hafter]
  simp only
  rw [next?_eq hnext]
  refine hrest.bind (fun hrestFits _ ↦ ?_) fun hfits ↦ (Nat.max_le.mp hfits).2
  exact .ok (Nat.max_le.mpr ⟨hfits, hrestFits⟩) _

end Members

end Productions

/-! ### All values -/

mutual

/-- The induction is on the value; the depth that is left, the blanks before the text and what
follows it change on the way. -/
theorem rereads_readValue : ∀ value : Json, value.Distinct →
    (∀ n ∈ value.numbers, ReadAs n n.text) → ∀ depth level text rest,
      skipBlanks text = value.prettyChars level ++ rest → EndsNumber rest →
      Rereads (value.nesting ≤ depth) value rest (readValue depth text)
  | .null, _, _, depth, _, _, _, htext, _ => (rereads_null htext).of_true (Nat.zero_le depth)
  | .bool _, _, _, depth, _, _, _, htext, _ => (rereads_bool htext).of_true (Nat.zero_le depth)
  | .string _, _, _, depth, _, _, _, htext, _ => (rereads_string htext).of_true (Nat.zero_le depth)
  | .number n, _, hnumbers, depth, _, _, _, htext, hrest => by
    have hread : ReadAs n n.text := hnumbers n List.mem_cons_self
    exact (rereads_readValue_number depth hread htext hrest).of_true (Nat.zero_le depth)
  | .array [], _, _, _, _, _, rest, htext, _ =>
    rereads_array htext fun _ ↦ rereads_readArray_nil (skipBlanks_cons (by decide) rest)
  | .array (item :: items), hdistinct, hnumbers, _, level, text, rest, htext, _ => by
    have htext : skipBlanks text = '[' :: (newline (level + 1) ++ (item.prettyChars (level + 1) ++
        (prettyItems (level + 1) false items ++ (newline level ++ ']' :: rest)))) := by
      simpa [prettyChars, prettyItems] using htext
    have hitem : ∀ n ∈ item.numbers, ReadAs n n.text :=
      fun n hn ↦ hnumbers n (List.mem_append_left _ hn)
    obtain ⟨c, more, hchars, -, hc⟩ := exists_cons_prettyChars item hitem (level + 1)
    obtain ⟨hblanks, -⟩ := skipBlanks_prettyChars hitem (level + 1) (level + 1)
      (prettyItems (level + 1) false items ++ (newline level ++ ']' :: rest))
    refine rereads_array htext fun depth ↦ ?_
    rw [readArray_eq (hblanks.trans (congrArg (· ++ _) hchars)) hc]
    exact rereads_readItems item items (fun _ ↦ hdistinct.item) hnumbers depth (level + 1) level []
      _ rest hblanks
  | .object [], _, _, _, _, _, rest, htext, _ =>
    rereads_object htext fun _ ↦ rereads_readObject_nil (skipBlanks_cons (by decide) rest)
  | .object ((key, value) :: members), hdistinct, hnumbers, _, level, text, rest, htext, _ => by
    have htext : skipBlanks text = '\x7b' :: (newline (level + 1) ++ (quote key ++ ':' :: ' ' ::
        (value.prettyChars (level + 1) ++ (prettyMembers (level + 1) false members ++
          (newline level ++ '\x7d' :: rest))))) := by
      simpa [prettyChars, prettyMembers] using htext
    have hblanks := skipBlanks_newline_quote (level + 1) key (':' :: ' ' ::
      (value.prettyChars (level + 1) ++ (prettyMembers (level + 1) false members ++
        (newline level ++ '\x7d' :: rest))))
    refine rereads_object htext fun depth ↦ ?_
    rw [readObject_eq (hblanks.trans (quote_append key _))]
    exact rereads_readMembers key value members (fun entry hentry ↦ hdistinct.member hentry)
      hnumbers depth (level + 1) level [] _ rest hdistinct.unique hblanks
termination_by value => sizeOf value

theorem rereads_readItems : ∀ (item : Json) (items : List Json),
    (∀ other ∈ item :: items, other.Distinct) →
    (∀ n ∈ numbersOfItems (item :: items), ReadAs n n.text) →
    ∀ depth level outer before text rest,
      skipBlanks text = item.prettyChars level ++
        (prettyItems level false items ++ (newline outer ++ ']' :: rest)) →
      Rereads (nestingOfItems (item :: items) ≤ depth) (before.reverse ++ item :: items) rest
        (readItems depth before text)
  | item, [], hdistinct, hnumbers, depth, level, outer, before, text, rest, htext => by
    rw [numbersOfItems, List.forall_mem_append] at hnumbers
    have hitem := rereads_readValue item (hdistinct item List.mem_cons_self) hnumbers.1 depth level
      text _ htext (endsNumber_prettyItems level outer [] _)
    exact rereads_readItems_last hitem (skipBlanks_newline (by decide) rest)
  | item, next :: items, hdistinct, hnumbers, depth, level, outer, before, text, rest, htext => by
    obtain ⟨hfirst, hmore⟩ := List.forall_mem_cons.mp hdistinct
    rw [numbersOfItems, List.forall_mem_append] at hnumbers
    have hitem := rereads_readValue item hfirst hnumbers.1 depth level text _ htext
      (endsNumber_prettyItems level outer (next :: items) _)
    have hnext : ∀ n ∈ next.numbers, ReadAs n n.text :=
      fun n hn ↦ hnumbers.2 n (List.mem_append_left _ hn)
    obtain ⟨c, more, hchars, -, hc⟩ := exists_cons_prettyChars next hnext level
    obtain ⟨hblanks, -⟩ := skipBlanks_prettyChars hnext level level
      (prettyItems level false items ++ (newline outer ++ ']' :: rest))
    have hafter : skipBlanks (prettyItems level false (next :: items) ++
        (newline outer ++ ']' :: rest)) = ',' :: (newline level ++ (next.prettyChars level ++
          (prettyItems level false items ++ (newline outer ++ ']' :: rest)))) := by
      rw [prettyItems_cons, List.cons_append, skipBlanks_cons (by decide), List.append_assoc,
        List.append_assoc]
    exact rereads_readItems_more hitem hafter (hblanks.trans (congrArg (· ++ _) hchars)) hc
      (rereads_readItems next items hmore hnumbers.2 depth level outer (item :: before) _ rest
        hblanks)
termination_by item items => sizeOf (item :: items)

theorem rereads_readMembers : ∀ (key : String) (value : Json) (members : List (String × Json)),
    (∀ entry ∈ (key, value) :: members, entry.2.Distinct) →
    (∀ n ∈ numbersOfMembers ((key, value) :: members), ReadAs n n.text) →
    ∀ depth level outer before text rest, Entries.Unique (before ++ (key, value) :: members) →
      skipBlanks text = quote key ++ ':' :: ' ' :: (value.prettyChars level ++
        (prettyMembers level false members ++ (newline outer ++ '\x7d' :: rest))) →
      Rereads (nestingOfMembers ((key, value) :: members) ≤ depth)
        (before ++ (key, value) :: members) rest (readMembers depth before text)
  | key, value, [], hdistinct, hnumbers, depth, level, outer, before, text, rest, hunique,
      htext => by
    rw [numbersOfMembers, List.forall_mem_append] at hnumbers
    obtain ⟨-, hspace⟩ := skipBlanks_prettyChars hnumbers.1 level level
      (prettyMembers level false [] ++ (newline outer ++ '\x7d' :: rest))
    have hvalue := rereads_readValue value (hdistinct _ List.mem_cons_self) hnumbers.1 depth level
      _ _ hspace (endsNumber_prettyMembers level outer [] ('\x7d' :: rest))
    exact rereads_readMembers_last htext hvalue hunique.not_mem_keys
      (skipBlanks_newline (by decide) rest)
  | key, value, (nextKey, next) :: members, hdistinct, hnumbers, depth, level, outer, before, text,
      rest, hunique, htext => by
    obtain ⟨hfirst, hmore⟩ := List.forall_mem_cons.mp hdistinct
    rw [numbersOfMembers, List.forall_mem_append] at hnumbers
    obtain ⟨-, hspace⟩ := skipBlanks_prettyChars hnumbers.1 level level
      (prettyMembers level false ((nextKey, next) :: members) ++ (newline outer ++ '\x7d' :: rest))
    have hvalue := rereads_readValue value hfirst hnumbers.1 depth level _ _ hspace
      (endsNumber_prettyMembers level outer ((nextKey, next) :: members) ('\x7d' :: rest))
    have hafter : skipBlanks (prettyMembers level false ((nextKey, next) :: members) ++
        (newline outer ++ '\x7d' :: rest)) = ',' :: (newline level ++ (quote nextKey ++ ':' ::
          ' ' :: (next.prettyChars level ++ (prettyMembers level false members ++
            (newline outer ++ '\x7d' :: rest))))) := by
      rw [prettyMembers_cons, List.cons_append, skipBlanks_cons (by decide)]
      simp
    have hblanks := skipBlanks_newline_quote level nextKey (':' :: ' ' ::
      (next.prettyChars level ++ (prettyMembers level false members ++
        (newline outer ++ '\x7d' :: rest))))
    have hnew := hunique.not_mem_keys
    rw [List.append_cons] at hunique
    exact rereads_readMembers_more htext hvalue hnew hafter
      (hblanks.trans (quote_append nextKey _))
      (rereads_readMembers nextKey next members hmore hnumbers.2 depth level outer
        (before ++ [(key, value)]) _ rest hunique hblanks)
termination_by key value members => sizeOf ((key, value) :: members)

end

/-! ### Whole texts -/

theorem EndsNumber.of_all_isBlank {blanks : List Char} (hblanks : blanks.all isBlank = true) :
    EndsNumber blanks := by
  intro c hc
  have hblank := List.all_eq_true.mp hblanks c (List.mem_of_mem_head? hc)
  by_contra hnumeric
  rw [isBlank_of_isNumeric (Bool.of_not_eq_false hnumeric)] at hblank
  cases hblank

/-- The text of a value is read as the value, with blanks after it too, unless the value is nested
too deep for the reader. -/
theorem parse_pretty_append {value : Json} (hdistinct : value.Distinct)
    (hnumbers : ∀ n ∈ value.numbers, ReadAs n n.text) (blanks : String)
    (hblanks : blanks.toList.all isBlank = true) :
    (value.nesting ≤ depthLimit → parse (value.pretty ++ blanks) = .ok value) ∧
      (depthLimit < value.nesting → ∃ error, parse (value.pretty ++ blanks) = .error error ∧
        error.problem = .tooDeep) := by
  have htext : (value.pretty ++ blanks).toList = value.prettyChars 0 ++ blanks.toList := by
    rw [String.toList_append, pretty, String.toList_ofList]
  have hstart : skipBlanks (value.pretty ++ blanks).toList =
      value.prettyChars 0 ++ blanks.toList := by
    obtain ⟨c, more, hchars, hblank, -⟩ := exists_cons_prettyChars value hnumbers 0
    rw [htext, hchars, List.cons_append, skipBlanks_cons hblank]
  have hread := rereads_readValue value hdistinct hnumbers depthLimit 0 _ _ hstart
    (EndsNumber.of_all_isBlank hblanks)
  constructor
  · intro hfits
    refine parse_eq_ok_iff.mpr ?_
    have hend : skipBlanks blanks.toList = [] :=
      List.dropWhile_eq_nil_iff.mpr (List.all_eq_true.mp hblanks)
    generalize readValue depthLimit (value.pretty ++ blanks).toList = run at hread ⊢
    cases hread with
    | ok _ hrest => exact ⟨_, rfl, hend⟩
    | tooDeep hdeep _ => exact absurd hfits hdeep
  · intro hdeep
    rw [parse, parseChars]
    generalize readValue depthLimit (value.pretty ++ blanks).toList = run at hread ⊢
    cases hread with
    | ok hfits _ => exact absurd hfits (Nat.not_le.mpr hdeep)
    | tooDeep _ bytesLeft => exact ⟨_, rfl, rfl⟩

end Json

/-! ### Numbers that read back -/

namespace Number

/-- Writing and reading are inverse on the number. -/
def ReadsBack (n : Number) : Prop := Json.parse (Json.number n).pretty = .ok (.number n)

theorem readsBack_iff {n : Number} : n.ReadsBack ↔ Json.ReadAs n n.text := by
  refine ⟨Json.readAs_of_parse, fun hread ↦ ?_⟩
  have hnumbers : ∀ m ∈ (Json.number n).numbers, Json.ReadAs m m.text := by
    simpa [Json.numbers] using hread
  have hparse := Json.parse_pretty_append (.number n) hnumbers "" rfl
  rw [String.append_empty] at hparse
  exact hparse.1 (Nat.zero_le Json.depthLimit)

/-- Integers of 64 bits read back. -/
theorem readsBack_integer {value : Int} (hlow : -2 ^ 63 ≤ value) (hhigh : value < 2 ^ 64) :
    (integer value).ReadsBack := by
  rw [readsBack_iff, text, intText]
  by_cases hnegative : value < 0
  · have hsize : value.natAbs ≤ Nat.pow 2 63 := by
      change value.natAbs ≤ 2 ^ 63
      omega
    have hread := Json.readNumber_decimalDigits true (hsize.trans (by decide))
    have hnumber : Json.wholeNumber true value.natAbs = integer value := by
      rw [Json.wholeNumber, if_neg (by decide), if_neg (by omega), if_pos hsize]
      congr
      omega
    rw [if_pos hnegative]
    rw [hnumber] at hread
    exact .negative hread
  · have hsize : value.natAbs ≤ Json.largestSignificand := by
      change value.natAbs ≤ 2 ^ 64 - 1
      omega
    have hread := Json.readNumber_decimalDigits false hsize
    have hnumber : Json.wholeNumber false value.natAbs = integer value := by
      rw [Json.wholeNumber, if_pos (by decide)]
      congr
      omega
    rw [if_neg hnegative]
    rw [hnumber] at hread
    have hne : decimalDigits value.natAbs ≠ [] := Nat.toDigits_ne_nil
    obtain ⟨c, more, hdigits⟩ := List.exists_cons_of_ne_nil hne
    have hc : Json.isDigit c = true :=
      Json.isDigit_of_mem_decimalDigits (hdigits ▸ List.mem_cons_self)
    rw [hdigits] at hread ⊢
    exact .positive hc hread

end Number

end EventSchema
