import EventSchema.Proofs.Pointer.Written
import EventSchema.Proofs.Validation.Places

/-!
# The standard of pointers

RFC 6901 has a grammar of pointers (`Denotes`) and says what a pointer leads to (`Leads`). A text
that the grammar admits is read as the segments that it denotes, and what a pointer leads to is
found; but more texts are read and more is found. A tilde that is no escape stands for itself, and
an index of an array may have a plus sign or zeros in front (`standard_iff`), so a mistyped
reference may lead somewhere (`found_beyond_standard`).
-/

set_option autoImplicit false

namespace EventSchema.Pointer

/-! ### The grammar -/

/-- The token spells the segment: `~0` stands for a tilde, `~1` for a slash, and any other character
for itself. -/
inductive Spells : List Char → List Char → Prop
  | nil : Spells [] []
  | plain {c : Char} {token segment : List Char} (htilde : c ≠ '~') (hslash : c ≠ '/')
    (hrest : Spells token segment) : Spells (c :: token) (c :: segment)
  | tilde {token segment : List Char} (hrest : Spells token segment) :
    Spells ('~' :: '0' :: token) ('~' :: segment)
  | slash {token segment : List Char} (hrest : Spells token segment) :
    Spells ('~' :: '1' :: token) ('/' :: segment)

/-- The text denotes the segments: it has a slash and a token for each. -/
inductive Denotes : List Char → List String → Prop
  | root : Denotes [] []
  | token {token text : List Char} {segment : String} {segments : List String}
    (htoken : Spells token segment.toList) (hrest : Denotes text segments) :
    Denotes ('/' :: (token ++ text)) (segment :: segments)

/-- A tilde in the text is followed by neither `0` nor `1`. -/
inductive HasStrayTilde : List Char → Prop
  | here {after : List Char} (hzero : after.head? ≠ some '0') (hone : after.head? ≠ some '1') :
    HasStrayTilde ('~' :: after)
  | later {c : Char} {text : List Char} (hlater : HasStrayTilde text) : HasStrayTilde (c :: text)

section Grammar

variable {token segment text after : List Char} {segments : List String}

theorem spells_iff : Spells token segment ↔ token = escapeChars segment := by
  constructor
  · intro hspells
    induction hspells with
    | nil => rfl
    | plain htilde hslash _ ih => rw [escapeChars.eq_4 _ _ htilde hslash, ih]
    | tilde _ ih => rw [escapeChars, ih]
    | slash _ ih => rw [escapeChars, ih]
  · rintro rfl
    fun_induction escapeChars segment with
    | case1 => exact .nil
    | case2 rest ih => exact .tilde ih
    | case3 rest ih => exact .slash ih
    | case4 c rest htilde hslash ih => exact .plain htilde hslash ih

/-- Segments have one text that denotes them, the one that is written. -/
theorem denotes_iff : Denotes text segments ↔
    text = segments.flatMap fun segment ↦ '/' :: escapeChars segment.toList := by
  constructor
  · intro hdenotes
    induction hdenotes with
    | root => rfl
    | token htoken _ ih => rw [List.flatMap_cons, ← ih, ← spells_iff.mp htoken, List.cons_append]
  · rintro rfl
    induction segments with
    | nil => exact .root
    | cons segment segments ih => exact .token (spells_iff.mpr rfl) ih

theorem hasStrayTilde_append_left (hstray : HasStrayTilde token) (hzero : after.head? ≠ some '0')
    (hone : after.head? ≠ some '1') : HasStrayTilde (token ++ after) := by
  induction hstray with
  | @here rest hzero' hone' =>
    cases rest with
    | nil => exact .here hzero hone
    | cons c rest => exact .here hzero' hone'
  | later _ ih => exact .later ih

theorem hasStrayTilde_append_right (hstray : HasStrayTilde after) (token : List Char) :
    HasStrayTilde (token ++ after) := by
  induction token with
  | nil => exact hstray
  | cons c token ih => exact .later ih

theorem not_hasStrayTilde_cons {c : Char} (hc : c ≠ '~') (htext : ¬HasStrayTilde text) :
    ¬HasStrayTilde (c :: text) := by
  intro hstray
  cases hstray with
  | here => exact hc rfl
  | later hlater => exact htext hlater

/-- A digit that makes an escape, with no stray tilde behind it, leaves none. -/
theorem not_hasStrayTilde_escape {c : Char} (hc : c = '0' ∨ c = '1') (htext : ¬HasStrayTilde text) :
    ¬HasStrayTilde ('~' :: c :: text) := by
  have hne : c ≠ '~' := by rcases hc with rfl | rfl <;> decide
  intro hstray
  cases hstray with
  | here hzero hone =>
    rcases hc with rfl | rfl
    · exact hzero rfl
    · exact hone rfl
  | later hlater => exact not_hasStrayTilde_cons hne htext hlater

theorem Spells.not_hasStrayTilde (hspells : Spells token segment) (htext : ¬HasStrayTilde text) :
    ¬HasStrayTilde (token ++ text) := by
  induction hspells with
  | nil => exact htext
  | plain htilde _ _ ih => exact not_hasStrayTilde_cons htilde ih
  | tilde _ ih => exact not_hasStrayTilde_escape (.inl rfl) ih
  | slash _ ih => exact not_hasStrayTilde_escape (.inr rfl) ih

theorem Denotes.not_hasStrayTilde (hdenotes : Denotes text segments) : ¬HasStrayTilde text := by
  induction hdenotes with
  | root => exact fun hstray ↦ nomatch hstray
  | token htoken _ ih => exact not_hasStrayTilde_cons (by decide) (htoken.not_hasStrayTilde ih)

/-- Where every tilde makes an escape, the token spells what it is read as. -/
theorem spells_unescapeChars (hslash : '/' ∉ token) (htoken : ¬HasStrayTilde token) :
    Spells token (unescapeChars token) := by
  fun_induction unescapeChars token with
  | case1 => exact .nil
  | case2 rest ih =>
    exact .tilde (ih (by simp_all) fun hstray ↦ htoken (.later (.later hstray)))
  | case3 rest ih =>
    exact .slash (ih (by simp_all) fun hstray ↦ htoken (.later (.later hstray)))
  | case4 c rest hzero hone ih =>
    rw [List.mem_cons, not_or] at hslash
    refine .plain ?_ (Ne.symm hslash.1) (ih hslash.2 fun hstray ↦ htoken (.later hstray))
    rintro rfl
    refine htoken (.here ?_ ?_) <;> intro hhead <;>
      obtain ⟨more, rfl⟩ := List.head?_eq_some_iff.mp hhead
    · exact hzero more rfl rfl
    · exact hone more rfl rfl

/-- The parts of a text, each behind a slash, are the text behind a slash. -/
theorem flatMap_split (text : List Char) :
    (Text.split (· = '/') text).flatMap (fun part ↦ '/' :: part) = '/' :: text := by
  induction text with
  | nil => rfl
  | cons c rest ih =>
    obtain ⟨part, parts, hsplit⟩ := List.exists_cons_of_ne_nil (Text.split_ne_nil (· = '/') rest)
    rw [Text.split, hsplit]
    rw [hsplit, List.flatMap_cons, List.cons_append, List.cons.injEq] at ih
    by_cases hc : c = '/'
    · simp [hc, ih.2]
    · simp [hc, ih.2]

theorem denotes_parts {parts : List (List Char)} (hslash : ∀ part ∈ parts, '/' ∉ part)
    (hparts : ¬HasStrayTilde (parts.flatMap fun part ↦ '/' :: part)) :
    Denotes (parts.flatMap fun part ↦ '/' :: part)
      (parts.map fun part ↦ String.ofList (unescapeChars part)) := by
  induction parts with
  | nil => exact .root
  | cons part rest ih =>
    obtain ⟨hpart, hrest⟩ := List.forall_mem_cons.mp hslash
    rw [List.flatMap_cons, List.cons_append] at hparts ⊢
    have hhead {c : Char} (hc : c ≠ '/') :
        (rest.flatMap fun part ↦ '/' :: part).head? ≠ some c := by
      cases rest <;> simp [Ne.symm hc]
    refine .token ?_ (ih hrest fun hstray ↦ hparts (.later (hasStrayTilde_append_right hstray _)))
    rw [String.toList_ofList]
    refine spells_unescapeChars hpart fun hstray ↦ hparts (.later ?_)
    exact hasStrayTilde_append_left hstray (hhead (by decide)) (hhead (by decide))

end Grammar

/-! ### What is read -/

theorem parseChars?_unmarked {text : List Char} (hmark : (unmarked text).head? ≠ some '#') :
    parseChars? (unmarked text) = parseChars? text := by
  rw [parseChars?_eq, parseChars?_eq text, unmarked_of_head?_ne hmark]

theorem parseChars?_of_denotes {text : List Char} {segments : List String}
    (hdenotes : Denotes (unmarked text) segments) : parseChars? text = some ⟨segments⟩ := by
  have hpath := parse?_path ⟨segments⟩
  rw [denotes_iff] at hdenotes
  rw [parse?, path, textChars, List.tail_cons, String.toList_ofList, ← hdenotes] at hpath
  rw [← parseChars?_unmarked, hpath]
  rw [hdenotes]
  exact head?_flatMap_ne segments

/-- What is read as a pointer is empty or begins with a slash. -/
theorem isSome_parseChars?_iff {text : List Char} : (parseChars? text).isSome ↔
    unmarked text = [] ∨ ∃ rest, unmarked text = '/' :: rest := by
  rw [parseChars?_eq]
  split
  · simp_all
  · simp_all
  · rename_i hempty hslash
    simpa using ⟨hempty, hslash⟩

/-- A text is one that the grammar admits, with the segments that it denotes, if and only if it is
read as these and has no stray tilde. -/
theorem denotes_unmarked_iff {text : List Char} {segments : List String} :
    Denotes (unmarked text) segments ↔
      parseChars? text = some ⟨segments⟩ ∧ ¬HasStrayTilde (unmarked text) := by
  constructor
  · intro hdenotes
    exact ⟨parseChars?_of_denotes hdenotes, hdenotes.not_hasStrayTilde⟩
  · rintro ⟨hparse, hstray⟩
    rcases isSome_parseChars?_iff.mp (Option.isSome_of_eq_some hparse) with hempty | ⟨rest, hrest⟩
    · rw [parseChars?_eq, hempty] at hparse
      obtain rfl : [] = segments := congrArg Pointer.segments (Option.some.inj hparse)
      rw [hempty]
      exact .root
    · rw [parseChars?_eq, hrest] at hparse
      obtain rfl : (Text.split (· = '/') rest).map (fun part ↦ String.ofList (unescapeChars part)) =
        segments := congrArg Pointer.segments (Option.some.inj hparse)
      rw [hrest, ← flatMap_split] at hstray ⊢
      refine denotes_parts (fun part hpart hslash ↦ ?_) hstray
      exact absurd (Text.isBreak_of_mem_split hpart hslash) (by decide)

/-- What is read beyond the grammar are the texts with a stray tilde behind a slash. -/
theorem isSome_parseChars?_iff_denotes {text : List Char} : (parseChars? text).isSome ↔
    (∃ segments, Denotes (unmarked text) segments) ∨
      ∃ rest, unmarked text = '/' :: rest ∧ HasStrayTilde rest := by
  constructor
  · intro hsome
    obtain ⟨⟨segments⟩, hparse⟩ := Option.isSome_iff_exists.mp hsome
    by_cases hstray : HasStrayTilde (unmarked text)
    · rcases isSome_parseChars?_iff.mp hsome with hempty | ⟨rest, hrest⟩
      · rw [hempty] at hstray
        exact nomatch hstray
      · rw [hrest] at hstray
        cases hstray with
        | later hlater => exact .inr ⟨rest, hrest, hlater⟩
    · exact .inl ⟨segments, denotes_unmarked_iff.mpr ⟨hparse, hstray⟩⟩
  · rintro (⟨segments, hdenotes⟩ | ⟨rest, hrest, -⟩)
    · exact Option.isSome_of_eq_some (parseChars?_of_denotes hdenotes)
    · exact isSome_parseChars?_iff.mpr (.inr ⟨rest, hrest⟩)

/-! ### Evaluation -/

/-- The digits of an index: `0`, or digits without a zero in front. -/
inductive IsIndex : List Char → Prop
  | zero : IsIndex ['0']
  | positive {c : Char} {rest : List Char} (hne : c ≠ '0')
    (hdigits : ∀ d ∈ c :: rest, d.isDigit = true) : IsIndex (c :: rest)

/-- One segment leads from an object to the member of that name, or from an array to the item of
that index. -/
inductive Reaches : Json → String → Json → Prop
  | member {members : Fields} {segment : String} {value : Json}
    (hmember : (segment, value) ∈ members) : Reaches (.object members) segment value
  | item {items : List Json} {segment : String} {value : Json} (hindex : IsIndex segment.toList)
    (hitem : items[Nat.ofDigitChars 10 segment.toList 0]? = some value) :
    Reaches (.array items) segment value

/-- The segments lead, one after the other, from the first value to the second. -/
inductive Leads : Json → List String → Json → Prop
  | nil {value : Json} : Leads value [] value
  | cons {root next value : Json} {segment : String} {rest : List String}
    (hstep : Reaches root segment next) (hrest : Leads next rest value) :
    Leads root (segment :: rest) value

/-- A plus sign, or a zero that more follows. -/
def IsRespelled (segment : String) : Prop :=
  segment.toList.head? = some '+' ∨ ∃ c rest, segment.toList = '0' :: c :: rest

/-- On the way along the segments, an item of an array is asked for in another spelling of its
index. -/
def Respells : Json → List String → Prop
  | _, [] => False
  | root, segment :: rest => (∃ items, root = .array items) ∧ IsRespelled segment ∨
    ∃ next, step root segment = some next ∧ Respells next rest

section Evaluation

variable {root value : Json} {segment : String} {i : Nat}

theorem IsIndex.ne_nil {text : List Char} (hindex : IsIndex text) : text ≠ [] := by
  cases hindex <;> exact List.cons_ne_nil _ _

theorem IsIndex.isDigit {text : List Char} (hindex : IsIndex text) :
    ∀ c ∈ text, c.isDigit = true := by
  cases hindex with
  | zero => simp
  | positive _ hdigits => exact hdigits

theorem IsIndex.not_isRespelled (hindex : IsIndex segment.toList) : ¬IsRespelled segment := by
  rintro (hplus | ⟨c, rest, hzero⟩)
  · have hdigit := hindex.isDigit '+' (List.mem_of_mem_head? hplus)
    exact absurd hdigit (by decide)
  · rw [hzero] at hindex
    cases hindex with
    | positive hne => exact hne rfl

theorem index?_of_isIndex (hindex : IsIndex segment.toList)
    (hlt : Nat.ofDigitChars 10 segment.toList 0 < Nat.pow 2 64) :
    index? segment = some (Nat.ofDigitChars 10 segment.toList 0) := by
  have hdigits : Text.digits? segment.toList = some (Nat.ofDigitChars 10 segment.toList 0) :=
    digits?_eq_some_iff.mpr ⟨hindex.ne_nil, hindex.isDigit, rfl⟩
  rw [index?]
  split
  · rename_i rest hplus
    refine absurd (.inl ?_) hindex.not_isRespelled
    rw [hplus, List.head?_cons]
  · rw [hdigits, Option.filter_some_pos]
    exact decide_eq_true hlt

/-- An index that is read, and is not respelled, is one that the standard has. -/
theorem isIndex_of_index? (hindex : index? segment = some i) (hspelled : ¬IsRespelled segment) :
    IsIndex segment.toList ∧ Nat.ofDigitChars 10 segment.toList 0 = i := by
  rw [IsRespelled, not_or] at hspelled
  obtain ⟨hplus, hzero⟩ := hspelled
  rw [index?] at hindex
  split at hindex
  · rename_i rest htext
    exact absurd (by rw [htext, List.head?_cons]) hplus
  · obtain ⟨hne, hdigits, hvalue⟩ :=
      digits?_eq_some_iff.mp (Option.eq_some_of_filter_eq_some hindex)
    refine ⟨?_, hvalue⟩
    obtain ⟨c, rest, htext⟩ := List.exists_cons_of_ne_nil hne
    rw [htext] at hdigits ⊢
    by_cases hc : c = '0'
    · subst hc
      cases rest with
      | nil => exact .zero
      | cons d rest => exact absurd ⟨d, rest, htext⟩ hzero
    · exact .positive hc hdigits

theorem reaches_iff (hdistinct : root.Distinct)
    (hlength : ∀ items, root = .array items → items.length ≤ Nat.pow 2 64) :
    Reaches root segment value ↔ step root segment = some value ∧
      ¬((∃ items, root = .array items) ∧ IsRespelled segment) := by
  cases root with
  | object members =>
    refine ⟨fun hreaches ↦ ?_, fun h ↦ .member (Entries.mem_of_get? h.1)⟩
    cases hreaches with
    | member hmember => exact ⟨hdistinct.unique.get?_of_mem hmember, by simp⟩
  | array items =>
    constructor
    · intro hreaches
      cases hreaches with
      | item hindex hitem =>
        obtain ⟨hlt, -⟩ := List.getElem?_eq_some_iff.mp hitem
        have hread := index?_of_isIndex hindex (Nat.lt_of_lt_of_le hlt (hlength items rfl))
        refine ⟨?_, fun h ↦ hindex.not_isRespelled h.2⟩
        rw [step, hread, Option.bind_some, hitem]
    · rintro ⟨hstep, hspelled⟩
      obtain ⟨i, hread, hitem⟩ := Option.bind_eq_some_iff.mp hstep
      obtain ⟨hindex, rfl⟩ := isIndex_of_index? hread fun h ↦ hspelled ⟨⟨items, rfl⟩, h⟩
      exact .item hindex hitem
  | _ =>
    refine iff_of_false (fun hreaches ↦ ?_) fun h ↦ ?_
    · cases hreaches
    · cases h.1

/-- A step into a document stays within what has positions. -/
theorem addressable_of_step (haddressable : root.Addressable)
    (hstep : step root segment = some value) : value.Addressable := by
  cases root with
  | object members =>
    have hpart : (Json.object members).part? (.key segment) = some value := hstep
    exact haddressable.part hpart
  | array items =>
    obtain ⟨i, -, hitem⟩ := Option.bind_eq_some_iff.mp hstep
    have hpart : (Json.array items).part? (.position i) = some value := hitem
    exact haddressable.part hpart
  | _ => cases hstep

/-- What the segments lead to is what the look-up finds without a respelled index. -/
theorem leads_iff {segments : List String} (hdistinct : root.Distinct)
    (haddressable : root.Addressable) : Leads root segments value ↔
      lookup ⟨segments⟩ root = some value ∧ ¬Respells root segments := by
  induction segments generalizing root with
  | nil =>
    rw [Respells, not_false_iff, and_true]
    constructor
    · rintro ⟨⟩
      rfl
    · rintro ⟨⟩
      exact .nil
  | cons segment rest ih =>
    have hreaches (next : Json) : Reaches root segment next ↔ step root segment = some next ∧
        ¬((∃ items, root = .array items) ∧ IsRespelled segment) :=
      reaches_iff hdistinct fun items hitems ↦ haddressable [] items (congrArg some hitems)
    have hnext {next : Json} (hstep : step root segment = some next) :=
      ih (hdistinct.step hstep) (addressable_of_step haddressable hstep)
    rw [lookup_cons, Option.bind_eq_some_iff, Respells, not_or]
    constructor
    · intro hleads
      cases hleads with
      | cons hstep hrest =>
        obtain ⟨hstep, hspelled⟩ := (hreaches _).mp hstep
        obtain ⟨hlookup, hrests⟩ := (hnext hstep).mp hrest
        refine ⟨⟨_, hstep, hlookup⟩, hspelled, ?_⟩
        rintro ⟨other, hother, hrespells⟩
        rw [hstep, Option.some_inj] at hother
        exact hrests (hother ▸ hrespells)
    · rintro ⟨⟨next, hstep, hlookup⟩, hspelled, hrests⟩
      refine .cons ((hreaches next).mpr ⟨hstep, hspelled⟩) ((hnext hstep).mpr ⟨hlookup, ?_⟩)
      exact fun hrespells ↦ hrests ⟨next, hstep, hrespells⟩

end Evaluation

/-- A text denotes segments if and only if it is read as these and has no stray tilde; the other
texts that are read have one behind a slash. Segments lead to a value of a document if and only if
the look-up finds it there and no index on the way is respelled. -/
theorem standard_iff (text : String) (segments : List String) {document : Json}
    (hdistinct : document.Distinct) (haddressable : document.Addressable) (value : Json) :
    (Denotes (unmarked text.toList) segments ↔
        parse? text = some ⟨segments⟩ ∧ ¬HasStrayTilde (unmarked text.toList)) ∧
      ((parse? text).isSome ↔ (∃ segments, Denotes (unmarked text.toList) segments) ∨
        ∃ rest, unmarked text.toList = '/' :: rest ∧ HasStrayTilde rest) ∧
      (Leads document segments value ↔
        lookup ⟨segments⟩ document = some value ∧ ¬Respells document segments) :=
  ⟨denotes_unmarked_iff, isSome_parseChars?_iff_denotes, leads_iff hdistinct haddressable⟩

/-- A member whose name holds a slash, with two items. -/
def slashed : Json := .object [("a/b", .array [.null, .bool true])]

theorem standard_iff_slashed :
    slashed.Distinct ∧ slashed.Addressable ∧
      Denotes (unmarked "#/a~1b/1".toList) ["a/b", "1"] ∧
      parse? "#/a~1b/1" = some ⟨["a/b", "1"]⟩ ∧ Leads slashed ["a/b", "1"] (.bool true) ∧
      lookup ⟨["a/b", "1"]⟩ slashed = some (.bool true) := by
  have hdistinct : slashed.Distinct := by decide +kernel
  have haddressable : slashed.Addressable := Json.addressable_of_weight_le (by decide +kernel)
  have hdenotes : Denotes (unmarked "#/a~1b/1".toList) ["a/b", "1"] :=
    denotes_iff.mpr (by decide +kernel)
  have hindex : IsIndex "1".toList :=
    .positive (by decide) (List.forall_mem_singleton.mpr (by decide))
  have hleads : Leads slashed ["a/b", "1"] (.bool true) :=
    .cons (.member List.mem_cons_self) (.cons (.item hindex rfl) .nil)
  obtain ⟨hread, -, hfound⟩ :=
    standard_iff "#/a~1b/1" ["a/b", "1"] hdistinct haddressable (.bool true)
  exact ⟨hdistinct, haddressable, hdenotes, (hread.mp hdenotes).1, hleads, (hfound.mp hleads).1⟩

/-- A tilde before a digit other than `0` and `1` is read, and an item is found by its index with a
zero in front. -/
theorem found_beyond_standard :
    parse? "#/a~2" = some ⟨["a~2"]⟩ ∧ (¬∃ segments, Denotes (unmarked "#/a~2".toList) segments) ∧
      lookup ⟨["01"]⟩ (.array [.null, .bool true]) = some (.bool true) ∧
      ¬∃ value, Leads (.array [.null, .bool true]) ["01"] value := by
  refine ⟨by decide +kernel, ?_, by decide +kernel, ?_⟩
  · rintro ⟨segments, hdenotes⟩
    exact hdenotes.not_hasStrayTilde (.later (.later (.here (by decide) (by decide))))
  · rintro ⟨value, hleads⟩
    cases hleads with
    | cons hstep =>
      cases hstep with
      | item hindex => exact hindex.not_isRespelled (.inr ⟨'1', [], rfl⟩)

end EventSchema.Pointer
