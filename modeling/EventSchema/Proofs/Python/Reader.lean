import EventSchema.Proofs.Entries
import EventSchema.Proofs.Python.Number
import EventSchema.Proofs.Python.Quoted

/-!
# Expressions

A Python expression is read here as far as it displays data: `None`, `True` and `False`, numbers
with or without a minus, string literals, lists and dictionaries. Between brackets blanks and line
ends mean nothing, and a comma may follow the last entry; a dictionary keeps the place of the first
entry with a key and the value of the last one. The expression that is written for a value is read
as the value, and reading it stops where it ends (`readsBack_literalChars`).
-/

set_option autoImplicit false

namespace EventSchema.Python

open Json (Rest next? skipBlanks isBlank isDigit)

/-! ### Reading -/

/-- The value of a constant that has a name. -/
def constant? (name : List Char) : Option Json :=
  if name = ['N', 'o', 'n', 'e'] then some .null
  else if name = ['T', 'r', 'u', 'e'] then some (.bool true)
  else if name = ['F', 'a', 'l', 's', 'e'] then some (.bool false)
  else none

/-- Reads a constant; the longest name is read. -/
def readConstant (text : List Char) : Option (Json × List Char) :=
  (constant? (text.takeWhile continues)).map fun value ↦ (value, text.dropWhile continues)

def readAtom (text : List Char) : Option (Json × List Char) :=
  ((readSigned text).map fun (n, rest) ↦ (.number n, rest)) <|>
    ((readString text).map fun (content, rest) ↦ (.string (String.ofList content), rest)) <|>
      readConstant text

/-- Accepts what is left only if something was read. -/
def advance {text : List Char} {α : Type} (result : α × List Char) : Option (α × Rest text) :=
  if h : result.2.length < text.length then some (result.1, ⟨result.2, h⟩) else none

/-- Reads the key of an entry, and the colon after it. -/
def readKey (text : List Char) : Option (String × Rest text) := do
  let (key, after) ← readString (skipBlanks text)
  match next? after with
  | some (':', ⟨rest, _⟩) => advance (String.ofList key, rest)
  | _ => none

mutual

def readExpr (text : List Char) : Option (Json × Rest text) :=
  match text with
  | [] => none
  | c :: rest =>
    if c = '[' then do
      let (items, ⟨after, h⟩) ← readItems rest
      return (.array items, ⟨after, by simp; omega⟩)
    else if c = '{' then do
      let (members, ⟨after, h⟩) ← readMembers [] rest
      return (.object members, ⟨after, by simp; omega⟩)
    else do advance (← readAtom (c :: rest))
termination_by 2 * text.length

/-- Reads the items of a list up to its closing bracket. -/
def readItems (text : List Char) : Option (List Json × Rest text) :=
  match next? text with
  | none => none
  | some (']', ⟨rest, h⟩) => some ([], ⟨rest, h⟩)
  | some _ => do
    have hblanks := Json.length_skipBlanks_le text
    let (item, ⟨after, _⟩) ← readExpr (skipBlanks text)
    match next? after with
    | some (',', ⟨rest, _⟩) => do
      let (items, ⟨final, _⟩) ← readItems rest
      return (item :: items, ⟨final, by omega⟩)
    | some (']', ⟨rest, _⟩) => some ([item], ⟨rest, by omega⟩)
    | _ => none
termination_by 2 * text.length + 1

/-- Reads the entries of a dictionary up to its closing brace. -/
def readMembers (before : Fields) (text : List Char) : Option (Fields × Rest text) :=
  match next? text with
  | none => none
  | some ('}', ⟨rest, h⟩) => some (before, ⟨rest, h⟩)
  | some _ => do
    let (key, ⟨after, _⟩) ← readKey text
    have hblanks := Json.length_skipBlanks_le after
    let (value, ⟨after, _⟩) ← readExpr (skipBlanks after)
    match next? after with
    | some (',', ⟨rest, _⟩) => do
      let (members, ⟨final, _⟩) ← readMembers (before.insert key value) rest
      return (members, ⟨final, by omega⟩)
    | some ('}', ⟨rest, _⟩) => some (before.insert key value, ⟨rest, by omega⟩)
    | _ => none
termination_by 2 * text.length + 1

end

/-- The value of a text that is an expression. -/
def read? (text : String) : Option Json :=
  match readExpr text.toList with
  | some (value, ⟨[], _⟩) => some value
  | _ => none

/-! ### Outcomes -/

/-- The run gives the result and leaves the rest. -/
def Reads {α : Type} {text : List Char} (result : α) (rest : List Char)
    (run : Option (α × Rest text)) : Prop := ∃ hrest, run = some (result, ⟨rest, hrest⟩)

theorem Reads.bind {α β : Type} {text text' rest rest' : List Char} {first : α} {result : β}
    {run : Option (α × Rest text)} {next : α × Rest text → Option (β × Rest text')}
    (hrun : Reads first rest run)
    (hnext : ∀ hrest, Reads result rest' (next (first, ⟨rest, hrest⟩))) :
    Reads result rest' (run >>= next) := by
  obtain ⟨hrest, rfl⟩ := hrun
  exact hnext hrest

/-- No number, word or string that ends in front of the text goes on with it. -/
def EndsExpr (text : List Char) : Prop := Ends text ∧ text.head? ≠ some '"'

theorem EndsExpr.cons {c : Char} (hc : continues c = false ∧ c ≠ '"') (rest : List Char) :
    EndsExpr (c :: rest) := by
  refine ⟨fun d hd ↦ ?_, fun h ↦ hc.2 (Option.some.inj h)⟩
  obtain rfl := Option.some.inj hd
  exact hc.1

theorem endsExpr_nil : EndsExpr [] := ⟨fun _ hc ↦ absurd hc (Option.not_mem_none _), by simp⟩

/-! ### Atoms -/

section Atoms

variable {text rest after : List Char}

theorem readString_eq_none {c : Char} (hdouble : c ≠ '"') (hsingle : c ≠ '\x27')
    (rest : List Char) : readString (c :: rest) = none := by
  have hquotes : quotes.find? (·.isPrefixOf (c :: rest)) = none := by
    simp [quotes, List.isPrefixOf, hdouble.symm, hsingle.symm]
  rw [readString, hquotes]
  rfl

theorem readSigned_eq_none {c : Char} (hdigit : isDigit c = false) (hpoint : c ≠ '.')
    (hminus : c ≠ '-') (rest : List Char) : readSigned (c :: rest) = none := by
  have hhead : (c :: rest).head? ≠ some '-' := fun h ↦ hminus (Option.some.inj h)
  rw [readSigned_eq hhead, readNumber_eq_none hdigit hpoint]

/-- What starts neither a number nor a string is read as a constant. -/
theorem readAtom_eq_readConstant {c : Char} (hdigit : isDigit c = false)
    (hmark : c ∉ ['.', '-', '"', '\x27']) (rest : List Char) :
    readAtom (c :: rest) = readConstant (c :: rest) := by
  simp only [List.mem_cons, List.not_mem_nil, or_false, not_or] at hmark
  obtain ⟨hpoint, hminus, hdouble, hsingle⟩ := hmark
  rw [readAtom, readSigned_eq_none hdigit hpoint hminus, readString_eq_none hdouble hsingle]
  rfl

theorem readAtom_eq_none {c : Char} (hc : continues c = false)
    (hmark : c ∉ ['.', '-', '"', '\x27']) (rest : List Char) : readAtom (c :: rest) = none := by
  have hname : ¬continues c = true := Bool.eq_false_iff.mp hc
  rw [readAtom_eq_readConstant (isDigit_of_continues hc) hmark, readConstant,
    List.takeWhile_cons_of_neg hname]
  rfl

theorem readAtom_constant {c : Char} {more : List Char} {value : Json}
    (hvalue : constant? (c :: more) = some value) (hname : (c :: more).all continues = true)
    (hdigit : isDigit c = false) (hmark : c ∉ ['.', '-', '"', '\x27']) (hafter : Ends after) :
    readAtom (c :: more ++ after) = some (value, after) := by
  obtain ⟨htake, hdrop⟩ := takeWhile_append_eq (List.all_eq_true.mp hname) hafter
  rw [List.cons_append, readAtom_eq_readConstant hdigit hmark, ← List.cons_append, readConstant,
    htake, hdrop, hvalue]
  rfl

/-- A scalar is an atom. -/
theorem readAtom_scalarChars {value : Json} (hscalar : isScalar value = true)
    (hafter : EndsExpr after) : readAtom (scalarChars value ++ after) = some (value, after) := by
  cases value with
  | null =>
    have hvalue : constant? ('N' :: ['o', 'n', 'e']) = some .null := rfl
    exact readAtom_constant hvalue (by decide) (by decide) (by decide) hafter.1
  | bool b =>
    cases b with
    | true =>
      have hvalue : constant? ('T' :: ['r', 'u', 'e']) = some (.bool true) := rfl
      exact readAtom_constant hvalue (by decide) (by decide) (by decide) hafter.1
    | false =>
      have hvalue : constant? ('F' :: ['a', 'l', 's', 'e']) = some (.bool false) := rfl
      exact readAtom_constant hvalue (by decide) (by decide) (by decide) hafter.1
  | number n =>
    rw [scalarChars, readAtom, readSigned_text n hafter.1]
    rfl
  | string text =>
    have hread := readString_quoteChars text.toList hafter.2
    have hsigned : readSigned (quoteChars text.toList ++ after) = none :=
      readSigned_eq_none (by decide) (by decide) (by decide) _
    rw [scalarChars, readAtom, hsigned, hread]
    simp
  | array items => cases hscalar
  | object members => cases hscalar

end Atoms

/-! ### Lists and dictionaries -/

section Entries

variable {text rest after next : List Char} {before : Fields} {key : String} {value : Json}

theorem reads_advance {α : Type} (result : α) (hrest : rest.length < text.length) :
    Reads result rest (advance (result, rest) : Option (α × Rest text)) :=
  ⟨hrest, dif_pos hrest⟩

theorem readExpr_eq_none {c : Char} (hc : continues c = false)
    (hmark : c ∉ ['.', '-', '"', '\x27']) (hlist : c ≠ '[') (hdict : c ≠ '\x7b')
    (rest : List Char) : readExpr (c :: rest) = none := by
  rw [readExpr, if_neg hlist, if_neg hdict, readAtom_eq_none hc hmark]
  rfl

/-- Where an expression is read there is one: blanks and closing brackets do not start one. -/
theorem Reads.exists_cons (hread : Reads value rest (readExpr text)) :
    ∃ c more, text = c :: more ∧ isBlank c = false ∧ c ≠ ']' := by
  obtain ⟨hrest, hrun⟩ := hread
  cases text with
  | nil =>
    rw [readExpr] at hrun
    cases hrun
  | cons c more =>
    refine ⟨c, more, rfl, ?_, ?_⟩
    · by_contra hblank
      simp only [Bool.not_eq_false, isBlank, Bool.or_eq_true, decide_eq_true_eq] at hblank
      obtain ((rfl | rfl) | rfl) | rfl := hblank
      all_goals
        rw [readExpr_eq_none (by decide) (by decide) (by decide) (by decide)] at hrun
        cases hrun
    · rintro rfl
      rw [readExpr_eq_none (by decide) (by decide) (by decide) (by decide)] at hrun
      cases hrun

theorem skipBlanks_append {blanks : List Char} (hblanks : blanks.all isBlank = true)
    (text : List Char) : skipBlanks (blanks ++ text) = skipBlanks text := by
  rw [skipBlanks, List.dropWhile_append_of_pos (List.all_eq_true.mp hblanks), skipBlanks]

theorem reads_readItems_nil (htext : skipBlanks text = ']' :: rest) :
    Reads [] rest (readItems text) := by
  rw [readItems, Json.next?_eq htext]
  exact ⟨_, rfl⟩

theorem reads_readItems_last (hvalue : Reads value after (readExpr (skipBlanks text)))
    (hafter : skipBlanks after = ']' :: rest) : Reads [value] rest (readItems text) := by
  obtain ⟨c, more, htext, -, hc⟩ := hvalue.exists_cons
  rw [readItems, Json.next?_eq htext]
  split
  · contradiction
  · rename_i heq
    cases heq
    exact absurd rfl hc
  · refine hvalue.bind fun _ ↦ ?_
    simp only
    rw [Json.next?_eq hafter]
    exact ⟨_, rfl⟩

theorem reads_readItems_more {items : List Json}
    (hvalue : Reads value after (readExpr (skipBlanks text)))
    (hafter : skipBlanks after = ',' :: next) (hitems : Reads items rest (readItems next)) :
    Reads (value :: items) rest (readItems text) := by
  obtain ⟨c, more, htext, -, hc⟩ := hvalue.exists_cons
  rw [readItems, Json.next?_eq htext]
  split
  · contradiction
  · rename_i heq
    cases heq
    exact absurd rfl hc
  · refine hvalue.bind fun _ ↦ ?_
    simp only
    rw [Json.next?_eq hafter]
    exact hitems.bind fun _ ↦ ⟨_, rfl⟩

theorem reads_readKey (htext : skipBlanks text = quoteChars key.toList ++ ':' :: rest) :
    Reads key rest (readKey text) := by
  have hread : readString (skipBlanks text) = some (key.toList, ':' :: rest) := by
    rw [htext]
    exact readString_quoteChars key.toList (by simp)
  have hlength : rest.length < text.length := by
    have hblanks := Json.length_skipBlanks_le text
    rw [htext, List.length_append, List.length_cons] at hblanks
    omega
  rw [readKey, hread]
  simp only [Option.bind_eq_bind, Option.bind_some]
  rw [Json.next?_eq (Json.skipBlanks_cons (by decide) rest)]
  simp only [String.ofList_toList]
  exact reads_advance key hlength

theorem reads_readMembers_nil (htext : skipBlanks text = '\x7d' :: rest) :
    Reads before rest (readMembers before text) := by
  rw [readMembers, Json.next?_eq htext]
  exact ⟨_, rfl⟩

section Members

variable (htext : skipBlanks text = quoteChars key.toList ++ ':' :: next)
  (hvalue : Reads value after (readExpr (skipBlanks next)))

include htext hvalue

theorem reads_readMembers_last (hafter : skipBlanks after = '\x7d' :: rest) :
    Reads (before.insert key value) rest (readMembers before text) := by
  rw [readMembers, Json.next?_eq (htext.trans (by rfl))]
  refine (reads_readKey htext).bind fun _ ↦ hvalue.bind fun _ ↦ ?_
  simp only
  rw [Json.next?_eq hafter]
  exact ⟨_, rfl⟩

theorem reads_readMembers_more {members : Fields} {more : List Char}
    (hafter : skipBlanks after = ',' :: more)
    (hmembers : Reads members rest (readMembers (before.insert key value) more)) :
    Reads members rest (readMembers before text) := by
  rw [readMembers, Json.next?_eq (htext.trans (by rfl))]
  refine (reads_readKey htext).bind fun _ ↦ hvalue.bind fun _ ↦ ?_
  simp only
  rw [Json.next?_eq hafter]
  exact hmembers.bind fun _ ↦ ⟨_, rfl⟩

end Members

end Entries

/-! ### Layouts -/

section Layouts

variable {write : Json → List Char} {value : Json} {gap closing text rest : List Char}

/-- The value is read from what is written for it, in front of what ends an expression. -/
def ReadsBack (write : Json → List Char) (value : Json) : Prop :=
  ∀ after, EndsExpr after → Reads value after (readExpr (write value ++ after))

theorem Reads.skipBlanks_eq (hread : Reads value rest (readExpr text)) :
    skipBlanks text = text := by
  obtain ⟨c, more, rfl, hblank, -⟩ := hread.exists_cons
  exact Json.skipBlanks_cons hblank more

/-- Items are read with a comma and blanks in front of all but the first. -/
theorem reads_readItems {items : List Json} {item : Json} {lead : List Char}
    (hgap : gap.all isBlank = true) (hlead : lead.all isBlank = true)
    (hends : EndsExpr closing) (hclosing : skipBlanks closing = ']' :: rest)
    (hitems : ∀ other ∈ item :: items, ReadsBack write other) :
    Reads (item :: items) rest (readItems (lead ++ (write item ++
      (items.flatMap (fun other ↦ ',' :: (gap ++ write other)) ++ closing)))) := by
  induction items generalizing item lead with
  | nil =>
    have hitem := hitems item List.mem_cons_self closing hends
    rw [← hitem.skipBlanks_eq, ← skipBlanks_append hlead] at hitem
    exact reads_readItems_last hitem hclosing
  | cons next items ih =>
    obtain ⟨hfirst, hmore⟩ := List.forall_mem_cons.mp hitems
    have hrest := ih hgap hmore
    rw [List.flatMap_cons, List.cons_append, List.cons_append, List.append_assoc,
      List.append_assoc]
    generalize write next ++ (items.flatMap (fun other ↦ ',' :: (gap ++ write other)) ++ closing) =
      tail at hrest ⊢
    have hitem := hfirst (',' :: (gap ++ tail)) (.cons (by decide) _)
    rw [← hitem.skipBlanks_eq, ← skipBlanks_append hlead] at hitem
    exact reads_readItems_more hitem (Json.skipBlanks_cons (by decide) _) hrest

/-- The entry of a dictionary. -/
def entryChars (write : Json → List Char) (entry : String × Json) : List Char :=
  quoteChars entry.1.toList ++ ':' :: ' ' :: write entry.2

/-- Entries are read with a comma and blanks in front of all but the first, if no key is read
twice. -/
theorem reads_readMembers {members before : Fields} {entry : String × Json} {lead : List Char}
    (hgap : gap.all isBlank = true) (hlead : lead.all isBlank = true)
    (hends : EndsExpr closing) (hclosing : skipBlanks closing = '\x7d' :: rest)
    (hunique : Entries.Unique (before ++ entry :: members))
    (hmembers : ∀ other ∈ entry :: members, ReadsBack write other.2) :
    Reads (before ++ entry :: members) rest (readMembers before (lead ++ (entryChars write entry ++
      (members.flatMap (fun other ↦ ',' :: (gap ++ entryChars write other)) ++ closing)))) := by
  have hkey (entry : String × Json) {lead : List Char} (hlead : lead.all isBlank = true)
      (after : List Char) : skipBlanks (lead ++ (entryChars write entry ++ after)) =
        quoteChars entry.1.toList ++ ':' :: (' ' :: (write entry.2 ++ after)) := by
    rw [skipBlanks_append hlead, entryChars, List.append_assoc]
    exact Json.skipBlanks_cons (by decide) _
  induction members generalizing before entry lead with
  | nil =>
    have hvalue := hmembers entry List.mem_cons_self closing hends
    rw [← hvalue.skipBlanks_eq, ← skipBlanks_append (rfl : [' '].all isBlank = true)] at hvalue
    have hinsert : before.insert entry.1 entry.2 = before ++ [entry] :=
      Entries.insert_eq_append hunique.not_mem_keys
    rw [← hinsert]
    exact reads_readMembers_last (hkey entry hlead closing) hvalue hclosing
  | cons next members ih =>
    obtain ⟨hfirst, hmore⟩ := List.forall_mem_cons.mp hmembers
    have hnew : entry.1 ∉ before.keys := hunique.not_mem_keys
    rw [List.append_cons] at hunique ⊢
    have hrest := ih hgap hunique hmore
    rw [List.flatMap_cons, List.cons_append, List.cons_append, List.append_assoc,
      List.append_assoc]
    generalize entryChars write next ++ (members.flatMap (fun other ↦ ',' ::
      (gap ++ entryChars write other)) ++ closing) = tail at hrest ⊢
    have hvalue := hfirst (',' :: (gap ++ tail)) (.cons (by decide) _)
    rw [← hvalue.skipBlanks_eq, ← skipBlanks_append (rfl : [' '].all isBlank = true)] at hvalue
    rw [← Entries.insert_eq_append hnew] at hrest ⊢
    exact reads_readMembers_more (hkey entry hlead _) hvalue (Json.skipBlanks_cons (by decide) _)
      hrest

end Layouts

/-! ### All values -/

theorem literalChars_of_isScalar {value : Json} (hscalar : isScalar value = true) (level : Nat) :
    literalChars level value = scalarChars value := by
  cases value with
  | array items => cases hscalar
  | object members => cases hscalar
  | _ => rw [literalChars] <;> simp

theorem inlineItems_eq (level : Nat) {items : List Json} (hscalar : items.all isScalar = true) :
    inlineItems false items =
      items.flatMap fun other ↦ ',' :: ([' '] ++ literalChars level other) := by
  induction items with
  | nil => rfl
  | cons item rest ih =>
    rw [List.all_cons, Bool.and_eq_true] at hscalar
    rw [inlineItems, ih hscalar.2, List.flatMap_cons, literalChars_of_isScalar hscalar.1]
    simp

/-- A line end, and the blanks in front of what is indented by the level. -/
def lineStart (level : Nat) : List Char := '\n' :: indent level

theorem all_isBlank_lineStart (level : Nat) : (lineStart level).all isBlank = true := by
  rw [lineStart, indent, List.all_cons, List.all_replicate]
  split_ifs <;> decide

theorem itemLines_eq (level : Nat) (items : List Json) : itemLines level false items =
    items.flatMap fun other ↦ ',' :: (lineStart level ++ literalChars level other) := by
  induction items with
  | nil => rfl
  | cons item rest ih =>
    rw [itemLines, ih, List.flatMap_cons]
    simp [lineStart]

theorem memberLines_eq (level : Nat) (members : List (String × Json)) :
    memberLines level false members = members.flatMap fun other ↦
      ',' :: (lineStart level ++ entryChars (literalChars level) other) := by
  induction members with
  | nil => rfl
  | cons entry rest ih =>
    obtain ⟨key, value⟩ := entry
    rw [memberLines, ih, List.flatMap_cons]
    simp [lineStart, entryChars]

/-- What is read as an atom is an expression: no list and no dictionary starts as an atom. -/
theorem reads_of_readAtom {text rest : List Char} {value : Json}
    (hread : readAtom text = some (value, rest)) (hrest : rest.length < text.length) :
    Reads value rest (readExpr text) := by
  cases text with
  | nil => cases hrest
  | cons c more =>
    have hlist : c ≠ '[' := by
      rintro rfl
      rw [readAtom_eq_none (by decide) (by decide)] at hread
      cases hread
    have hdict : c ≠ '\x7b' := by
      rintro rfl
      rw [readAtom_eq_none (by decide) (by decide)] at hread
      cases hread
    rw [readExpr, if_neg hlist, if_neg hdict, hread]
    exact reads_advance value hrest

theorem reads_list {text rest : List Char} {items : List Json}
    (hitems : Reads items rest (readItems text)) :
    Reads (.array items) rest (readExpr ('[' :: text)) := by
  rw [readExpr, if_pos rfl]
  exact hitems.bind fun _ ↦ ⟨_, rfl⟩

theorem reads_dict {text rest : List Char} {members : Fields}
    (hmembers : Reads members rest (readMembers [] text)) :
    Reads (.object members) rest (readExpr ('\x7b' :: text)) := by
  rw [readExpr, if_neg (by decide), if_pos rfl]
  exact hmembers.bind fun _ ↦ ⟨_, rfl⟩

theorem readsBack_scalar {value : Json} (hscalar : isScalar value = true) (level : Nat) :
    ReadsBack (literalChars level) value := by
  intro after hafter
  have hne : scalarChars value ≠ [] := by
    intro hnil
    have hread := readAtom_scalarChars hscalar endsExpr_nil
    rw [hnil] at hread
    cases hread
  rw [literalChars_of_isScalar hscalar]
  refine reads_of_readAtom (readAtom_scalarChars hscalar hafter) ?_
  rw [List.length_append]
  exact Nat.lt_add_of_pos_left (List.length_pos_iff.mpr hne)

/-- Blanks in front of a closing bracket are skipped. -/
theorem skipBlanks_closing {blanks : List Char} (hblanks : blanks.all isBlank = true) {c : Char}
    (hc : isBlank c = false) (after : List Char) :
    skipBlanks (blanks ++ c :: after) = c :: after := by
  rw [skipBlanks_append hblanks]
  exact Json.skipBlanks_cons hc after

/-- A list is read whether its items are on one line or on one each. -/
theorem readsBack_array {items : List Json}
    (hitems : ∀ item ∈ items, ∀ level, ReadsBack (literalChars level) item) (level : Nat) :
    ReadsBack (literalChars level) (.array items) := by
  intro after _
  have hends : EndsExpr (']' :: after) := .cons (by decide) after
  cases items with
  | nil => exact reads_list (reads_readItems_nil (Json.skipBlanks_cons (by decide) after))
  | cons item items =>
    by_cases hscalar : (item :: items).all isScalar = true
    · have hread := reads_readItems (rfl : [' '].all isBlank = true) (rfl : [].all isBlank = true)
        hends (Json.skipBlanks_cons (by decide) after) fun other hother ↦ hitems other hother level
      have hscalars := hscalar
      rw [List.all_cons, Bool.and_eq_true] at hscalars
      have htext : literalChars level (.array (item :: items)) ++ after =
          '[' :: ([] ++ (literalChars level item ++
            (inlineItems false items ++ ']' :: after))) := by
        rw [literalChars, if_pos hscalar, inlineItems, literalChars_of_isScalar hscalars.1]
        simp
      rw [htext, inlineItems_eq level hscalars.2]
      exact reads_list hread
    · have hblanks := all_isBlank_lineStart
      have hread := reads_readItems (hblanks (level + 1)) (hblanks (level + 1))
        (.cons (by decide) (indent level ++ ']' :: after))
        (skipBlanks_closing (hblanks level) (by decide) after)
        fun other hother ↦ hitems other hother (level + 1)
      have htext : literalChars level (.array (item :: items)) ++ after =
          '[' :: (lineStart (level + 1) ++ (literalChars (level + 1) item ++
            (itemLines (level + 1) false items ++ (lineStart level ++ ']' :: after)))) := by
        rw [literalChars, if_neg hscalar, itemLines]
        simp [lineStart]
      rw [htext, itemLines_eq]
      exact reads_list hread

theorem readsBack_object {members : Fields} (hunique : members.Unique)
    (hmembers : ∀ entry ∈ members, ∀ level, ReadsBack (literalChars level) entry.2) (level : Nat) :
    ReadsBack (literalChars level) (.object members) := by
  intro after _
  cases members with
  | nil => exact reads_dict (reads_readMembers_nil (Json.skipBlanks_cons (by decide) after))
  | cons entry members =>
    have hblanks := all_isBlank_lineStart
    have hunique : Entries.Unique ([] ++ entry :: members) := hunique
    have hread := reads_readMembers (hblanks (level + 1)) (hblanks (level + 1))
      (.cons (by decide) (indent level ++ '\x7d' :: after))
      (skipBlanks_closing (hblanks level) (by decide) after) hunique
      fun other hother ↦ hmembers other hother (level + 1)
    have htext : literalChars level (.object (entry :: members)) ++ after =
        '\x7b' :: (lineStart (level + 1) ++ (entryChars (literalChars (level + 1)) entry ++
          (memberLines (level + 1) false members ++ (lineStart level ++ '\x7d' :: after)))) := by
      obtain ⟨key, value⟩ := entry
      rw [literalChars, memberLines]
      simp [lineStart, entryChars]
    rw [htext, memberLines_eq]
    exact reads_dict hread

/-- The expression for a value is read as the value. -/
theorem readsBack_literalChars {value : Json} (hdistinct : value.Distinct) (level : Nat) :
    ReadsBack (literalChars level) value := by
  induction hdistinct generalizing level with
  | null | bool | number | string => exact readsBack_scalar rfl level
  | array _ ih => exact readsBack_array ih level
  | object hunique _ ih => exact readsBack_object hunique ih level

theorem Reads.read?_eq {text : String} {value : Json}
    (hread : Reads value [] (readExpr text.toList)) : read? text = some value := by
  obtain ⟨hrest, hrun⟩ := hread
  rw [read?, hrun]

/-- The literal for a value is one expression that denotes the value, alone and in front of all
that ends an expression; the literal for a string is on one line, and reading it stops at its last
quote. -/
theorem literal_denotes {value : Json} (hdistinct : value.Distinct) (level : Nat) :
    read? (literal value level) = some value ∧
      (∀ rest, EndsExpr rest →
        Reads value rest (readExpr ((literal value level).toList ++ rest))) ∧
      ∀ text : String, (∀ c ∈ (quote text).toList, c ≠ '\n' ∧ c ≠ '\r') ∧
        ∀ rest, rest.head? ≠ some '"' →
          readString ((quote text).toList ++ rest) = some (text.toList, rest) := by
  have hread := readsBack_literalChars hdistinct level
  have htext : (literal value level).toList = literalChars level value := String.toList_ofList
  refine ⟨?_, fun rest hrest ↦ ?_, fun text ↦ ?_⟩
  · have hwhole := hread [] endsExpr_nil
    rw [List.append_nil, ← htext] at hwhole
    exact hwhole.read?_eq
  · rw [htext]
    exact hread rest hrest
  · rw [quote, String.toList_ofList]
    exact ⟨fun _ ↦ quoteChars_oneLine text.toList, fun _ ↦ readString_quoteChars text.toList⟩

def minusQuarter : Binary64 :=
  ⟨true, Nat.pow 2 52, 1020, Nat.le_of_ble_eq_true rfl, Nat.le_of_ble_eq_true rfl,
    .inr (Nat.le_refl _)⟩

/-- Lists in both layouts, and texts that would end a literal. -/
def mixed : Json :=
  .object [("a\"\\", .array [.ofNat 1, .number (.float minusQuarter), .null]),
    ("\n\x00é", .array [.array [], .object []])]

theorem literal_denotes_mixed : mixed.Distinct ∧ read? (literal mixed 1) = some mixed ∧
    literal mixed 1 = "\x7b
        \"a\\\"\\\\\": [1, -0.25, None],
        \"\\n\\u0000é\": [
            [],
            \x7b\x7d
        ]
    \x7d" := by
  have hdistinct : mixed.Distinct := by decide +kernel
  exact ⟨hdistinct, (literal_denotes hdistinct 1).1, by decide +kernel⟩

end EventSchema.Python
