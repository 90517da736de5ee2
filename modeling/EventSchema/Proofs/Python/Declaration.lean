import EventSchema.Proofs.Python.Hint
import EventSchema.Proofs.TypeName.Identifier

/-!
# Declarations of event types

A typed dictionary is declared by a class or by a call. The call spells its keys as strings. In the
body of a class they are names, and Python changes a name that starts with two underscores, unless
it ends with two: the name of the class is put in front of it (`mangle`). A class cannot be read at
all if a field is named `__debug__`, to which nothing may be assigned, or if a description holds the
character zero (`fitsBody`). Every other declaration is read, if the name of the type is an
identifier, with the fields of the event as its entries (`readTypedDict_eventType`).
-/

set_option autoImplicit false

namespace EventSchema

namespace Python

open Json (Rest next? skipBlanks isBlank)

/-! ### Reading -/

/-- What is declared. -/
structure TypedDict where
  name : String
  isTotal : Bool
  entries : Entries TypeExpr

/-- Whether the name is private to the class in whose body it stands. -/
def isPrivate (name : String) : Bool :=
  Text.startsWith ['_', '_'] name.toList && !Text.endsWith ['_', '_'] name.toList

/-- The name that a name in the body of a class stands for, up to the normal form of the name of the
class. -/
def mangle (className name : String) : String :=
  let bare := className.toList.dropWhile (· = '_')
  if isPrivate name && !bare.isEmpty then String.ofList ('_' :: bare ++ name.toList) else name

/-- The name that a word is, if it is an identifier and no keyword. -/
def name? (word : List Char) : Option String :=
  let name := String.ofList word
  if Text.isIdentifier word && !keywords.contains name then some name else none

/-- What follows the given start of the text. -/
def after? (start text : List Char) : Option (List Char) :=
  if start.isPrefixOf text then some (text.drop start.length) else none

/-- Whether all keys must be there, and what follows. -/
def readTotality (text : List Char) : Bool × List Char :=
  match after? ", total=False".toList text with
  | some rest => (false, rest)
  | none => (true, text)

/-- Reads entries up to the closing brace. -/
def readEntries (before : Entries TypeExpr) (text : List Char) :
    Option (Entries TypeExpr × Rest text) :=
  match next? text with
  | none => none
  | some ('\x7d', ⟨rest, h⟩) => some (before, ⟨rest, h⟩)
  | some _ => do
    let (key, ⟨after, _⟩) ← readKey text
    have hblanks := Json.length_skipBlanks_le after
    let (type, ⟨after, _⟩) ← readHint (skipBlanks after)
    match next? after with
    | some (',', ⟨rest, _⟩) => do
      let (entries, ⟨final, _⟩) ← readEntries (before.insert key type) rest
      return (entries, ⟨final, by omega⟩)
    | some ('\x7d', ⟨rest, _⟩) => some (before.insert key type, ⟨rest, by omega⟩)
    | _ => none
termination_by text.length

/-- Reads a declaration by a call, with its line end. -/
def readCall (text : List Char) : Option (TypedDict × List Char) := do
  let (word, ⟨text, _⟩) ← readWord text
  let name ← name? word
  let text ← after? " = TypedDict(".toList text
  let (title, text) ← readString text
  let text ← after? ", \x7b".toList text
  let (entries, ⟨text, _⟩) ← readEntries [] text
  let (isTotal, text) := readTotality text
  let text ← after? [')', '\n'] text
  if title = word then some (⟨name, isTotal, entries⟩, text) else none

/-- Reads a statement of the body of a class: a string, `pass`, or a name with its type. Nothing may
be assigned to `__debug__`. -/
def readStatement (className : String) (before : Entries TypeExpr) (text : List Char) :
    Option (Entries TypeExpr × List Char) :=
  if text.head? = some '"' then (readString text).map fun (_, rest) ↦ (before, rest)
  else do
    let (word, ⟨after, _⟩) ← readWord text
    if word = "pass".toList then return (before, after)
    else do
      let name ← name? word
      let after ← after? [':', ' '] after
      let (type, ⟨rest, _⟩) ← readHint after
      if name = "__debug__" then none
      else some (before.insert (mangle className name) type, rest)

/-- The rest of the next line that is not empty, if it is indented by four blanks. -/
def indented? (text : List Char) : Option (List Char) :=
  after? "    ".toList (text.dropWhile (· = '\n'))

/-- Reads the statements of a body, each on lines of its own. -/
def readBody (className : String) (before : Entries TypeExpr) (text : List Char) :
    Option (Entries TypeExpr × List Char) :=
  match indented? text with
  | none => some (before, text)
  | some line => do
    let (entries, rest) ← readStatement className before line
    let rest ← after? ['\n'] rest
    if rest.length < text.length then readBody className entries rest else none
termination_by text.length

/-- Reads a declaration by a class, which has a body. -/
def readClass (text : List Char) : Option (TypedDict × List Char) := do
  let text ← after? "class ".toList text
  let (word, ⟨text, _⟩) ← readWord text
  let name ← name? word
  let text ← after? "(TypedDict".toList text
  let (isTotal, text) := readTotality text
  let text ← after? [')', ':', '\n'] text
  let (entries, rest) ← readBody name [] text
  if (indented? text).isSome then some (⟨name, isTotal, entries⟩, rest) else none

/-- Reads a declaration, and gives the text from the next line on. -/
def readTypedDict (text : List Char) : Option (TypedDict × List Char) :=
  if "class ".toList.isPrefixOf text then readClass text else readCall text

/-! ### Lines and words -/

/-- The text of lines, each with its end. -/
def lineChars (lines : List String) : List Char := lines.flatMap fun line ↦ line.toList ++ ['\n']

section Words

variable {start rest : List Char} {name : String}

theorem lineChars_cons (line : String) (lines : List String) :
    lineChars (line :: lines) = line.toList ++ '\n' :: lineChars lines := by
  rw [lineChars, List.flatMap_cons, List.append_assoc]
  rfl

theorem lineChars_append (first second : List String) :
    lineChars (first ++ second) = lineChars first ++ lineChars second := List.flatMap_append

theorem toList_render (plan : Plan) : (render plan).toList = lineChars (lines plan) := by
  have hlines (line : String) (lines : List String) :
      ("\n".intercalate (line :: lines) ++ "\n").toList = lineChars (line :: lines) := by
    induction lines generalizing line with
    | nil => simp [lineChars]
    | cons next lines ih =>
      rw [String.intercalate_cons_cons, String.append_assoc, String.toList_append, ih,
        lineChars_cons line]
      simp
  obtain ⟨line, more, hcons⟩ : ∃ line more, lines plan = line :: more := ⟨_, _, rfl⟩
  rw [render, hcons, hlines]

theorem after?_append (start rest : List Char) : after? start (start ++ rest) = some rest := by
  rw [after?, if_pos (List.isPrefixOf_iff_prefix.mpr (List.prefix_append _ _)), List.drop_left]

theorem continues_of_isWord {c : Char} (hc : Text.isWord c = true) : continues c = true := by
  have hcode {first last : Char} (hfirst : first.toNat ≤ c.toNat) (hlast : c.toNat ≤ last.toNat) :
      first ≤ c ∧ c ≤ last := ⟨hfirst, hlast⟩
  simp only [Text.isWord, Text.isWordCode, Bool.or_eq_true, Bool.and_eq_true,
    decide_eq_true_eq] at hc
  simp only [continues, Text.isAsciiLetter, Json.isDigit, Bool.or_eq_true, Bool.and_eq_true,
    decide_eq_true_eq]
  obtain ((⟨hfirst, hlast⟩ | ⟨hfirst, hlast⟩) | ⟨hfirst, hlast⟩) | hbeyond := hc
  · exact .inl (.inl (.inl (.inr (hcode hfirst hlast))))
  · exact .inl (.inl (.inl (.inl (.inr (hcode hfirst hlast)))))
  · exact .inl (.inl (.inl (.inl (.inl (hcode hfirst hlast)))))
  · exact .inr hbeyond

theorem isIdStart_or_of_isIdentifierStart {c : Char} (hc : isIdentifierStart c = true) :
    (Text.isIdStart c || c == '_') = true := by
  have hlower : Text.covers Text.idStartRanges 97 122 := by decide +kernel
  have hupper : Text.covers Text.idStartRanges 65 90 := by decide +kernel
  simp only [isIdentifierStart, Text.isAsciiLetter, Bool.or_eq_true, Bool.and_eq_true,
    decide_eq_true_eq] at hc
  rw [Bool.or_eq_true, beq_iff_eq]
  obtain (⟨hfirst, hlast⟩ | ⟨hfirst, hlast⟩) | hunderscore := hc
  · exact .inl (Text.inRanges_of_covers hlower hfirst hlast)
  · exact .inl (Text.inRanges_of_covers hupper hfirst hlast)
  · exact .inr hunderscore

theorem isIdContinue_of_isIdentifierChar {c : Char} (hc : isIdentifierChar c = true) :
    Text.isIdContinue c = true := by
  have hdigits : Text.covers Text.idContinueRanges 48 57 := by decide +kernel
  have hunderscore : Text.isIdContinue '_' = true := by decide +kernel
  rw [isIdentifierChar, Bool.or_eq_true] at hc
  obtain hstart | hdigit := hc
  · have hstart := isIdStart_or_of_isIdentifierStart hstart
    rw [Bool.or_eq_true, beq_iff_eq] at hstart
    obtain hstart | rfl := hstart
    · exact Text.isIdContinue_of_isIdStart hstart
    · exact hunderscore
  · rw [Text.isAsciiDigit, Bool.and_eq_true, decide_eq_true_eq, decide_eq_true_eq] at hdigit
    exact Text.inRanges_of_covers hdigits hdigit.1 hdigit.2

theorem continues_of_isIdentifierChar {c : Char} (hc : isIdentifierChar c = true) :
    continues c = true := by
  simp only [isIdentifierChar, isIdentifierStart, Bool.or_eq_true, decide_eq_true_eq] at hc
  simp only [continues, Bool.or_eq_true, beq_iff_eq]
  obtain (hletter | hunderscore) | hdigit := hc
  · exact .inl (.inl (.inl (.inl hletter)))
  · exact .inl (.inl (.inr hunderscore))
  · exact .inl (.inl (.inl (.inr hdigit)))

/-- What passes for an identifier is one, and no keyword, and one word. -/
theorem name?_of_isIdentifier (hname : isIdentifier name = true) :
    name? name.toList = some name ∧ ∀ c ∈ name.toList, continues c = true := by
  rw [isIdentifier] at hname
  split at hname
  · cases hname
  · rename_i first more hchars
    simp only [Bool.and_eq_true] at hname
    obtain ⟨⟨hfirst, hmore⟩, hkeyword⟩ := hname
    have hidentifier : Text.isIdentifier name.toList = true := by
      rw [hchars, Text.isIdentifier, isIdStart_or_of_isIdentifierStart hfirst, Bool.true_and]
      rw [List.all_eq_true] at hmore ⊢
      exact fun c hc ↦ isIdContinue_of_isIdentifierChar (hmore c hc)
    have hfirst : isIdentifierChar first = true := by rw [isIdentifierChar, hfirst, Bool.true_or]
    constructor
    · rw [name?, hidentifier, String.ofList_toList, hkeyword, Bool.true_and, if_pos rfl]
    · rw [hchars, List.forall_mem_cons]
      exact ⟨continues_of_isIdentifierChar hfirst,
        fun c hc ↦ continues_of_isIdentifierChar (List.all_eq_true.mp hmore c hc)⟩

theorem exists_cons_ofEvent (event : String) : ∃ first more,
    (TypeName.ofEvent event).toList = first :: more ∧ Text.isWord first = true := by
  cases hchars : (TypeName.ofEvent event).toList with
  | nil =>
    have hsuffix := TypeName.suffix_ofEvent event
    rw [hchars] at hsuffix
    exact absurd hsuffix (by decide)
  | cons first more =>
    have hmem : first ∈ (TypeName.ofEvent event).toList := hchars ▸ List.mem_cons_self
    exact ⟨first, more, rfl, TypeName.isWord_of_mem_ofEvent hmem⟩

/-- The name of a type is no keyword, so it is a name if it is an identifier. -/
theorem name?_ofEvent (event : String) : name? (TypeName.ofEvent event).toList =
    if Text.isIdentifier (TypeName.ofEvent event).toList then some (TypeName.ofEvent event)
    else none := by
  have hkeyword : keywords.contains (TypeName.ofEvent event) = false := by
    rw [Bool.eq_false_iff, Ne, List.contains_iff_mem]
    intro hmem
    have hkeywords : ∀ keyword ∈ keywords, ¬"Properties".toList <:+ keyword.toList := by decide
    exact hkeywords _ hmem (TypeName.suffix_ofEvent event)
  rw [name?, String.ofList_toList, hkeyword, Bool.not_false, Bool.and_true]

end Words

/-! ### Statements of a body -/

/-- Whether the lines of a field can stand in the body of a class. -/
def fitsBody (field : Field) : Bool :=
  field.name != "__debug__" && field.description.all fun text ↦ !text.toList.contains '\x00'

section Body

variable {className : String} {before entries : Entries TypeExpr} {field : Field}
  {line rest : List Char}

theorem indented?_append (line : List Char) : indented? ("    ".toList ++ line) = some line := by
  have hblank : ("    ".toList ++ line).dropWhile (· = '\n') = "    ".toList ++ line := by
    simp
  rw [indented?, hblank, after?_append]

theorem readBody_of_statement
    (hline : readStatement className before (line ++ '\n' :: rest) = some (entries, '\n' :: rest)) :
    readBody className before ("    ".toList ++ (line ++ '\n' :: rest)) =
      readBody className entries rest := by
  have hlength : rest.length < ("    ".toList ++ (line ++ '\n' :: rest)).length := by
    simp only [List.length_append, List.length_cons]
    omega
  have hend : after? ['\n'] ('\n' :: rest) = some rest := after?_append ['\n'] rest
  conv_lhs => rw [readBody]
  rw [indented?_append]
  simp only [hline, hend, Option.bind_eq_bind, Option.bind_some]
  rw [if_pos hlength]

theorem readBody_of_none (hline : readStatement className before line = none) :
    readBody className before ("    ".toList ++ line) = none := by
  rw [readBody, indented?_append]
  simp only [hline]
  rfl

/-- A docstring adds nothing, and cannot be read with the character zero in it. -/
theorem readBody_docstring (text : String) :
    readBody className before (lineChars ["    \"\"\"" ++ docstring text ++ "\"\"\""] ++ rest) =
      if '\x00' ∈ text.toList then none else readBody className before rest := by
  have hline : lineChars ["    \"\"\"" ++ docstring text ++ "\"\"\""] ++ rest =
      "    ".toList ++ ((tripleQuotes ++ (docstringChars text.toList ++ tripleQuotes)) ++
        '\n' :: rest) := by
    simp [lineChars, docstring, tripleQuotes]
  have hstatement : readStatement className before
      ((tripleQuotes ++ (docstringChars text.toList ++ tripleQuotes)) ++ '\n' :: rest) =
        if '\x00' ∈ text.toList then none else some (before, '\n' :: rest) := by
    have hquote : ((tripleQuotes ++ (docstringChars text.toList ++ tripleQuotes)) ++
        '\n' :: rest).head? = some '"' := rfl
    rw [readStatement, if_pos hquote, List.append_assoc, List.append_assoc,
      readString_docstringChars]
    split_ifs <;> rfl
  rw [hline]
  split_ifs at hstatement ⊢
  · exact readBody_of_none hstatement
  · exact readBody_of_statement hstatement

theorem readStatement_field (className : String) (before : Entries TypeExpr)
    (hname : isIdentifier field.name = true) (hdistinct : field.type.Distinct)
    (hrest : EndsHint rest) :
    readStatement className before
        ((field.name ++ ": " ++ typeHint field.type).toList ++ rest) =
      if field.name = "__debug__" then none
      else some (before.insert (mangle className field.name) field.type, rest) := by
  obtain ⟨hsome, hword⟩ := name?_of_isIdentifier hname
  have hne : field.name.toList ≠ [] := by
    intro hnil
    rw [hnil] at hsome
    cases hsome
  have htext : (field.name ++ ": " ++ typeHint field.type).toList ++ rest =
      field.name.toList ++ ([':', ' '] ++ ((typeHint field.type).toList ++ rest)) := by
    simp
  have hquote : (field.name.toList ++
      ([':', ' '] ++ ((typeHint field.type).toList ++ rest))).head? ≠ some '"' := by
    rw [List.head?_append_of_ne_nil _ hne]
    intro hhead
    exact absurd (hword _ (List.mem_of_head? hhead)) (by decide)
  have hpass : field.name.toList ≠ "pass".toList := by
    intro hpass
    rw [String.toList_inj] at hpass
    rw [hpass] at hname
    exact absurd hname (by decide)
  have hcolon : Ends ([':', ' '] ++ ((typeHint field.type).toList ++ rest)) :=
    .cons (by decide) _
  obtain ⟨_, hreadWord⟩ := reads_readWord hne hword hcolon
  obtain ⟨_, hreadHint⟩ := reads_typeHint hdistinct hrest
  rw [htext, readStatement, if_neg hquote, hreadWord]
  simp only [Option.bind_eq_bind, Option.bind_some, if_neg hpass, hsome, after?_append, hreadHint]

/-- The lines of a field add its entry, under the name that its name stands for. -/
theorem readBody_classField (hname : isIdentifier field.name = true)
    (hdistinct : field.type.Distinct) :
    readBody className before (lineChars (classField field) ++ rest) =
      if fitsBody field then
        readBody className (before.insert (mangle className field.name) field.type) rest
      else none := by
  have hentry : readBody className before
      (lineChars ["    " ++ field.name ++ ": " ++ typeHint field.type] ++ rest) =
        if field.name = "__debug__" then none else
          readBody className (before.insert (mangle className field.name) field.type) rest := by
    have hline : lineChars ["    " ++ field.name ++ ": " ++ typeHint field.type] ++ rest =
        "    ".toList ++ ((field.name ++ ": " ++ typeHint field.type).toList ++ '\n' :: rest) := by
      simp [lineChars]
    have hend : EndsHint ('\n' :: rest) := .cons (by decide) rest
    have hstatement := readStatement_field className before hname hdistinct hend
    rw [hline]
    split_ifs at hstatement ⊢
    · exact readBody_of_none hstatement
    · exact readBody_of_statement hstatement
  rw [classField, fitsBody]
  cases field.description with
  | none =>
    rw [List.nil_append, hentry, Option.all_none, Bool.and_true]
    by_cases hdebug : field.name = "__debug__"
    · rw [if_pos hdebug, if_neg (by simp [hdebug])]
    · rw [if_neg hdebug, if_pos (by simp [hdebug])]
  | some text =>
    rw [lineChars_append, List.append_assoc, readBody_docstring, hentry, Option.all_some]
    by_cases hzero : '\x00' ∈ text.toList
    · rw [if_pos hzero, if_neg (by simp [hzero])]
    · rw [if_neg hzero]
      by_cases hdebug : field.name = "__debug__"
      · rw [if_pos hdebug, if_neg (by simp [hdebug])]
      · rw [if_neg hdebug, if_pos (by simp [hdebug, hzero])]

/-- A body ends in front of a line that is not indented. -/
theorem readBody_of_not_indented (hrest : indented? rest = none) :
    readBody className before rest = some (before, rest) := by
  rw [readBody, hrest]

/-- The lines of all fields are read one after the other. -/
theorem readBody_classFields {fields : List Field}
    (hnames : fields.all fun field ↦ isIdentifier field.name)
    (hdistinct : ∀ field ∈ fields, field.type.Distinct) (hrest : indented? rest = none) :
    readBody className before (lineChars (fields.flatMap classField) ++ rest) =
      if fields.all fitsBody then
        some (before.extend (fields.map fun field ↦
          (mangle className field.name, field.type)), rest)
      else none := by
  induction fields generalizing before with
  | nil => exact readBody_of_not_indented hrest
  | cons field fields ih =>
    rw [List.all_cons, Bool.and_eq_true] at hnames
    rw [List.forall_mem_cons] at hdistinct
    rw [List.flatMap_cons, lineChars_append, List.append_assoc,
      readBody_classField hnames.1 hdistinct.1, List.all_cons, List.map_cons]
    by_cases hfits : fitsBody field = true
    · rw [if_pos hfits, ih hnames.2 hdistinct.2, hfits, Bool.true_and]
      rfl
    · rw [if_neg hfits, if_neg (by simp [hfits])]

end Body

/-! ### Entries of a call -/

section Call

variable {before entries : Entries TypeExpr} {text rest next after more : List Char} {key : String}
  {type : TypeExpr}

theorem reads_readEntries_nil (htext : skipBlanks text = '\x7d' :: rest) :
    Reads before rest (readEntries before text) := by
  rw [readEntries, Json.next?_eq htext]
  exact ⟨_, rfl⟩

theorem reads_readEntries_more (htext : skipBlanks text = quoteChars key.toList ++ ':' :: next)
    (htype : Reads type after (readHint (skipBlanks next)))
    (hafter : skipBlanks after = ',' :: more)
    (hentries : Reads entries rest (readEntries (before.insert key type) more)) :
    Reads entries rest (readEntries before text) := by
  rw [readEntries, Json.next?_eq (htext.trans (by rfl))]
  refine (reads_readKey htext).bind fun _ ↦ htype.bind fun _ ↦ ?_
  simp only
  rw [Json.next?_eq hafter]
  exact hentries.bind fun _ ↦ ⟨_, rfl⟩

/-- A type hint does not start with a blank. -/
theorem skipBlanks_typeHint (type : TypeExpr) (rest : List Char) :
    skipBlanks ((typeHint type).toList ++ rest) = (typeHint type).toList ++ rest := by
  obtain ⟨c, more, hhint, hc⟩ : ∃ c more, (typeHint type).toList = c :: more ∧
      isBlank c = false := by
    cases type <;> simp [typeHint, isBlank]
  rw [hhint, List.cons_append, Json.skipBlanks_cons hc]

/-- The lines of all fields are read as entries under the field names. -/
theorem reads_functionalFields {fields : List Field} {lead : List Char}
    (hdistinct : ∀ field ∈ fields, field.type.Distinct) (hlead : lead.all isBlank = true) :
    Reads (before.extend (fields.map fun field ↦ (field.name, field.type))) rest
      (readEntries before
        (lead ++ (lineChars (fields.map functionalField) ++ '\x7d' :: rest))) := by
  induction fields generalizing before lead with
  | nil => exact reads_readEntries_nil (skipBlanks_closing hlead (by decide) rest)
  | cons field fields ih =>
    rw [List.forall_mem_cons] at hdistinct
    have hmore := @ih (before.insert field.name field.type) ['\n'] hdistinct.2 rfl
    have hline : lineChars ((field :: fields).map functionalField) ++ '\x7d' :: rest =
        "    ".toList ++ (quoteChars field.name.toList ++ ':' :: (' ' ::
          ((typeHint field.type).toList ++ ',' :: (['\n'] ++
            (lineChars (fields.map functionalField) ++ '\x7d' :: rest))))) := by
      simp [lineChars, functionalField, quote]
    have hkey (after : List Char) : skipBlanks (lead ++ ("    ".toList ++
        (quoteChars field.name.toList ++ ':' :: after))) =
          quoteChars field.name.toList ++ ':' :: after := by
      rw [skipBlanks_append hlead, skipBlanks_append (by decide)]
      exact Json.skipBlanks_cons (by decide) _
    have htype (after : List Char) : Reads field.type (',' :: after)
        (readHint (skipBlanks (' ' :: ((typeHint field.type).toList ++ ',' :: after)))) := by
      have hblank := skipBlanks_append (by decide : [' '].all isBlank = true)
        ((typeHint field.type).toList ++ ',' :: after)
      rw [List.singleton_append, skipBlanks_typeHint] at hblank
      rw [hblank]
      exact reads_typeHint hdistinct.1 (.cons (by decide) after)
    rw [hline]
    exact reads_readEntries_more (hkey _) (htype _) (Json.skipBlanks_cons (by decide) _) hmore

end Call

/-! ### Declarations -/

/-- What the declaration for an event declares: a name in the body of a class is mangled. -/
def declared (event : PlannedEvent) : TypedDict where
  name := event.typeName
  isTotal := !event.hasOptional
  entries := .ofList (event.fields.map fun field ↦
    (if hasClassSyntax event then mangle event.typeName field.name else field.name, field.type))

/-- Whether Python can read the declaration for an event. -/
def isReadable (event : PlannedEvent) : Bool :=
  Text.isIdentifier event.typeName.toList &&
    (!hasClassSyntax event || event.fields.all fitsBody)

section Declaration

variable {event : PlannedEvent} {rest : List Char}

theorem readTotality_totality {c : Char} (hc : c ≠ ',') (event : PlannedEvent)
    (rest : List Char) : readTotality ((totality event).toList ++ c :: rest) =
      (!event.hasOptional, c :: rest) := by
  rw [totality]
  cases event.hasOptional with
  | true =>
    rw [if_pos rfl, readTotality, after?_append]
    rfl
  | false =>
    have hnone : after? ", total=False".toList (c :: rest) = none := by
      simp [after?, List.isPrefixOf, hc.symm]
    have hempty : "".toList ++ c :: rest = c :: rest := by simp
    rw [if_neg Bool.false_ne_true, hempty, readTotality, hnone]
    rfl

theorem continues_of_mem_typeName (htype : event.typeName = TypeName.ofEvent event.name) :
    ∀ c ∈ event.typeName.toList, continues c = true := by
  rw [htype]
  exact fun c hc ↦ continues_of_isWord (TypeName.isWord_of_mem_ofEvent hc)

theorem reads_typeName (htype : event.typeName = TypeName.ofEvent event.name)
    (hrest : Ends rest) :
    Reads event.typeName.toList rest (readWord (event.typeName.toList ++ rest)) := by
  obtain ⟨first, more, hchars, -⟩ := exists_cons_ofEvent event.name
  refine reads_readWord ?_ (continues_of_mem_typeName htype) hrest
  rw [htype, hchars]
  exact List.cons_ne_nil first more

/-- The name of a type needs no escapes in a string. -/
theorem readString_typeName (htype : event.typeName = TypeName.ofEvent event.name)
    (hrest : rest.head? ≠ some '"') :
    readString (['"'] ++ (event.typeName.toList ++ (['"'] ++ rest))) =
      some (event.typeName.toList, rest) := by
  have hplain : ∀ c ∈ event.typeName.toList, c ≠ '"' ∧ c ≠ '\\' ∧ isRefused ['"'] c = false := by
    intro c hc
    rw [htype] at hc
    have hword := TypeName.isWord_of_mem_ofEvent hc
    rw [isRefused_eq_false_iff]
    and_intros
    all_goals
      rintro rfl
      exact absurd hword (by decide)
  have hpasses : Passes ['"'] (event.typeName.toList.flatMap fun c ↦ [c]) :=
    .flatMap fun c hc ↦ passes_singleton (hplain c hc).1 (hplain c hc).2.1 (hplain c hc).2.2
  have hdecode : decode (event.typeName.toList.flatMap fun c ↦ [c]) =
      some event.typeName.toList :=
    decode_flatMap fun c hc _ ↦ decode_cons (hplain c hc).2.1
  rw [List.flatMap_singleton'] at hpasses hdecode
  exact readString_append (find?_quotes hpasses.head?_ne hrest) (hpasses.scan_append rest) hdecode

theorem name?_typeName (htype : event.typeName = TypeName.ofEvent event.name) :
    name? event.typeName.toList =
      if Text.isIdentifier event.typeName.toList then some event.typeName else none := by
  rw [htype]
  exact name?_ofEvent event.name

theorem readCall_functionalType (htype : event.typeName = TypeName.ofEvent event.name)
    (hdistinct : ∀ field ∈ event.fields, field.type.Distinct) :
    readCall (lineChars (functionalType event) ++ rest) =
      if Text.isIdentifier event.typeName.toList then
        some (⟨event.typeName, !event.hasOptional,
          .ofList (event.fields.map fun field ↦ (field.name, field.type))⟩, rest)
      else none := by
  have htext : lineChars (functionalType event) ++ rest =
      event.typeName.toList ++ (" = TypedDict(".toList ++ (['"'] ++ (event.typeName.toList ++
        (['"'] ++ (", \x7b".toList ++ (['\n'] ++ (lineChars (event.fields.map functionalField) ++
          '\x7d' :: ((totality event).toList ++ ')' :: ('\n' :: rest))))))))) := by
    simp [functionalType, lineChars]
  have hentries : Reads (.ofList (event.fields.map fun field ↦ (field.name, field.type)))
      ((totality event).toList ++ ')' :: ('\n' :: rest))
      (readEntries [] (['\n'] ++ (lineChars (event.fields.map functionalField) ++
        '\x7d' :: ((totality event).toList ++ ')' :: ('\n' :: rest))))) :=
    reads_functionalFields hdistinct rfl
  obtain ⟨_, hentries⟩ := hentries
  have hend : after? [')', '\n'] (')' :: ('\n' :: rest)) = some rest :=
    after?_append [')', '\n'] rest
  have hequals (after : List Char) : Ends (" = TypedDict(".toList ++ after) :=
    .cons (by decide) _
  obtain ⟨_, hword⟩ := reads_typeName htype (hequals _)
  rw [htext, readCall, hword]
  simp only [Option.bind_eq_bind, Option.bind_some, name?_typeName htype, after?_append]
  split_ifs with hidentifier
  · rw [Option.bind_some, readString_typeName htype (by simp)]
    simp only [Option.bind_some, after?_append, hentries,
      readTotality_totality (by decide : ')' ≠ ','), hend, if_pos]
  · rfl

/-- The lines of the body of a class. -/
def bodyLines (event : PlannedEvent) : List String :=
  if event.fields.isEmpty then ["    pass"] else event.fields.flatMap classField

theorem isSome_indented?_bodyLines (event : PlannedEvent) (rest : List Char) :
    (indented? (lineChars (bodyLines event) ++ rest)).isSome = true := by
  have hfirst : ∃ first lines line, bodyLines event = first :: lines ∧
      first.toList = "    ".toList ++ line := by
    rw [bodyLines]
    cases event.fields with
    | nil => exact ⟨"    pass", [], "pass".toList, rfl, rfl⟩
    | cons field fields =>
      rw [List.isEmpty_cons, if_neg Bool.false_ne_true, List.flatMap_cons, classField]
      cases field.description with
      | none => exact ⟨_, _, (field.name ++ ": " ++ typeHint field.type).toList, rfl, by simp⟩
      | some text => exact ⟨_, _, ("\"\"\"" ++ docstring text ++ "\"\"\"").toList, rfl, by simp⟩
  obtain ⟨first, lines, line, hlines, hfirst⟩ := hfirst
  rw [hlines, lineChars_cons, hfirst, List.append_assoc, List.append_assoc, indented?_append,
    Option.isSome_some]

theorem readBody_bodyLines (className : String) (hclass : hasClassSyntax event = true)
    (hdistinct : ∀ field ∈ event.fields, field.type.Distinct) (hrest : indented? rest = none) :
    readBody className [] (lineChars (bodyLines event) ++ rest) =
      if event.fields.all fitsBody then
        some (.ofList (event.fields.map fun field ↦
          (mangle className field.name, field.type)), rest)
      else none := by
  rw [bodyLines]
  by_cases hempty : event.fields = []
  · have hpass : readStatement className [] ("pass".toList ++ '\n' :: rest) =
        some ([], '\n' :: rest) := by
      have hend : Ends ('\n' :: rest) := .cons (by decide) rest
      have hall := List.all_eq_true.mp (by decide : "pass".toList.all continues = true)
      obtain ⟨_, hword⟩ := reads_readWord (by simp) hall hend
      rw [readStatement, if_neg (by simp), hword]
      simp
    have hbody := readBody_of_statement hpass
    rw [readBody_of_not_indented hrest] at hbody
    rw [hempty]
    exact hbody
  · rw [if_neg (by rwa [List.isEmpty_iff]), readBody_classFields hclass hdistinct hrest]
    rfl

theorem readClass_classType (htype : event.typeName = TypeName.ofEvent event.name)
    (hclass : hasClassSyntax event = true)
    (hdistinct : ∀ field ∈ event.fields, field.type.Distinct) (hrest : indented? rest = none) :
    readClass (lineChars (classType event) ++ rest) =
      if Text.isIdentifier event.typeName.toList && event.fields.all fitsBody then
        some (⟨event.typeName, !event.hasOptional, .ofList (event.fields.map fun field ↦
          (mangle event.typeName field.name, field.type))⟩, rest)
      else none := by
  have htext : lineChars (classType event) ++ rest =
      "class ".toList ++ (event.typeName.toList ++ ("(TypedDict".toList ++
        ((totality event).toList ++ ')' :: (':' :: '\n' ::
          (lineChars (bodyLines event) ++ rest))))) := by
    simp [classType, lineChars, bodyLines]
  have hend : after? [')', ':', '\n'] (')' :: (':' :: '\n' ::
      (lineChars (bodyLines event) ++ rest))) = some (lineChars (bodyLines event) ++ rest) :=
    after?_append [')', ':', '\n'] _
  have hparent (after : List Char) : Ends ("(TypedDict".toList ++ after) := .cons (by decide) _
  obtain ⟨_, hword⟩ := reads_typeName htype (hparent _)
  rw [htext, readClass, after?_append]
  simp only [Option.bind_eq_bind, Option.bind_some]
  rw [hword]
  simp only [Option.bind_some, name?_typeName htype]
  by_cases hidentifier : Text.isIdentifier event.typeName.toList = true
  · rw [if_pos hidentifier, hidentifier, Bool.true_and]
    simp only [Option.bind_some, after?_append, readTotality_totality (by decide : ')' ≠ ','), hend,
      readBody_bodyLines event.typeName hclass hdistinct hrest, isSome_indented?_bodyLines, if_pos]
    split_ifs <;> rfl
  · rw [if_neg hidentifier, if_neg (by simp [hidentifier])]
    rfl

/-- The name of a type is not `class`, so a declaration by a call is not taken for the other. -/
theorem isPrefixOf_functionalType (htype : event.typeName = TypeName.ofEvent event.name) :
    "class ".toList.isPrefixOf (lineChars (functionalType event) ++ rest) = false := by
  obtain ⟨more, hmore⟩ : ∃ more, lineChars (functionalType event) ++ rest =
      event.typeName.toList ++ ' ' :: more := by
    simp [functionalType, lineChars]
  rw [Bool.eq_false_iff, Ne, List.isPrefixOf_iff_prefix]
  rintro ⟨tail, htail⟩
  have hword : "class".toList ++ ' ' :: tail = event.typeName.toList ++ ' ' :: more :=
    htail.trans hmore
  have hblank (after : List Char) : Ends (' ' :: after) := .cons (by decide) after
  have hall := List.all_eq_true.mp (by decide : "class".toList.all continues = true)
  have hclass := (takeWhile_append_eq hall (hblank tail)).1
  rw [hword, (takeWhile_append_eq (continues_of_mem_typeName htype) (hblank more)).1,
    htype] at hclass
  have hsuffix := TypeName.suffix_ofEvent event.name
  rw [hclass] at hsuffix
  exact absurd hsuffix (by decide)

theorem readTypedDict_eventType (htype : event.typeName = TypeName.ofEvent event.name)
    (hdistinct : ∀ field ∈ event.fields, field.type.Distinct) (hrest : indented? rest = none) :
    readTypedDict (lineChars (eventType event) ++ rest) =
      if isReadable event then some (declared event, rest) else none := by
  rw [readTypedDict, eventType, isReadable, declared]
  by_cases hclass : hasClassSyntax event = true
  · have hstart : "class ".toList.isPrefixOf (lineChars (classType event) ++ rest) = true := by
      simp [classType, lineChars]
    rw [if_pos hclass, if_pos hstart, readClass_classType htype hclass hdistinct hrest]
    simp only [hclass, Bool.not_true, Bool.false_or, if_pos]
  · have hstart :
        ¬"class ".toList.isPrefixOf (lineChars (functionalType event) ++ rest) = true := by
      rw [isPrefixOf_functionalType htype]
      exact Bool.false_ne_true
    rw [Bool.not_eq_true] at hclass
    rw [hclass, if_neg Bool.false_ne_true, if_neg hstart, readCall_functionalType htype hdistinct]
    simp only [Bool.not_false, Bool.true_or, Bool.and_true, if_neg Bool.false_ne_true]

end Declaration

end Python

end EventSchema
