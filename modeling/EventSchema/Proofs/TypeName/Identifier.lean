import EventSchema.Proofs.Text.Identifier
import EventSchema.Proofs.TypeName

/-!
# Type names and identifiers

A type name is made of the alphanumeric characters of the event name, each in one case or the
other, and a word before a leading digit. Not every alphanumeric character may stand in an
identifier, and of those that may, not every one may start it, so it is an identifier exactly if all
of them may continue one and the first may start one, or is a digit of ASCII, or is the one mark
whose upper case is a letter (`isIdentifier_ofEvent_iff`).
-/

set_option autoImplicit false

namespace EventSchema

namespace Text

/-! ### What case and separators keep apart -/

theorem isAlphanumeric_eq (c : Char) : isAlphanumeric c = inRanges alphanumericRanges c.toNat := by
  rw [isAlphanumeric, inRanges, covers]
  refine List.any_congr rfl fun range ↦ ?_
  rw [Bool.eq_iff_iff]
  simp only [Bool.and_eq_true, decide_eq_true_eq, Nat.ble_eq]
  exact and_comm

theorem isAsciiDigit_eq (c : Char) : isAsciiDigit c = inRanges [(48, 57)] c.toNat := by
  have hlow : '0' ≤ c ↔ 48 ≤ c.toNat := Iff.rfl
  have hhigh : c ≤ '9' ↔ c.toNat ≤ 57 := Iff.rfl
  rw [isAsciiDigit, Bool.eq_iff_iff]
  simp only [hlow, hhigh, inRanges, covers, List.any_cons, List.any_nil, Bool.or_false,
    Bool.and_eq_true, decide_eq_true_eq, Nat.ble_eq]
  exact and_comm

/-- No character has a digit for its upper case, but the digits. -/
theorem any_isAsciiDigit_head?_toUpper (c : Char) :
    (toUpper c).head?.any isAsciiDigit = isAsciiDigit c := by
  have hruns : upperRuns.all (isSteady [(48, 57)]) := by decide +kernel
  rw [isAsciiDigit_eq, funext isAsciiDigit_eq]
  exact any_inRanges_head?_mapCase (by decide)
    (fun run hrun _ _ ↦ List.all_eq_true.mp hruns run hrun) (by decide +kernel)

theorem toUpper_ne_nil (c : Char) : toUpper c ≠ [] := by
  have hsequences : upperSequences.all fun sequence ↦ !sequence.2.isEmpty := by decide
  obtain ⟨codes, hmap, hcodes⟩ : ∃ codes,
    mapCase upperRuns upperSequences c = codes.map Char.ofNat ∧
      ((c.toNat, codes) ∈ upperSequences ∨ codes = [shift upperRuns c.toNat]) :=
    exists_mapCase_eq c
  rw [toUpper, hmap, ne_eq, List.map_eq_nil_iff]
  rcases hcodes with hmem | rfl
  · simpa using List.all_eq_true.mp hsequences _ hmem
  · exact List.cons_ne_nil _ _

theorem isAlphanumeric_of_isBlank {c : Char} (hc : isBlank c) : isAlphanumeric c = false := by
  have hcontrols : avoids alphanumericRanges 9 13 := by decide +kernel
  have hspaces : avoids alphanumericRanges 0x2000 0x200A := by decide +kernel
  have hothers : [0x20, 0x85, 0xA0, 0x1680, 0x2028, 0x2029, 0x202F, 0x205F, 0x3000].all
      fun code ↦ !inRanges alphanumericRanges code := by decide +kernel
  rw [isAlphanumeric_eq]
  simp only [isBlank, Bool.or_eq_true, Bool.and_eq_true, decide_eq_true_eq] at hc
  rcases hc with (⟨hfirst, hlast⟩ | ⟨hfirst, hlast⟩) | hmem
  · exact inRanges_of_avoids hcontrols hfirst hlast
  · exact inRanges_of_avoids hspaces hfirst hlast
  · simpa using List.all_eq_true.mp hothers _ (List.contains_iff_mem.mp hmem)

end Text

namespace TypeName

open Text (isAlphanumeric isIdStart isIdContinue isIdentifier isAsciiDigit iotaBelow)

theorem isAlphanumeric_of_isSeparator {c : Char} (hc : isSeparator c) :
    isAlphanumeric c = false := by
  simp only [isSeparator, Bool.or_eq_true, decide_eq_true_eq] at hc
  rcases hc with ((rfl | rfl) | rfl) | hblank
  · decide +kernel
  · decide +kernel
  · decide +kernel
  · exact Text.isAlphanumeric_of_isBlank hblank

/-- The words hold every alphanumeric character of the event name, in order. -/
theorem flatMap_filter_split (text : List Char) :
    (Text.split isSeparator text).flatMap (List.filter isAlphanumeric) =
      text.filter isAlphanumeric := by
  induction text with
  | nil => rfl
  | cons c rest ih =>
    rw [Text.split]
    split
    case isTrue hc =>
      have hout := isAlphanumeric_of_isSeparator hc
      rw [List.flatMap_cons, List.filter_nil, List.nil_append, ih,
        List.filter_cons_of_neg (by simp [hout])]
    case isFalse =>
      cases hparts : Text.split isSeparator rest with
      | nil => exact absurd hparts (Text.split_ne_nil _ _)
      | cons part parts =>
        rw [hparts, List.flatMap_cons] at ih
        simp only
        rw [List.flatMap_cons, List.filter_cons, List.filter_cons, ← ih]
        split <;> rfl

theorem all_isIdContinue_capitalize (word : List Char) :
    (capitalize word).all isIdContinue = (word.filter isAlphanumeric).all isIdContinue := by
  rw [capitalize]
  split
  case h_1 hfilter => rw [hfilter]
  case h_2 first rest hfilter =>
    rw [hfilter, List.all_append, List.all_cons, Text.all_isIdContinue_toUpper, List.all_flatMap]
    exact congrArg _ (List.all_congr rfl Text.all_isIdContinue_toLower)

/-- The words may stand in an identifier exactly if what is kept of the event name may. -/
theorem all_isIdContinue_flatMap_capitalize (text : List Char) :
    ((Text.split isSeparator text).flatMap capitalize).all isIdContinue =
      (text.filter isAlphanumeric).all isIdContinue := by
  rw [← flatMap_filter_split, List.all_flatMap, List.all_flatMap]
  exact List.all_congr rfl all_isIdContinue_capitalize

theorem head?_flatMap_capitalize (words : List (List Char)) :
    (words.flatMap capitalize).head? =
      (words.flatMap (List.filter isAlphanumeric)).head?.bind fun c ↦ (Text.toUpper c).head? := by
  induction words with
  | nil => rfl
  | cons word rest ih =>
    rw [List.flatMap_cons, List.flatMap_cons, capitalize]
    cases hfilter : word.filter isAlphanumeric with
    | nil => exact ih
    | cons first kept =>
      obtain ⟨upper, more, hupper⟩ := List.exists_cons_of_ne_nil (Text.toUpper_ne_nil first)
      simp only [hupper, List.cons_append, List.head?_cons, Option.bind_some]

/-- A word starts with the upper case of the first character that is kept of the event name. -/
theorem head?_flatMap_capitalize_split (text : List Char) :
    ((Text.split isSeparator text).flatMap capitalize).head? =
      (text.filter isAlphanumeric).head?.bind fun c ↦ (Text.toUpper c).head? := by
  rw [head?_flatMap_capitalize, flatMap_filter_split]

/-- An identifier that may be extended is one of characters that may continue it. -/
theorem isIdentifier_cons_append {first : Char} {rest ending : List Char} (hfirst : first ≠ '_')
    (hending : ending.all isIdContinue) : isIdentifier (first :: rest ++ ending) =
      (isIdStart first && (first :: rest).all isIdContinue) := by
  rw [List.cons_append, isIdentifier, beq_false_of_ne hfirst, Bool.or_false, List.all_append,
    hending, Bool.and_true, List.all_cons, Bool.eq_iff_iff]
  simp only [Bool.and_eq_true]
  constructor
  · rintro ⟨hstart, hrest⟩
    exact ⟨hstart, Text.isIdContinue_of_isIdStart hstart, hrest⟩
  · rintro ⟨hstart, -, hrest⟩
    exact ⟨hstart, hrest⟩

/-- The first character of a word, by the character that it is the upper case of. -/
theorem exists_of_flatMap_capitalize_eq_cons {text : List Char} {first : Char} {rest : List Char}
    (hname : (Text.split isSeparator text).flatMap capitalize = first :: rest) :
    ∃ c, (text.filter isAlphanumeric).head? = some c ∧ first ≠ '_' ∧
      isAsciiDigit first = isAsciiDigit c ∧ isIdStart first = (isIdStart c || c == iotaBelow) := by
  have hhead := head?_flatMap_capitalize_split text
  rw [hname, List.head?_cons] at hhead
  obtain ⟨c, hc, hupper⟩ := Option.bind_eq_some_iff.mp hhead.symm
  have hkept : isAlphanumeric c := (List.mem_filter.mp (List.mem_of_head? hc)).2
  have hdigit := Text.any_isAsciiDigit_head?_toUpper c
  have hstart := Text.any_isIdStart_head?_toUpper c
  rw [hupper] at hdigit hstart
  refine ⟨c, hc, ?_, hdigit, hstart⟩
  rintro rfl
  have hword : Text.isWord '_' = true :=
    Text.isWord_of_mem_toUpper (Text.isWord_of_isAlphanumeric hkept) (List.mem_of_head? hupper)
  exact absurd hword (by decide)

/-- A type name ends in `Properties`. It is an identifier exactly if each of the alphanumeric
characters of the event name may continue one, and the first of them may start one, is a digit of
ASCII, which is guarded, or is the mark whose upper case is a letter. -/
theorem isIdentifier_ofEvent_iff (event : String) :
    "Properties".toList <:+ (ofEvent event).toList ∧
      (isIdentifier (ofEvent event).toList = true ↔
        (∀ c ∈ event.toList.filter isAlphanumeric, isIdContinue c = true) ∧
          ∀ c ∈ (event.toList.filter isAlphanumeric).head?,
            isIdStart c = true ∨ isAsciiDigit c = true ∨ c = iotaBelow) := by
  refine ⟨suffix_ofEvent event, ?_⟩
  have hending : "Properties".toList.all isIdContinue := by decide +kernel
  rw [toList_ofEvent, ofChars, ← List.all_eq_true, ← all_isIdContinue_flatMap_capitalize]
  cases hname : (Text.split isSeparator event.toList).flatMap capitalize with
  | nil =>
    have hhead := head?_flatMap_capitalize_split event.toList
    have hnone : (event.toList.filter isAlphanumeric).head? = none := by
      rw [hname, List.head?_nil, eq_comm, Option.bind_eq_none_iff] at hhead
      exact Option.eq_none_iff_forall_ne_some.mpr fun c hc ↦
        Text.toUpper_ne_nil c (List.head?_eq_none_iff.mp (hhead c hc))
    have hproperties : isIdentifier "Properties".toList = true := by decide +kernel
    rw [guardDigit, List.nil_append, hproperties, hnone]
    simp
  | cons first rest =>
    obtain ⟨c, hc, hunderscore, hdigit, hstart⟩ := exists_of_flatMap_capitalize_eq_cons hname
    rw [hc, guardDigit, hdigit]
    cases hguarded : isAsciiDigit c with
    | true =>
      have hstarts : isIdStart 'E' = true := by decide +kernel
      have hevent : "Event".toList.all isIdContinue = true := by decide +kernel
      have hname : "Event".toList ++ first :: rest = 'E' :: ("vent".toList ++ first :: rest) := rfl
      rw [if_pos rfl, hname, isIdentifier_cons_append (by decide) hending, ← hname,
        List.all_append, hstarts, hevent, Bool.true_and, Bool.true_and]
      simp [hguarded]
    | false =>
      rw [if_neg Bool.false_ne_true, isIdentifier_cons_append hunderscore hending, hstart]
      simp [hguarded, and_comm]

/-- A digit of another script is no digit of ASCII, so nothing stands before it, and a raised digit
is kept, though it may not stand in an identifier. -/
theorem not_isIdentifier_ofEvent_digits :
    isIdentifier (ofEvent "\u0663").toList = false ∧
      isIdentifier (ofEvent "m\u00B2").toList = false := by decide +kernel

end TypeName

end EventSchema
