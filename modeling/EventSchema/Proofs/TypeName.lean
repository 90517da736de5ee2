import EventSchema.Proofs.Text
import EventSchema.TypeName

/-!
# Characters and endings of type names

Of the ASCII characters a type name has letters and digits only (`isWord_of_mem_ofEvent`), since
neither case of a letter or digit is another sign; of the others it may have many, as combining
marks. And it ends in `Properties`, so it is none of the names that do not
(`ofEvent_ne_of_not_suffix`).
-/

set_option autoImplicit false

namespace EventSchema

namespace Text

/-! ### Letters, digits, and what is not in ASCII -/

def isWordCode (code : Nat) : Bool :=
  (48 ≤ code && code ≤ 57) || (65 ≤ code && code ≤ 90) || (97 ≤ code && code ≤ 122) || 128 ≤ code

/-- A letter, a digit, or a character beyond ASCII. -/
def isWord (c : Char) : Bool := isWordCode c.toNat

/-- Whether the code points of the range are characters, and all of them words'. The ends tell. -/
def isWordRange (first last : Nat) : Bool :=
  (48 ≤ first && last ≤ 57) || (65 ≤ first && last ≤ 90) || (97 ≤ first && last ≤ 122) ||
    (128 ≤ first && last < 0xD800) || (0xDFFF < first && last < 0x110000)

theorem isWord_ofNat {first last code : Nat} (hrange : isWordRange first last)
    (hfirst : first ≤ code) (hlast : code ≤ last) : isWord (Char.ofNat code) := by
  simp only [isWordRange, Bool.or_eq_true, Bool.and_eq_true, decide_eq_true_eq] at hrange
  have hvalid : code.isValidChar := by
    rw [Nat.isValidChar]
    omega
  have hcode : (Char.ofNat code).toNat = code := by
    rw [Char.ofNat, dif_pos hvalid]
    rfl
  rw [isWord, hcode]
  simp only [isWordCode, Bool.or_eq_true, Bool.and_eq_true, decide_eq_true_eq]
  omega

theorem isWord_of_isAlphanumeric {c : Char} (hc : isAlphanumeric c) : isWord c := by
  have hranges : ∀ range ∈ alphanumericRanges, isWordRange range.1 range.2 := by decide +kernel
  obtain ⟨range, hrange, hin⟩ := List.any_eq_true.mp hc
  simp only [Bool.and_eq_true, decide_eq_true_eq] at hin
  rw [← Char.ofNat_toNat c]
  exact isWord_ofNat (hranges range hrange) hin.1 hin.2

/-! ### Case -/

/-- Where the tables lead only to words, a change of case keeps words. -/
theorem isWord_of_mem_mapCase {runs : List (Nat × Nat × Nat × Int)}
    {sequences : List (Nat × List Nat)}
    (hruns : runs.all fun (first, last, _, distance) ↦
      isWordRange (first + distance).toNat (last + distance).toNat)
    (hsequences : sequences.all fun (_, codes) ↦ codes.all fun code ↦ isWordRange code code)
    {c d : Char} (hc : isWord c) (hd : d ∈ mapCase runs sequences c) : isWord d := by
  rw [mapCase] at hd
  split at hd
  case h_1 codes hlookup =>
    obtain ⟨before, after, hsplit, -⟩ := List.lookup_eq_some_iff.mp hlookup
    have hmem : (c.toNat, codes) ∈ sequences := by simp [hsplit]
    obtain ⟨code, hcode, rfl⟩ := List.mem_map.mp hd
    have hrange := List.all_eq_true.mp (List.all_eq_true.mp hsequences _ hmem) code hcode
    exact isWord_ofNat hrange (Nat.le_refl _) (Nat.le_refl _)
  case h_2 =>
    rw [List.mem_singleton.mp hd, shift]
    split
    case h_1 first last step distance hfind =>
      have hin := List.find?_some hfind
      have hrange := List.all_eq_true.mp hruns _ (List.mem_of_find?_eq_some hfind)
      simp only [Bool.and_eq_true, decide_eq_true_eq] at hin hrange
      exact isWord_ofNat hrange (by omega) (by omega)
    case h_2 => rwa [Char.ofNat_toNat]

theorem isWord_of_mem_toUpper {c d : Char} (hc : isWord c) (hd : d ∈ toUpper c) : isWord d :=
  isWord_of_mem_mapCase (by decide) (by decide) hc hd

theorem isWord_of_mem_toLower {c d : Char} (hc : isWord c) (hd : d ∈ toLower c) : isWord d :=
  isWord_of_mem_mapCase (by decide) (by decide) hc hd

end Text

namespace TypeName

theorem isWord_of_mem_capitalize {word : List Char} {c : Char} (hc : c ∈ capitalize word) :
    Text.isWord c := by
  rw [capitalize] at hc
  split at hc
  case h_1 => exact absurd hc List.not_mem_nil
  case h_2 first rest hfilter =>
    have hkept (d : Char) (hd : d ∈ first :: rest) : Text.isWord d := by
      rw [← hfilter] at hd
      exact Text.isWord_of_isAlphanumeric (List.mem_filter.mp hd).2
    rcases List.mem_append.mp hc with hfirst | hrest
    · exact Text.isWord_of_mem_toUpper (hkept first List.mem_cons_self) hfirst
    · obtain ⟨d, hd, hmem⟩ := List.mem_flatMap.mp hrest
      exact Text.isWord_of_mem_toLower (hkept d (List.mem_cons_of_mem _ hd)) hmem

theorem isWord_of_mem_guardDigit {name : List Char} (hname : ∀ c ∈ name, Text.isWord c) {c : Char}
    (hc : c ∈ guardDigit name) : Text.isWord c := by
  have hevent : "Event".toList.all Text.isWord := by decide
  unfold guardDigit at hc
  split at hc
  · split at hc
    · exact (List.mem_append.mp hc).elim (List.all_eq_true.mp hevent c) (hname c)
    · exact hname c hc
  · exact absurd hc List.not_mem_nil

theorem toList_ofEvent (event : String) : (ofEvent event).toList = ofChars event.toList :=
  String.toList_ofList

/-- Of ASCII, a type name has letters and digits only. -/
theorem isWord_of_mem_ofEvent {event : String} {c : Char} (hc : c ∈ (ofEvent event).toList) :
    Text.isWord c := by
  have hending : "Properties".toList.all Text.isWord := by decide
  rw [toList_ofEvent, ofChars] at hc
  rcases List.mem_append.mp hc with hfront | hend
  · refine isWord_of_mem_guardDigit (fun d hd ↦ ?_) hfront
    obtain ⟨word, -, hmem⟩ := List.mem_flatMap.mp hd
    exact isWord_of_mem_capitalize hmem
  · exact List.all_eq_true.mp hending c hend

theorem suffix_ofEvent (event : String) : "Properties".toList <:+ (ofEvent event).toList := by
  rw [toList_ofEvent, ofChars]
  exact List.suffix_append _ _

theorem ofEvent_ne_of_not_suffix (event : String) {name : String}
    (hname : ¬ "Properties".toList <:+ name.toList) : ofEvent event ≠ name :=
  fun hsame ↦ hname (hsame ▸ suffix_ofEvent event)

end TypeName

end EventSchema
