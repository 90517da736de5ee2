import EventSchema.Proofs.Text
import EventSchema.Proofs.TypeName

/-!
# Lines of an artifact

The lines of an artifact are read by their words. A name is a word wherever it stands
(`words_of_isName`), the words around it are those of the texts around it (`words_named`), and what
is written further on does not change how a line begins (`prefix_words_append`). So it does not
matter for the names in a line which values, descriptions or schemas follow them.
-/

set_option autoImplicit false

namespace EventSchema

/-- A text that a declaration can have as a name: of ASCII it has letters, digits and underscores
only. -/
structure IsName (name : String) : Prop where
  ne_empty : name ≠ ""
  isWord_or : ∀ c ∈ name.toList, Text.isWord c ∨ c = '_'

theorem IsName.of_all {name : String} (hne : name ≠ "") (hall : name.toList.all Text.isWord) :
    IsName name :=
  ⟨hne, fun c hc ↦ .inl (List.all_eq_true.mp hall c hc)⟩

theorem IsName.append {first second : String} (hfirst : IsName first) (hsecond : IsName second) :
    IsName (first ++ second) where
  ne_empty := by simp [hfirst.ne_empty]
  isWord_or := by
    rw [String.toList_append, List.forall_mem_append]
    exact ⟨hfirst.isWord_or, hsecond.isWord_or⟩

theorem IsName.ne_equals {name : String} (hname : IsName name) : name ≠ "=" := by
  rintro rfl
  exact absurd (hname.isWord_or '=' (by decide)) (by decide)

theorem TypeName.isName_ofEvent (event : String) : IsName (TypeName.ofEvent event) where
  ne_empty := TypeName.ofEvent_ne_of_not_suffix event (by decide)
  isWord_or := fun _ hc ↦ .inl (TypeName.isWord_of_mem_ofEvent hc)

namespace Line

/-! ### Words -/

def isGap (c : Char) : Bool := c = ' ' || c = ',' || c = '(' || c = ':'

/-- What stands between blanks, commas, opening parentheses and colons. A line that starts with a
blank starts with an empty word. -/
def words (line : String) : List String := (Text.split isGap line.toList).map String.ofList

theorem words_of_isName {name : String} (hname : IsName name) : words name = [name] := by
  have hgaps : ∀ c ∈ name.toList, isGap c = false := by
    refine fun c hc ↦ Bool.eq_false_iff.mpr fun hgap ↦ ?_
    simp only [isGap, Bool.or_eq_true, decide_eq_true_eq] at hgap
    rcases hgap with ((rfl | rfl) | rfl) | rfl <;> exact absurd (hname.isWord_or _ hc) (by decide)
  rw [words, Text.split_of_forall_not hgaps, List.map_singleton, String.ofList_toList]

/-- The words of a string literal, by its characters. -/
theorem words_ofList (text : List Char) :
    words (String.ofList text) = (Text.split isGap text).map String.ofList := by
  rw [words, String.toList_ofList]

theorem words_append {a b last first : String} {front tail : List String}
    (ha : words a = front ++ [last]) (hb : words b = first :: tail) :
    words (a ++ b) = front ++ (last ++ first) :: tail := by
  obtain ⟨fronts, lasts, hsplit, rfl, hlast⟩ := List.map_eq_append_iff.mp ha
  obtain ⟨last', rfl, rfl⟩ := List.map_eq_singleton_iff.mp hlast
  obtain ⟨first', tail', hsplit', rfl, rfl⟩ := List.map_eq_cons_iff.mp hb
  rw [words, String.toList_append, Text.split_append_of hsplit hsplit']
  simp

/-- The first word is what the line begins with. -/
theorem prefix_of_words {line first : String} {tail : List String}
    (hwords : words line = first :: tail) : first.toList <+: line.toList := by
  obtain ⟨part, parts, hsplit, rfl, -⟩ := List.map_eq_cons_iff.mp hwords
  rw [String.toList_ofList]
  exact Text.prefix_of_split hsplit

/-- What is written after a text changes its last word only. -/
theorem prefix_words_append {a last : String} {front : List String}
    (ha : words a = front ++ [last]) (b : String) : front <+: words (a ++ b) := by
  obtain ⟨first, tail, hb⟩ : ∃ first tail, words b = first :: tail :=
    List.exists_cons_of_ne_nil fun hnil ↦
      Text.split_ne_nil isGap b.toList (List.map_eq_nil_iff.mp hnil)
  exact ⟨_, (words_append ha hb).symm⟩

/-- The words before a name, the name, and the words after it. -/
theorem words_named {name before after last : String} {front tail : List String}
    (hname : IsName name) (hbefore : words before = front ++ [""])
    (hafter : words after = "" :: tail ++ [last]) :
    words (before ++ name ++ after) = front ++ name :: tail ++ [last] := by
  have hstart : words (before ++ name) = front ++ [name] := by
    simpa using words_append hbefore (words_of_isName hname)
  simpa using words_append hstart hafter

/-! ### Indented lines -/

/-- Part of the block or of the literal that an earlier line opens. -/
def Indented (line : String) : Prop := line.toList.head? = some ' '

theorem indented_ofList (rest : List Char) : Indented (String.ofList (' ' :: rest)) := by
  rw [Indented, String.toList_ofList, List.head?_cons]

theorem Indented.append {start : String} (hstart : Indented start) (rest : String) :
    Indented (start ++ rest) := by
  rw [Indented] at hstart ⊢
  rw [String.toList_append, List.head?_append, hstart, Option.some_or]

theorem Indented.head?_words {line : String} (hline : Indented line) :
    (words line).head? = some "" := by
  obtain ⟨rest, hrest⟩ := List.head?_eq_some_iff.mp hline
  rw [words, hrest, Text.split, if_pos (by decide)]
  rfl

end Line

end EventSchema
