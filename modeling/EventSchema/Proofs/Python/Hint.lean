import EventSchema.Proofs.Python.Reader
import EventSchema.Python.Artifact

/-!
# Type hints

A type hint is read as far as it names a type, or is a subscript of one of the forms that stand for
types: a literal type with values as its arguments, a list, a dictionary or an optional type. The
hint that is written for a type is read as the type, and reading it stops where it ends
(`reads_typeHint`), whatever the values of a literal type hold.
-/

set_option autoImplicit false

namespace EventSchema

/-- The objects among the values of a type have distinct keys. -/
def TypeExpr.Distinct : TypeExpr → Prop
  | .literal values => ∀ value ∈ values, value.Distinct
  | .list item => item.Distinct
  | .optional type => type.Distinct
  | _ => True

namespace Python

open Json (Rest)

/-! ### Reading -/

/-- Reads a word, the longest that is there. -/
def readWord (text : List Char) : Option (List Char × Rest text) :=
  advance (text.takeWhile continues, text.dropWhile continues)

/-- The type that has a name of its own. -/
def named? (word : List Char) : Option TypeExpr :=
  if word = "Any".toList then some .any
  else if word = "str".toList then some .string
  else if word = "float".toList then some .float
  else if word = "int".toList then some .integer
  else if word = "bool".toList then some .boolean
  else none

/-- What the subscript of a name makes of another type. -/
def wrapper? (word : List Char) : Option (TypeExpr → TypeExpr) :=
  if word = "List".toList then some .list
  else if word = "Optional".toList then some .optional
  else none

/-- The arguments of the dictionary type. -/
def mapArguments : List Char := "str, Any]".toList

/-- Reads a type hint, and gives what follows it. -/
def readHint (text : List Char) : Option (TypeExpr × Rest text) := do
  match ← readWord text with
  | (word, ⟨'[' :: inner, h⟩) =>
    have hinner : inner.length < text.length := Nat.lt_of_succ_lt h
    if word = "Literal".toList then do
      let (values, ⟨rest, _⟩) ← readItems inner
      return (.literal values, ⟨rest, by omega⟩)
    else if word = "Dict".toList then
      if mapArguments.isPrefixOf inner then advance (.map, inner.drop mapArguments.length) else none
    else do
      let wrap ← wrapper? word
      match ← readHint inner with
      | (item, ⟨']' :: rest, h⟩) =>
        return (wrap item, ⟨rest, Nat.lt_trans (Nat.lt_of_succ_lt h) hinner⟩)
      | _ => none
  | (word, after) => return (← named? word, after)
termination_by text.length

/-! ### Words -/

/-- No word goes on with the text, and no subscript. -/
def EndsHint (text : List Char) : Prop := Ends text ∧ text.head? ≠ some '['

section Words

variable {word rest : List Char}

theorem reads_readWord (hne : word ≠ []) (hword : ∀ c ∈ word, continues c = true)
    (hrest : Ends rest) : Reads word rest (readWord (word ++ rest)) := by
  obtain ⟨htake, hdrop⟩ := takeWhile_append_eq hword hrest
  have hlength : rest.length < (word ++ rest).length := by
    rw [List.length_append]
    exact Nat.lt_add_of_pos_left (List.length_pos_iff.mpr hne)
  rw [readWord, htake, hdrop]
  exact reads_advance word hlength

theorem Ends.cons {c : Char} (hc : continues c = false) (rest : List Char) : Ends (c :: rest) := by
  intro d hd
  obtain rfl := Option.some.inj hd
  exact hc

theorem EndsHint.cons {c : Char} (hc : continues c = false ∧ c ≠ '[') (rest : List Char) :
    EndsHint (c :: rest) := by
  constructor
  · exact .cons hc.1 rest
  · intro hhead
    exact hc.2 (Option.some.inj hhead)

/-- A name that is not subscripted is read as the type of that name. -/
theorem reads_named {name : String} {type : TypeExpr} (htype : named? name.toList = some type)
    (hword : name.toList.all continues = true) (hrest : EndsHint rest) :
    Reads type rest (readHint (name.toList ++ rest)) := by
  have hne : name.toList ≠ [] := by
    intro hnil
    rw [hnil] at htype
    cases htype
  rw [readHint]
  refine (reads_readWord hne (List.all_eq_true.mp hword) hrest.1).bind fun hlength ↦ ?_
  cases rest with
  | nil => exact ⟨hlength, by simp [htype]⟩
  | cons c more =>
    have hc : c ≠ '[' := by
      rintro rfl
      exact hrest.2 rfl
    split
    · rename_i heq
      cases heq
      exact absurd rfl hc
    · rename_i heq
      cases heq
      exact ⟨hlength, by simp [htype]⟩

/-- The arguments of a literal type are items of a list. -/
theorem reads_literal {values : List Json} {inner : List Char}
    (hvalues : Reads values rest (readItems inner)) :
    Reads (.literal values) rest (readHint ("Literal".toList ++ '[' :: inner)) := by
  rw [readHint]
  have hword := List.all_eq_true.mp (by decide : "Literal".toList.all continues = true)
  refine (reads_readWord (by simp) hword (.cons (by decide) _)).bind fun _ ↦ ?_
  simp only [if_pos]
  exact hvalues.bind fun _ ↦ ⟨_, rfl⟩

theorem reads_map (rest : List Char) :
    Reads .map rest (readHint ("Dict".toList ++ '[' :: (mapArguments ++ rest))) := by
  rw [readHint]
  have hword := List.all_eq_true.mp (by decide : "Dict".toList.all continues = true)
  refine (reads_readWord (by simp) hword (.cons (by decide) _)).bind fun _ ↦ ?_
  have hprefix : mapArguments.isPrefixOf (mapArguments ++ rest) = true :=
    List.isPrefixOf_iff_prefix.mpr (List.prefix_append _ _)
  have hdict : "Dict".toList ≠ "Literal".toList := by simp
  simp only [if_neg hdict, hprefix, if_pos, List.drop_left]
  refine reads_advance _ ?_
  simp only [List.length_append, List.length_cons]
  omega

/-- A type in another is read where the other is. -/
theorem reads_wrapped {wrap : TypeExpr → TypeExpr} {item : TypeExpr} {inner : List Char}
    (hword : word.all continues = true) (hwrap : wrapper? word = some wrap)
    (hitem : Reads item (']' :: rest) (readHint inner)) :
    Reads (wrap item) rest (readHint (word ++ '[' :: inner)) := by
  have hne : word ≠ [] := by
    rintro rfl
    cases hwrap
  have hliteral : word ≠ "Literal".toList := by
    rintro rfl
    simp [wrapper?] at hwrap
  have hdict : word ≠ "Dict".toList := by
    rintro rfl
    simp [wrapper?] at hwrap
  rw [readHint]
  refine (reads_readWord hne (List.all_eq_true.mp hword) (.cons (by decide) _)).bind fun _ ↦ ?_
  simp only [if_neg hliteral, if_neg hdict, hwrap]
  exact hitem.bind fun _ ↦ ⟨_, rfl⟩

end Words

/-! ### All types -/

/-- Texts with commas and blanks between them, as the items of a list on one line. -/
theorem toList_intercalate_literal (value : Json) (values : List Json) :
    (", ".intercalate ((value :: values).map fun value ↦ literal value 0)).toList =
      literalChars 0 value ++
        values.flatMap fun other ↦ ',' :: ([' '] ++ literalChars 0 other) := by
  induction values generalizing value with
  | nil => simp [literal]
  | cons next values ih =>
    have hnext := ih next
    rw [List.map_cons] at hnext
    rw [List.map_cons, List.map_cons, String.intercalate_cons_cons, String.toList_append,
      String.toList_append, hnext]
    simp [literal]

theorem reads_typeHint {type : TypeExpr} (hdistinct : type.Distinct) {rest : List Char}
    (hrest : EndsHint rest) : Reads type rest (readHint ((typeHint type).toList ++ rest)) := by
  induction type generalizing rest with
  | any => exact reads_named rfl (by decide) hrest
  | string => exact reads_named rfl (by decide) hrest
  | float => exact reads_named rfl (by decide) hrest
  | integer => exact reads_named rfl (by decide) hrest
  | boolean => exact reads_named rfl (by decide) hrest
  | literal values =>
    have htext : (typeHint (.literal values)).toList ++ rest =
        "Literal".toList ++ '[' :: ((", ".intercalate (values.map fun value ↦
          literal value 0)).toList ++ ']' :: rest) := by
      simp [typeHint]
    rw [htext]
    apply reads_literal
    cases values with
    | nil => exact reads_readItems_nil (Json.skipBlanks_cons (by decide) rest)
    | cons value values =>
      have hitems : ∀ other ∈ value :: values, ReadsBack (literalChars 0) other :=
        fun other hother ↦ readsBack_literalChars (hdistinct other hother) 0
      rw [toList_intercalate_literal, List.append_assoc]
      have hgap : [' '].all Json.isBlank = true := rfl
      have hlead : [].all Json.isBlank = true := rfl
      exact reads_readItems hgap hlead (.cons (by decide) rest)
        (Json.skipBlanks_cons (by decide) rest) hitems
  | list item ih =>
    have htext : (typeHint (.list item)).toList ++ rest =
        "List".toList ++ '[' :: ((typeHint item).toList ++ ']' :: rest) := by
      simp [typeHint]
    rw [htext]
    exact reads_wrapped (by decide) rfl (ih hdistinct (.cons (by decide) rest))
  | map =>
    have htext : (typeHint .map).toList = "Dict".toList ++ '[' :: mapArguments := by decide
    rw [htext, List.append_assoc, List.cons_append]
    exact reads_map rest
  | optional type ih =>
    have htext : (typeHint (.optional type)).toList ++ rest =
        "Optional".toList ++ '[' :: ((typeHint type).toList ++ ']' :: rest) := by
      simp [typeHint]
    rw [htext]
    exact reads_wrapped (by decide) rfl (ih hdistinct (.cons (by decide) rest))

end Python

end EventSchema
