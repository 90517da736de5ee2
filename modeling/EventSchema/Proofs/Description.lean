import EventSchema.Proofs.Python.Quoted
import EventSchema.Python.Artifact
import EventSchema.TypeScript.Artifact

/-!
# Descriptions in the artifacts

The description of a property stands in a docstring of the Python artifact and in a block comment of
the TypeScript one. Neither can be left early: the docstring is one literal, which decodes to the
description, and the comment ends at the mark that the artifact puts there
(`description_confined`). The one exception is the character zero, which a docstring holds as it is
and no Python literal may hold.
-/

set_option autoImplicit false

namespace EventSchema

namespace TypeScript

/-! ### Block comments -/

/-- The text up to the first mark that ends a comment, and what follows the mark. -/
def untilEnd : List Char → Option (List Char × List Char)
  | '*' :: '/' :: rest => some ([], rest)
  | c :: rest => (untilEnd rest).map fun (inner, after) ↦ (c :: inner, after)
  | [] => none

/-- Reads a block comment: the text between its marks, and what follows it. -/
def readComment : List Char → Option (List Char × List Char)
  | '/' :: '*' :: rest => untilEnd rest
  | _ => none

/-- The comment that the artifact makes of a description. -/
def describing (text : String) : List Char :=
  "/** ".toList ++ (commentChars text.toList ++ " */".toList)

theorem untilEnd_cons {c : Char} {rest : List Char} (hc : c = '*' → rest.head? ≠ some '/') :
    untilEnd (c :: rest) = (untilEnd rest).map fun (inner, after) ↦ (c :: inner, after) := by
  rw [untilEnd]
  rintro more rfl rfl
  exact hc rfl rfl

theorem head?_commentChars (text : List Char) : (commentChars text).head? = text.head? := by
  unfold commentChars
  split <;> rfl

/-- A rewritten text ends no comment, also not together with what follows it, if that does not start
with a slash. -/
theorem untilEnd_commentChars (text : List Char) {after : List Char}
    (hafter : after.head? ≠ some '/') : untilEnd (commentChars text ++ after) =
      (untilEnd after).map fun (inner, rest) ↦ (commentChars text ++ inner, rest) := by
  induction text using commentChars.induct with
  | case1 rest ih =>
    rw [commentChars, List.cons_append, List.cons_append, List.cons_append,
      untilEnd_cons (fun _ ↦ by simp), untilEnd_cons (by simp), untilEnd_cons (by simp), ih]
    simp only [Option.map_map]
    rfl
  | case2 c rest hpair ih =>
    have hhead : c = '*' → (commentChars rest ++ after).head? ≠ some '/' := by
      rintro rfl hslash
      cases hrest : commentChars rest with
      | nil =>
        rw [hrest, List.nil_append] at hslash
        exact hafter hslash
      | cons d more =>
        rw [List.head?_append_of_ne_nil _ (by simp [hrest]), head?_commentChars] at hslash
        obtain ⟨tail, rfl⟩ := List.head?_eq_some_iff.mp hslash
        exact hpair tail rfl rfl
    rw [commentChars, List.cons_append, untilEnd_cons hhead, ih, Option.map_map]
    · rfl
    · exact hpair
  | case3 =>
    rw [commentChars, List.nil_append]
    cases untilEnd after <;> rfl

/-- The comment of a description ends at its own mark. -/
theorem readComment_describing (text : String) (after : List Char) :
    readComment (describing text ++ after) =
      some ("* ".toList ++ (commentChars text.toList ++ [' ']), after) := by
  have hcomment : describing text ++ after =
      '/' :: '*' :: '*' :: ' ' :: (commentChars text.toList ++ (' ' :: '*' :: '/' :: after)) := by
    simp [describing]
  have hmark : untilEnd (' ' :: '*' :: '/' :: after) = some ([' '], after) := rfl
  rw [hcomment, readComment, untilEnd_cons (by simp), untilEnd_cons (by simp),
    untilEnd_commentChars _ (by simp), hmark]
  rfl

end TypeScript

/-- The docstring that the artifact makes of a description. -/
def Python.describing (text : String) : List Char :=
  tripleQuotes ++ (docstringChars text.toList ++ tripleQuotes)

/-- The description of a property is the first line that the property adds to either artifact. In
the Python artifact it is a single literal that decodes to the description, unless that holds the
character zero, and in the TypeScript artifact a comment that ends at its own mark. -/
theorem description_confined (field : Field) (text : String) (after : List Char) :
    (Python.classField { field with description := some text } =
        [String.ofList ("    ".toList ++ Python.describing text),
          "    " ++ field.name ++ ": " ++ Python.typeHint field.type] ∧
      Python.readString (Python.describing text ++ after) =
        if '\x00' ∈ text.toList then none else some (text.toList, after)) ∧
    TypeScript.fieldLines { field with description := some text } =
        [String.ofList ("  ".toList ++ TypeScript.describing text),
          "  " ++ TypeScript.propertyKey field.name ++ (if field.required then "" else "?") ++
            ": " ++ TypeScript.typeHint field.type.required ++ ";"] ∧
      TypeScript.readComment (TypeScript.describing text ++ after) =
        some ("* ".toList ++ (TypeScript.commentChars text.toList ++ [' ']), after) := by
  have hdocstring : String.ofList ("    ".toList ++ Python.describing text) =
      "    \"\"\"" ++ Python.docstring text ++ "\"\"\"" := by
    rw [← String.toList_inj]
    simp [Python.describing, Python.docstring, Python.tripleQuotes]
  have hcomment : String.ofList ("  ".toList ++ TypeScript.describing text) =
      "  /** " ++ TypeScript.comment text ++ " */" := by
    rw [← String.toList_inj]
    simp [TypeScript.describing, TypeScript.comment]
  rw [hdocstring, hcomment]
  refine ⟨⟨rfl, ?_⟩, rfl, TypeScript.readComment_describing text after⟩
  rw [Python.describing, List.append_assoc, List.append_assoc]
  exact Python.readString_docstringChars text.toList after

/-- The character zero is put into the docstring as it is, so the literal cannot be read. -/
theorem not_readString_describing_zero : Python.readString (Python.describing "\x00") = none := by
  decide +kernel

end EventSchema
