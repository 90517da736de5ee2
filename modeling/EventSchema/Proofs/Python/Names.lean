import EventSchema.Proofs.Line
import EventSchema.Python.Artifact

/-!
# Top-level names of the Python artifact

The names that a module binds at top level are read off its lines: those of its imports, its
classes and its assignments, in order (`names`). An indented line belongs to a block or a literal
and binds nothing at top level, but for the block of a `try`, which has no scope of its own; of its
handler, which binds in its place, nothing is counted. Every part of the artifact adds the names it
is there for, whatever the parts around it are (`Adds`), and so the artifact has exactly these
(`names_lines`).
-/

set_option autoImplicit false

namespace EventSchema.Python

open Line

/-! ### Reading the names -/

/-- The names that a statement binds where it stands, read off the words of its first line. -/
def bound : List String → List String
  | name :: "=" :: _ => [name]
  | "class" :: name :: _ => [name]
  | "def" :: name :: _ => [name]
  | "import" :: names => names.filter (· ≠ "")
  | "from" :: _ :: "import" :: names => names.filter (· ≠ "")
  | _ => []

/-- Whether the indented lines that follow are the block of a `try`. -/
def guarded (inTry : Bool) (line : List String) : Bool :=
  if line.head? = some "" then inTry else line = ["try", ""]

/-- The names that a line binds at top level. -/
def boundIn (inTry : Bool) (line : List String) : List String :=
  if line.head? = some "" then if inTry then bound (line.dropWhile (· = "")) else []
  else bound line

def namesFrom : Bool → List (List String) → List String
  | _, [] => []
  | inTry, line :: rest => boundIn inTry line ++ namesFrom (guarded inTry line) rest

/-- The names that a module binds at top level, in order. An entry of the list may run over several
lines of text, within a literal or a docstring. -/
def names (lines : List String) : List String := namesFrom false (lines.map words)

theorem namesFrom_append (inTry : Bool) (first second : List (List String)) :
    namesFrom inTry (first ++ second) =
      namesFrom inTry first ++ namesFrom (first.foldl guarded inTry) second := by
  induction first generalizing inTry with
  | nil => rfl
  | cons line rest ih =>
    rw [List.cons_append, namesFrom, namesFrom, ih, List.append_assoc, List.foldl_cons]

/-- Wherever the lines stand outside of a `try`, they add these names, and leave no `try` open. -/
structure Adds (lines added : List String) : Prop where
  names_eq : names lines = added
  closed : (lines.map words).foldl guarded false = false

variable {first second added more : List String}

theorem Adds.append (hfirst : Adds first added) (hsecond : Adds second more) :
    Adds (first ++ second) (added ++ more) := by
  constructor
  · rw [names, List.map_append, namesFrom_append, hfirst.closed, ← hfirst.names_eq,
      ← hsecond.names_eq]
    rfl
  · rw [List.map_append, List.foldl_append, hfirst.closed, hsecond.closed]

theorem Adds.flatMap {α : Type} {items : List α} {lines names : α → List String}
    (hitems : ∀ item ∈ items, Adds (lines item) (names item)) :
    Adds (items.flatMap lines) (items.flatMap names) := by
  induction items with
  | nil => exact ⟨rfl, rfl⟩
  | cons item rest ih =>
    rw [List.flatMap_cons, List.flatMap_cons]
    exact (hitems item List.mem_cons_self).append
      (ih fun other hother ↦ hitems other (List.mem_cons_of_mem _ hother))

/-- The first words of a line tell what it binds, whatever is written after them. -/
theorem adds_line (front : List String) {start last : String}
    (hstart : words start = front ++ [last])
    (hbound : ∀ more, boundIn false (front ++ more) = added)
    (hclosed : ∀ more, guarded false (front ++ more) = false) (rest : String) :
    Adds [start ++ rest] added := by
  obtain ⟨more, hmore⟩ := prefix_words_append hstart rest
  constructor
  · rw [names, List.map_singleton, ← hmore, namesFrom, hbound, namesFrom, List.append_nil]
  · rw [List.map_singleton, List.foldl_cons, List.foldl_nil, ← hmore, hclosed]

/-- A line with nothing else in it, by its characters. -/
theorem adds_ofList (text : List Char)
    (hclosed : guarded false ((Text.split isGap text).map String.ofList) = false) :
    Adds [String.ofList text] (boundIn false ((Text.split isGap text).map String.ofList)) := by
  rw [← words_ofList] at hclosed ⊢
  exact ⟨List.append_nil _, hclosed⟩

theorem adds_of_indented {lines : List String}
    (hlines : ∀ line ∈ lines, line ≠ "" → Indented line) : Adds lines [] := by
  induction lines with
  | nil => exact ⟨rfl, rfl⟩
  | cons line rest ih =>
    have hhead : (words line).head? = some "" := by
      by_cases hline : line = ""
      · rw [hline]
        rfl
      · exact (hlines line List.mem_cons_self hline).head?_words
    have hline : Adds [line] [] := by
      constructor
      · simp [names, namesFrom, boundIn, hhead]
      · simp [guarded, hhead]
    exact hline.append (ih fun other hother ↦ hlines other (List.mem_cons_of_mem _ hother))

/-! ### Parts of the artifact -/

def importedNames : List String :=
  ["Any", "Dict", "List", "Optional", "Union", "Literal", "TypedDict", "overload", "Enum",
    "posthog", "json", "warnings", "jsonschema"]

theorem adds_gap : Adds [""] [] := adds_of_indented (by simp)

theorem adds_imports : Adds [
    "from typing import Any, Dict, List, Optional, Union, Literal, TypedDict, overload",
    "from enum import Enum", "import posthog", "import json", "import warnings"]
    ["Any", "Dict", "List", "Optional", "Union", "Literal", "TypedDict", "overload", "Enum",
      "posthog", "json", "warnings"] := by
  have htyping : Adds
      ["from typing import Any, Dict, List, Optional, Union, Literal, TypedDict, overload"]
      ["Any", "Dict", "List", "Optional", "Union", "Literal", "TypedDict", "overload"] :=
    adds_ofList _ rfl
  have henum : Adds ["from enum import Enum"] ["Enum"] := adds_ofList _ rfl
  have hclient : Adds ["import posthog"] ["posthog"] := adds_ofList _ rfl
  have hjson : Adds ["import json"] ["json"] := adds_ofList _ rfl
  have hwarnings : Adds ["import warnings"] ["warnings"] := adds_ofList _ rfl
  exact htyping.append (henum.append (hclient.append (hjson.append hwarnings)))

/-- The one name that is bound in the block of a `try`. -/
theorem adds_guardedImport : Adds ["try:", "    import jsonschema", "except ImportError:",
    "    jsonschema = None"] ["jsonschema"] := by
  have htry : words "try:" = ["try", ""] := words_ofList _
  have himport : words "    import jsonschema" = ["", "", "", "", "import", "jsonschema"] :=
    words_ofList _
  have hexcept : words "except ImportError:" = ["except", "ImportError", ""] := words_ofList _
  have hnone : words "    jsonschema = None" = ["", "", "", "", "jsonschema", "=", "None"] :=
    words_ofList _
  constructor
  · simp only [names, List.map_cons, List.map_nil, htry, himport, hexcept, hnone]
    rfl
  · simp only [List.map_cons, List.map_nil, htry, himport, hexcept, hnone]
    rfl

theorem adds_modes : Adds ["class ValidationMode(Enum):", "    STRICT = \"strict\"",
    "    WARNING = \"warning\"", "    DISABLED = \"disabled\""] ["ValidationMode"] := by
  have hclass : Adds ["class ValidationMode(Enum):"] ["ValidationMode"] := adds_ofList _ rfl
  have hmodes : Adds ["    STRICT = \"strict\"", "    WARNING = \"warning\"",
      "    DISABLED = \"disabled\""] [] := by
    refine adds_of_indented fun line hline _ ↦ ?_
    simp only [List.mem_cons, List.not_mem_nil, or_false] at hline
    rcases hline with rfl | rfl | rfl <;> exact indented_ofList _
  exact hclass.append hmodes

theorem adds_header (options : PlanOptions) :
    Adds (header options) (importedNames ++ ["ValidationMode"]) := by
  have htitle : Adds ["# Auto-generated PostHog wrapper with embedded schemas"] [] :=
    adds_ofList _ rfl
  have htime : Adds ["# Generated at: " ++ options.generatedAt] [] :=
    adds_line ["#", "Generated", "at", ""] (words_ofList _) (fun _ ↦ rfl) (fun _ ↦ rfl) _
  have hversion : Adds ["# Generator: hogtyped " ++ options.generatorVersion] [] :=
    adds_line ["#", "Generator", "", "hogtyped"] (words_ofList _) (fun _ ↦ rfl) (fun _ ↦ rfl) _
  have hnote : Adds ["# DO NOT EDIT - This file is auto-generated"] [] := adds_ofList _ rfl
  have htypes : Adds ["# ============ Event Types ============"] [] := adds_ofList _ rfl
  have hgaps : Adds ["", ""] [] := adds_gap.append adds_gap
  rw [header, importedNames]
  exact htitle.append (htime.append (hversion.append (hnote.append (adds_gap.append
    (adds_imports.append (adds_gap.append (adds_guardedImport.append (hgaps.append
      (adds_modes.append (hgaps.append htypes))))))))))

theorem adds_class {name after last : String} {tail : List String} (hname : IsName name)
    (hafter : words after = "" :: tail ++ [last]) (rest : String) :
    Adds ["class " ++ name ++ after ++ rest] [name] := by
  have hline : words ("class " ++ name ++ after) = "class" :: name :: tail ++ [last] :=
    words_named hname (show words "class " = ["class"] ++ [""] from words_ofList _) hafter
  refine adds_line _ hline (fun more ↦ ?_) (fun _ ↦ rfl) rest
  simp [boundIn, bound, hname.ne_equals]

theorem indented_classField {field : Field} {line : String} (hline : line ∈ classField field) :
    Indented line := by
  have hblank : Indented "    " := indented_ofList _
  have hquotes : Indented "    \"\"\"" := indented_ofList _
  rw [classField] at hline
  rcases List.mem_append.mp hline with hdocstring | hkey
  · cases hdescription : field.description with
    | none => simp [hdescription] at hdocstring
    | some description =>
      rw [hdescription, List.mem_singleton] at hdocstring
      subst hdocstring
      exact (hquotes.append _).append _
  · rw [List.mem_singleton.mp hkey]
    exact ((hblank.append _).append _).append _

theorem adds_classType {event : PlannedEvent} (hname : IsName event.typeName) :
    Adds (classType event) [event.typeName] := by
  have hfirst : Adds ["class " ++ event.typeName ++ "(TypedDict" ++ totality event ++ "):"]
      [event.typeName] := by
    have hafter : words "(TypedDict" = "" :: [] ++ ["TypedDict"] := words_ofList _
    simpa [String.append_assoc] using adds_class hname hafter (totality event ++ "):")
  have hbody : Adds (if event.fields.isEmpty then ["    pass"]
      else event.fields.flatMap classField) [] := by
    refine adds_of_indented fun line hline _ ↦ ?_
    split at hline
    · rw [List.mem_singleton.mp hline]
      exact indented_ofList _
    · obtain ⟨field, -, hmem⟩ := List.mem_flatMap.mp hline
      exact indented_classField hmem
  exact hfirst.append hbody

theorem adds_functionalType {event : PlannedEvent} (hname : IsName event.typeName) :
    Adds (functionalType event) [event.typeName] := by
  have hfirst : Adds [event.typeName ++ " = TypedDict(\"" ++ event.typeName ++ "\", \x7b"]
      [event.typeName] := by
    have hafter : words " = TypedDict(\"" = "" :: ["=", "TypedDict"] ++ ["\""] := words_ofList _
    have hstart : words (event.typeName ++ " = TypedDict(\"") =
        event.typeName :: ["=", "TypedDict"] ++ ["\""] := by
      simpa using words_append (show _ = [] ++ _ from (words_of_isName hname)) hafter
    rw [String.append_assoc]
    refine adds_line _ hstart (fun more ↦ ?_) (fun more ↦ ?_) _
    · simp [boundIn, bound, hname.ne_empty]
    · simp [guarded, hname.ne_empty]
  have hfields : Adds (event.fields.map functionalField) [] := by
    refine adds_of_indented fun line hline _ ↦ ?_
    have hblank : Indented "    " := indented_ofList _
    obtain ⟨field, -, rfl⟩ := List.mem_map.mp hline
    exact (((hblank.append _).append _).append _).append _
  have hlast : Adds ["\x7d" ++ totality event ++ ")"] [] := by
    rw [totality]
    split
    · have hline : Adds ["\x7d, total=False)"] [] := adds_ofList _ rfl
      exact hline
    · have hline : Adds ["\x7d)"] [] := adds_ofList _ rfl
      exact hline
  exact (hfirst.append hfields).append hlast

theorem adds_eventType {event : PlannedEvent} (hname : IsName event.typeName) :
    Adds ("" :: eventType event) [event.typeName] := by
  have htype : Adds (eventType event) [event.typeName] := by
    rw [eventType]
    split
    · exact adds_classType hname
    · exact adds_functionalType hname
  exact adds_gap.append htype

theorem adds_schemaTable (events : List PlannedEvent) : Adds (schemaTable events) ["SCHEMAS"] := by
  have htitle : Adds ["# ============ Embedded Schemas ============", ""] [] :=
    (adds_ofList _ rfl).append adds_gap
  have hfirst : Adds ["SCHEMAS = \x7b"] ["SCHEMAS"] := adds_ofList _ rfl
  have hentries : Adds (events.map schemaEntry) [] := by
    refine adds_of_indented fun line hline _ ↦ ?_
    have hblank : Indented "    " := indented_ofList _
    obtain ⟨event, -, rfl⟩ := List.mem_map.mp hline
    exact (((hblank.append _).append _).append _).append _
  have hlast : Adds ["\x7d"] [] := adds_ofList _ rfl
  exact htitle.append ((hfirst.append hentries).append hlast)

/-- The wrapper, its first line and its default instance apart. -/
theorem indented_wrapper (className : String) (mode : Mode) (event : PlannedEvent) :
    ∀ line ∈ (wrapperStart className mode).drop 3 ++ overload event ++
      (wrapperEnd className).dropLast.dropLast, line ≠ "" → Indented line := by
  simp only [wrapperStart, overload, wrapperEnd, List.drop_succ_cons, List.drop_zero,
    List.dropLast_cons_cons, List.dropLast_singleton, List.cons_append, List.nil_append,
    List.forall_mem_cons]
  and_intros
  all_goals first
    | exact List.forall_mem_nil _
    | exact fun hne ↦ absurd rfl hne
    | intro _
      repeat with_reducible apply Indented.append
      exact indented_ofList _

theorem adds_wrapperStart {className : String} (hname : IsName className) (mode : Mode) :
    Adds (wrapperStart className mode) [className] := by
  have hfirst : Adds ["# ============ Type-Safe Wrapper ============", ""] [] :=
    (adds_ofList _ rfl).append adds_gap
  have hclass : Adds ["class " ++ className ++ ":"] [className] := by
    have hafter : words ":" = "" :: [] ++ [""] := words_ofList _
    simpa using adds_class hname hafter ""
  have hbody : Adds ((wrapperStart className mode).drop 3) [] :=
    adds_of_indented fun line hline ↦ indented_wrapper className mode default line
      (List.mem_append_left _ (List.mem_append_left _ hline))
  exact hfirst.append (hclass.append hbody)

theorem adds_wrapperEnd (className : String) : Adds (wrapperEnd className) ["hogtyped"] := by
  have hbody : Adds ((wrapperEnd className).dropLast.dropLast) [] :=
    adds_of_indented fun line hline ↦ indented_wrapper className .strict default line
      (List.mem_append_right _ hline)
  have hcomment : Adds ["# Default instance; construct " ++ className ++
      "(posthog_instance=...) for a configured client"] [] := by
    rw [String.append_assoc]
    exact adds_line ["#", "Default", "instance;", "construct"] (words_ofList _) (fun _ ↦ rfl)
      (fun _ ↦ rfl) _
  have hinstance : Adds ["hogtyped = " ++ className ++ "()"] ["hogtyped"] := by
    rw [String.append_assoc]
    exact adds_line ["hogtyped", "="] (words_ofList _) (fun _ ↦ rfl) (fun _ ↦ rfl) _
  exact hbody.append (hcomment.append hinstance)

/-- The names of the artifact: imports, the modes, the types of the events, the type of their names,
the schemas, the wrapper class and its default instance. -/
theorem names_lines {plan : Plan} (htypes : ∀ event ∈ plan.events, IsName event.typeName)
    (hclass : IsName plan.options.className) :
    names (lines plan) = importedNames ++ ["ValidationMode"] ++
      plan.events.map (·.typeName) ++
        ["EventName", "SCHEMAS", plan.options.className, "hogtyped"] := by
  have htypes : Adds (plan.events.flatMap fun event ↦ "" :: eventType event)
      (plan.events.map (·.typeName)) := by
    rw [List.map_eq_flatMap]
    exact Adds.flatMap fun event hevent ↦ adds_eventType (htypes event hevent)
  have hnames : Adds ["", "EventName = " ++ eventNameType plan.events, "", ""] ["EventName"] := by
    have hname : Adds ["EventName = " ++ eventNameType plan.events] ["EventName"] :=
      adds_line ["EventName", "="] (words_ofList _) (fun _ ↦ rfl) (fun _ ↦ rfl) _
    exact adds_gap.append (hname.append (adds_gap.append adds_gap))
  have hgaps : Adds ["", ""] [] := adds_gap.append adds_gap
  have hoverloads : Adds (plan.events.flatMap overload) [] := by
    refine adds_of_indented fun line hline ↦ ?_
    obtain ⟨event, -, hmem⟩ := List.mem_flatMap.mp hline
    exact indented_wrapper "" .strict event line
      (List.mem_append_left _ (List.mem_append_right _ hmem))
  have hall := (adds_header plan.options).append htypes |>.append hnames |>.append
    (adds_schemaTable plan.events) |>.append hgaps |>.append
    (adds_wrapperStart hclass plan.options.mode) |>.append hoverloads |>.append
    (adds_wrapperEnd plan.options.className)
  rw [lines, hall.names_eq]
  simp

end EventSchema.Python
