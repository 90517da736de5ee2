import EventSchema.Proofs.Line
import EventSchema.TypeScript.Artifact
import Mathlib.Data.List.Basic

/-!
# Top-level names of the TypeScript artifact

The names that a module has at top level are read off its lines: the name that its import gives, and
those that its declarations export, in order (`names`). All other lines start with neither word
(`Inner`). Part by part, these are the names of the artifact (`names_lines`).
-/

set_option autoImplicit false

namespace EventSchema.TypeScript

open Line

/-! ### Reading the names -/

/-- The words that a declaration starts with. -/
def kinds : List String := ["class", "const", "enum", "function", "interface", "let", "type", "var"]

def declared : List String → List String
  | kind :: name :: _ => if kind ∈ kinds then [name] else []
  | _ => []

/-- The name that a line imports or declares, exported or not, read off its words. -/
def bound : List String → List String
  | "import" :: "\x7b" :: _ :: "as" :: name :: _ => [name]
  | "export" :: line => declared line
  | line => declared line

/-- The names that a module imports or declares, in order. -/
def names (lines : List String) : List String := lines.flatMap fun line ↦ bound (words line)

theorem names_append (first second : List String) :
    names (first ++ second) = names first ++ names second := List.flatMap_append

theorem names_singleton (line : String) : names [line] = bound (words line) := by
  rw [names, List.flatMap_singleton]

/-- The name in a line with nothing else in it, by its characters. -/
theorem names_ofList (text : List Char) :
    names [String.ofList text] = bound ((Text.split isGap text).map String.ofList) := by
  rw [names_singleton, words_ofList]

/-- A blank line, or one that is indented, closes a block or is a comment. -/
def Inner (line : String) : Prop := ∀ c ∈ line.toList.head?, c ∈ [' ', '/', '\x7d']

theorem inner_ofList {first : Char} (hfirst : first ∈ [' ', '/', '\x7d']) (rest : List Char) :
    Inner (String.ofList (first :: rest)) := by
  rw [Inner, String.toList_ofList]
  simpa using hfirst

theorem inner_empty : Inner "" := by
  rintro c ⟨⟩

theorem Inner.append {start : String} (hstart : Inner start) (hne : start ≠ "") (rest : String) :
    Inner (start ++ rest) := by
  obtain ⟨c, tail, hchars⟩ := List.exists_cons_of_ne_nil
    fun hnil ↦ hne (String.toList_eq_nil_iff.mp hnil)
  rw [Inner, hchars] at hstart
  rwa [Inner, String.toList_append, hchars]

theorem inner_of_indented {line : String} (hline : Indented line) : Inner line := by
  rw [Inner, show line.toList.head? = some ' ' from hline]
  rintro c ⟨⟩
  decide

/-- Such a line does not start with a word that matters. -/
theorem notMem_of_inner {line word : String} {tail : List String} (hline : Inner line)
    (hwords : words line = word :: tail) : word ∉ "import" :: "export" :: kinds := by
  have hstarts : ∀ keyword ∈ "import" :: "export" :: kinds,
      ∃ c, keyword.toList.head? = some c ∧ c ∉ [' ', '/', '\x7d'] := by simp [kinds]
  intro hmem
  obtain ⟨c, hc, hletter⟩ := hstarts word hmem
  obtain ⟨rest, hword⟩ := List.head?_eq_some_iff.mp hc
  obtain ⟨after, hafter⟩ := prefix_of_words hwords
  refine hletter (hline c ?_)
  rw [← hafter, hword]
  rfl

theorem bound_of_inner {line : String} (hline : Inner line) : bound (words line) = [] := by
  cases hwords : words line with
  | nil => rfl
  | cons word tail =>
    obtain ⟨himport, hexport, hkind⟩ :
        word ≠ "import" ∧ word ≠ "export" ∧ word ∉ kinds := by
      simpa using notMem_of_inner hline hwords
    cases tail with
    | nil => simp [bound, declared, hexport]
    | cons next more => simp [bound, declared, himport, hexport, hkind]

theorem names_of_inner {lines : List String} (hlines : ∀ line ∈ lines, Inner line) :
    names lines = [] :=
  List.flatMap_eq_nil_iff.mpr fun line hline ↦ bound_of_inner (hlines line hline)

/-- A declaration is of the name that follows its kind, whatever is written after them. -/
theorem names_exported {start kind name last : String} {tail : List String} (hkind : kind ∈ kinds)
    (hstart : words start = "export" :: kind :: name :: tail ++ [last]) (rest : String) :
    names [start ++ rest] = [name] := by
  obtain ⟨more, hmore⟩ := prefix_words_append hstart rest
  rw [names_singleton, ← hmore]
  exact if_pos hkind

theorem names_declaration {before kind name after last : String} {tail : List String}
    (hname : IsName name) (hkind : kind ∈ kinds) (hbefore : words before = ["export", kind] ++ [""])
    (hafter : words after = "" :: tail ++ [last]) (rest : String) :
    names [before ++ name ++ after ++ rest] = [name] :=
  names_exported hkind (words_named hname hbefore hafter) rest

/-! ### Parts of the artifact -/

theorem names_comments (options : PlanOptions) :
    names ["// Auto-generated PostHog wrapper with embedded schemas",
      "// Generated at: " ++ options.generatedAt,
      "// Generator: hogtyped " ++ options.generatorVersion,
      "// DO NOT EDIT - This file is auto-generated", ""] = [] := by
  refine names_of_inner fun line hline ↦ ?_
  simp only [List.mem_cons, List.not_mem_nil, or_false] at hline
  rcases hline with rfl | rfl | rfl | rfl | rfl
  · exact inner_ofList (by decide) _
  · exact (inner_ofList (by decide) _).append (by decide) _
  · exact (inner_ofList (by decide) _).append (by decide) _
  · exact inner_ofList (by decide) _
  · exact inner_empty

theorem names_modes : names ["export enum ValidationMode \x7b", "  STRICT = 'strict',",
    "  WARNING = 'warning',", "  DISABLED = 'disabled',", "\x7d"] = ["ValidationMode"] := by
  have henum : names ["export enum ValidationMode \x7b"] = ["ValidationMode"] := names_ofList _
  have hmodes : names ["  STRICT = 'strict',", "  WARNING = 'warning',",
      "  DISABLED = 'disabled',", "\x7d"] = [] := by
    refine names_of_inner fun line hline ↦ ?_
    simp only [List.mem_cons, List.not_mem_nil, or_false] at hline
    rcases hline with rfl | rfl | rfl | rfl <;> exact inner_ofList (by decide) _
  rw [← List.singleton_append, names_append, henum, hmodes, List.append_nil]

theorem names_header (options : PlanOptions) :
    names (header options) = ["PostHogClient", "ValidationMode"] := by
  have himport : names ["import \x7b PostHog as PostHogClient \x7d from 'posthog-node';"] =
      ["PostHogClient"] := names_ofList _
  have hgap : names [""] = [] := names_ofList []
  have htypes : names ["", "// ============ Event Types ============"] = [] := by
    refine names_of_inner (List.forall_mem_cons.mpr ⟨inner_empty, ?_⟩)
    exact List.forall_mem_singleton.mpr (inner_ofList (by decide) _)
  have hsplit : header options = ["// Auto-generated PostHog wrapper with embedded schemas",
      "// Generated at: " ++ options.generatedAt,
      "// Generator: hogtyped " ++ options.generatorVersion,
      "// DO NOT EDIT - This file is auto-generated", ""] ++
      ["import \x7b PostHog as PostHogClient \x7d from 'posthog-node';"] ++ [""] ++
      ["export enum ValidationMode \x7b", "  STRICT = 'strict',", "  WARNING = 'warning',",
        "  DISABLED = 'disabled',", "\x7d"] ++
      ["", "// ============ Event Types ============"] := rfl
  rw [hsplit, names_append, names_append, names_append, names_append, names_comments, himport,
    hgap, names_modes, htypes]
  rfl

theorem indented_fieldLines {field : Field} {line : String} (hline : line ∈ fieldLines field) :
    Indented line := by
  have hblank : Indented "  " := indented_ofList _
  have hcomment : Indented "  /** " := indented_ofList _
  rw [fieldLines] at hline
  rcases List.mem_append.mp hline with hdescribed | hkey
  · cases hdescription : field.description with
    | none => simp [hdescription] at hdescribed
    | some description =>
      rw [hdescription, List.mem_singleton] at hdescribed
      subst hdescribed
      exact (hcomment.append _).append _
  · rw [List.mem_singleton.mp hkey]
    exact ((((hblank.append _).append _).append _).append _).append _

theorem names_interfaceLines {event : PlannedEvent} (hname : IsName event.typeName) :
    names ("" :: interfaceLines event) = [event.typeName] := by
  have hfirst : names ["export interface " ++ event.typeName ++ " \x7b"] = [event.typeName] := by
    have hbefore : words "export interface " = ["export", "interface"] ++ [""] := words_ofList _
    have hafter : words " \x7b" = "" :: [] ++ ["\x7b"] := words_ofList _
    simpa using names_declaration hname (by decide) hbefore hafter ""
  have hfields : names (event.fields.flatMap fieldLines) = [] := by
    refine names_of_inner fun line hline ↦ ?_
    obtain ⟨field, -, hmem⟩ := List.mem_flatMap.mp hline
    exact inner_of_indented (indented_fieldLines hmem)
  have hlast : names ["\x7d"] = [] := names_ofList _
  have hgap : names [""] = [] := names_ofList []
  rw [interfaceLines, ← List.singleton_append, names_append, names_append, names_append, hgap,
    hfirst, hfields, hlast]
  rfl

theorem names_propertiesMap (events : List PlannedEvent) :
    names (propertiesMap events) = ["EventPropertiesMap"] := by
  have hfirst : names ["export interface EventPropertiesMap \x7b"] = ["EventPropertiesMap"] :=
    names_ofList _
  have hentries : names (events.map fun event ↦
      "  " ++ quote event.name ++ ": " ++ event.typeName ++ ";") = [] := by
    refine names_of_inner fun line hline ↦ inner_of_indented ?_
    have hblank : Indented "  " := indented_ofList _
    obtain ⟨event, -, rfl⟩ := List.mem_map.mp hline
    exact (((hblank.append _).append _).append _).append _
  have hlast : names ["\x7d"] = [] := names_ofList _
  rw [propertiesMap, names_append, names_append, hfirst, hentries, hlast]
  rfl

theorem names_schemaTable (plan : Plan) : names (schemaTable plan) = ["SCHEMAS"] := by
  have hfirst : names ["// ============ Embedded Schemas ============", ""] = [] := by
    refine names_of_inner (List.forall_mem_cons.mpr ⟨inner_ofList (by decide) _, ?_⟩)
    exact List.forall_mem_singleton.mpr inner_empty
  have htable : names ["export const SCHEMAS: Record<string, any> = " ++
      (Json.object plan.schemas).pretty ++ ";"] = ["SCHEMAS"] := by
    have hstart : words "export const SCHEMAS: Record<string, any> = " =
        "export" :: "const" :: "SCHEMAS" :: ["", "Record<string", "", "any>", "="] ++ [""] :=
      words_ofList _
    rw [String.append_assoc]
    exact names_exported (by decide) hstart _
  have hsplit : schemaTable plan = ["// ============ Embedded Schemas ============", ""] ++
      ["export const SCHEMAS: Record<string, any> = " ++ (Json.object plan.schemas).pretty ++
        ";"] := rfl
  rw [hsplit, names_append, hfirst, htable, List.nil_append]

/-- The wrapper, its declarations apart. -/
theorem inner_wrapper (className : String) (mode : Mode) :
    ∀ line ∈ (wrapper className mode).take 2 ++ ((wrapper className mode).drop 3).take 6 ++
      ((wrapper className mode).drop 10).dropLast, Inner line := by
  simp only [wrapper, List.drop_succ_cons, List.drop_zero, List.take_succ_cons, List.take_zero,
    List.dropLast_cons_cons, List.dropLast_singleton, List.cons_append, List.nil_append,
    List.forall_mem_cons]
  and_intros
  all_goals first
    | with_reducible exact inner_empty
    | with_reducible exact List.forall_mem_nil _
    | with_reducible refine inner_of_indented (Indented.append ?_ _)
      repeat with_reducible apply Indented.append
      exact indented_ofList _
    | exact inner_ofList (by decide) _

theorem names_wrapper {className : String} (hname : IsName className)
    (hoptions : IsName (className ++ "Options")) (mode : Mode) :
    names (wrapper className mode) = [className ++ "Options", className, "hogtyped"] := by
  have hsplit : wrapper className mode =
      (wrapper className mode).take 2 ++ ["export interface " ++ className ++ "Options \x7b"] ++
      ((wrapper className mode).drop 3).take 6 ++ ["export class " ++ className ++ " \x7b"] ++
      ((wrapper className mode).drop 10).dropLast ++
      ["export const hogtyped = new " ++ className ++ "();"] := rfl
  have hinner := names_of_inner (inner_wrapper className mode)
  simp only [names_append, List.append_eq_nil_iff] at hinner
  have hafter : words " \x7b" = "" :: [] ++ ["\x7b"] := words_ofList _
  have hinterface : names ["export interface " ++ className ++ "Options \x7b"] =
      [className ++ "Options"] := by
    have hbefore : words "export interface " = ["export", "interface"] ++ [""] := words_ofList _
    have hend : "Options \x7b" = "Options" ++ " \x7b" := by decide
    have hline := names_declaration hoptions (by decide) hbefore hafter ""
    rwa [String.append_empty, ← String.append_assoc, String.append_assoc, ← hend] at hline
  have hclass : names ["export class " ++ className ++ " \x7b"] = [className] := by
    have hbefore : words "export class " = ["export", "class"] ++ [""] := words_ofList _
    simpa using names_declaration hname (by decide) hbefore hafter ""
  have hinstance : names ["export const hogtyped = new " ++ className ++ "();"] =
      ["hogtyped"] := by
    have hstart : words "export const hogtyped = new " =
        "export" :: "const" :: "hogtyped" :: ["=", "new"] ++ [""] := words_ofList _
    rw [String.append_assoc]
    exact names_exported (by decide) hstart _
  rw [hsplit, names_append, names_append, names_append, names_append, names_append, hinterface,
    hclass, hinstance, hinner.1.1, hinner.1.2, hinner.2]
  rfl

/-- The names of the artifact: the client, the modes, the types of the events, those of their names
and their properties, the schemas, the options, the wrapper class and its default instance. -/
theorem names_lines {plan : Plan} (htypes : ∀ event ∈ plan.events, IsName event.typeName)
    (hclass : IsName plan.options.className)
    (hoptions : IsName (plan.options.className ++ "Options")) :
    names (lines plan) = ["PostHogClient", "ValidationMode"] ++ plan.events.map (·.typeName) ++
      ["EventName", "EventPropertiesMap", "SCHEMAS", plan.options.className ++ "Options",
        plan.options.className, "hogtyped"] := by
  have htypes : names (plan.events.flatMap fun event ↦ "" :: interfaceLines event) =
      plan.events.map (·.typeName) := by
    rw [names, List.flatMap_assoc, List.map_eq_flatMap]
    exact List.flatMap_congr fun event hevent ↦ names_interfaceLines (htypes event hevent)
  have hgap : names [""] = [] := names_ofList []
  have hname : names ["export type EventName = " ++ eventNameType plan.events ++ ";"] =
      ["EventName"] := by
    have hstart : words "export type EventName = " =
        "export" :: "type" :: "EventName" :: ["="] ++ [""] := words_ofList _
    rw [String.append_assoc]
    exact names_exported (by decide) hstart _
  have hnames : names ["", "export type EventName = " ++ eventNameType plan.events ++ ";", ""] =
      ["EventName"] := by
    have hsplit : ["", "export type EventName = " ++ eventNameType plan.events ++ ";", ""] =
        [""] ++ ["export type EventName = " ++ eventNameType plan.events ++ ";"] ++ [""] := rfl
    rw [hsplit, names_append, names_append, hgap, hname]
    rfl
  rw [lines, names_append, names_append, names_append, names_append, names_append, names_append,
    names_append, names_header, htypes, hnames, names_propertiesMap, hgap, names_schemaTable,
    names_wrapper hclass hoptions]
  simp

end EventSchema.TypeScript
