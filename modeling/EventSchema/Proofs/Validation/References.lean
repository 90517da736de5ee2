import EventSchema.Proofs.Document
import EventSchema.Proofs.Resolver.Termination
import EventSchema.Proofs.Text
import EventSchema.Validation

/-!
# What the check of references promises

The check of a document judges the strings under its reference keys, wherever they stand
(`Json.refers_iff`), and a resolver meets no others. So where all of them lead into their own
document and none is reported, resolving an event of it finds every target, and can fail on a cycle
only (`resolve_of_checked`). The check takes a relative path as it is, whatever follows its mark:
it reports what no resolver reads, but for relative paths to an anchor (`reported_iff_of_mem`).
-/

set_option autoImplicit false

namespace EventSchema

/-! ### The references of a document -/

/-- The string stands under a reference key of the value, at whatever depth. -/
inductive Json.Refers (text : String) : Json → Prop
  | entry {members : Fields} (hmem : ("$ref", .string text) ∈ members) :
    Refers text (.object members)
  | member {members : Fields} {key : String} {value : Json} (hmem : (key, value) ∈ members)
    (hrefers : Refers text value) : Refers text (.object members)
  | item {items : List Json} {value : Json} (hmem : value ∈ items) (hrefers : Refers text value) :
    Refers text (.array items)

/-- The references that are judged are all there are. -/
theorem Json.refers_iff {text : String} {value : Json} :
    value.Refers text ↔ text ∈ value.referenceTexts := by
  constructor
  · intro hrefers
    induction hrefers with
    | entry hmem => exact mem_referenceTexts_object.mpr ⟨_, hmem, .inl rfl⟩
    | member hmem _ ih => exact mem_referenceTexts_object.mpr ⟨_, hmem, .inr ih⟩
    | item hmem _ ih => exact mem_referenceTexts_array.mpr ⟨_, hmem, ih⟩
  · intro htext
    induction hweight : value.weight using Nat.strongRecOn generalizing value with
    | ind weight ih =>
      cases value with
      | object members =>
        obtain ⟨⟨key, inner⟩, hmem, hentry | hinner⟩ := mem_referenceTexts_object.mp htext
        · exact .entry (hentry ▸ hmem)
        · exact .member hmem (ih _ (hweight ▸ weight_lt_of_member hmem) hinner rfl)
      | array items =>
        obtain ⟨inner, hmem, hinner⟩ := mem_referenceTexts_array.mp htext
        exact .item hmem (ih _ (hweight ▸ weight_lt_of_item hmem) hinner rfl)
      | null | bool _ | number _ | string _ => exact absurd htext List.not_mem_nil

/-! ### The forms of references -/

namespace Pointer

/-- Only what starts with neither a slash nor the mark, or goes on so after the mark, is no
pointer. -/
theorem parseChars?_eq_none_iff {text : List Char} : parseChars? text = none ↔
    ∃ c rest, c ≠ '/' ∧ (text = '#' :: c :: rest ∨ text = c :: rest ∧ c ≠ '#') := by
  cases text with
  | nil => simp [parseChars?]
  | cons c rest =>
    by_cases hmark : c = '#'
    · subst hmark
      cases rest with
      | nil => simp [parseChars?]
      | cons d more =>
        by_cases hslash : d = '/'
        · refine iff_of_false (by simp [parseChars?, hslash]) ?_
          rintro ⟨e, last, he, htext | ⟨htext, hne⟩⟩
          · exact he ((List.cons.inj (List.cons.inj htext).2).1 ▸ hslash)
          · exact hne (List.cons.inj htext).1.symm
        · exact iff_of_true (by simp [parseChars?, hslash]) ⟨d, more, hslash, .inl rfl⟩
    · by_cases hslash : c = '/' <;> simp [parseChars?, hmark, hslash]

end Pointer

namespace Reference

variable {text : String}

theorem parse?_of_mark (hmark : text.toList.head? = some '#') :
    isRelative text.toList = false ∧ parse? text = (Pointer.parse? text).map .internal := by
  obtain ⟨rest, htext⟩ := List.head?_eq_some_iff.mp hmark
  constructor
  · rw [htext]
    rfl
  · rw [parse?, parseChars?, if_pos hmark, Pointer.parse?]

theorem parse?_of_neither (hmark : text.toList.head? ≠ some '#')
    (hrelative : isRelative text.toList = false) : parse? text = none := by
  rw [parse?, parseChars?, if_neg hmark, hrelative, if_neg Bool.false_ne_true]

theorem head?_ne_of_isRelative (hrelative : isRelative text.toList = true) :
    text.toList.head? ≠ some '#' := by
  intro hmark
  rw [(parse?_of_mark hmark).1] at hrelative
  cases hrelative

/-- A relative path whose first mark is followed by what is no pointer. -/
def ToAnchor (text : String) : Prop :=
  isRelative text.toList = true ∧ ∃ file c rest, '#' ∉ file ∧ c ≠ '/' ∧
    (text.toList = file ++ '#' :: '#' :: c :: rest ∨
      text.toList = file ++ '#' :: c :: rest ∧ c ≠ '#')

/-- Anchors are all that a relative path may not be followed by. -/
theorem parse?_eq_none_iff_of_isRelative (hrelative : isRelative text.toList = true) :
    parse? text = none ↔ ToAnchor text := by
  have hparse : parse? text = none ↔
      Pointer.parseChars? ((Text.splitOnce '#' text.toList).getD (text.toList, [])).2 = none := by
    rw [parse?, parseChars?, if_neg (head?_ne_of_isRelative hrelative), if_pos hrelative,
      Option.map_eq_none_iff]
  rw [hparse, ToAnchor, and_iff_right hrelative, Pointer.parseChars?_eq_none_iff]
  cases hsplit : Text.splitOnce '#' text.toList with
  | none =>
    have hmark := Text.splitOnce_eq_none_iff.mp hsplit
    simp only [Option.getD_none]
    refine iff_of_false (by simp) ?_
    rintro ⟨file, c, rest, -, -, htext | ⟨htext, -⟩⟩ <;> exact hmark (by simp [htext])
  | some parts =>
    obtain ⟨before, after⟩ := parts
    obtain ⟨htext, hbefore⟩ := Text.splitOnce_eq_some_iff.mp hsplit
    have hunique {file fragment : List Char} (hfile : '#' ∉ file)
        (hsame : text.toList = file ++ '#' :: fragment) : fragment = after := by
      have hsome := hsplit.symm.trans (Text.splitOnce_eq_some_iff.mpr ⟨hsame, hfile⟩)
      exact (Prod.mk.inj (Option.some_injective _ hsome)).2.symm
    rw [Option.getD_some]
    constructor
    · rintro ⟨c, rest, hc, hafter⟩
      refine ⟨before, c, rest, hbefore, hc, hafter.imp ?_ ?_⟩
      · exact fun hafter ↦ hafter ▸ htext
      · exact fun ⟨hafter, hne⟩ ↦ ⟨hafter ▸ htext, hne⟩
    · rintro ⟨file, c, rest, hfile, hc, hsame⟩
      refine ⟨c, rest, hc, hsame.imp ?_ ?_⟩
      · exact fun hsame ↦ (hunique hfile hsame).symm
      · exact fun ⟨hsame, hne⟩ ↦ ⟨(hunique hfile hsame).symm, hne⟩

end Reference

/-! ### What is reported -/

namespace ReferenceProblem

variable {root : Json} {text : String}

theorem of?_of_mark (hmark : text.toList.head? = some '#') :
    of? root text = match Pointer.parse? text with
      | none => some .unsupported
      | some pointer => match pointer.lookup root with
        | some _ => none
        | none => some (.unresolvable (pointer.repair? root)) := by
  have hrelative : ¬Reference.isRelative text.toList = true :=
    Bool.eq_false_iff.mp (Reference.parse?_of_mark hmark).1
  exact (if_neg hrelative).trans (if_neg (not_not_intro hmark))

/-- A relative path is never called unsupported. -/
theorem of?_eq_unsupported_iff : of? root text = some .unsupported ↔
    Reference.parse? text = none ∧ Reference.isRelative text.toList = false := by
  by_cases hrelative : Reference.isRelative text.toList = true
  · simp [of?, hrelative]
  rw [Bool.not_eq_true] at hrelative
  by_cases hmark : text.toList.head? = some '#'
  · rw [of?_of_mark hmark, (Reference.parse?_of_mark hmark).2, Option.map_eq_none_iff]
    cases hpointer : Pointer.parse? text with
    | none => simp [hrelative]
    | some pointer => cases hlookup : pointer.lookup root <;> simp [hlookup]
  · simp [of?, hrelative, hmark, Reference.parse?_of_neither hmark hrelative]

/-- A reference into the document that is not reported leads somewhere. -/
theorem exists_of_of?_eq_none (hmark : text.toList.head? = some '#')
    (hnone : of? root text = none) : ∃ pointer value,
      Reference.parse? text = some (.internal pointer) ∧ pointer.lookup root = some value := by
  rw [of?_of_mark hmark] at hnone
  rw [(Reference.parse?_of_mark hmark).2]
  cases hpointer : Pointer.parse? text with
  | none => simp [hpointer] at hnone
  | some pointer =>
    cases hlookup : pointer.lookup root with
    | none => simp [hpointer, hlookup] at hnone
    | some value => exact ⟨pointer, value, rfl, hlookup⟩

end ReferenceProblem

namespace Validation

open Reference

theorem unsupportedReference_mem_iff {data : Json} {reference : PlacedReference}
    (hreference : reference ∈ data.references ⟨[]⟩) :
    .unsupportedReference reference.place reference.text ∈ referenceFindings data ↔
      ReferenceProblem.of? data reference.text = some .unsupported := by
  rw [referenceFindings, List.mem_filterMap]
  constructor
  · rintro ⟨⟨place, text⟩, -, hfinding⟩
    obtain ⟨problem, hproblem, hfinding⟩ := Option.map_eq_some_iff.mp hfinding
    cases problem with
    | unresolvable suggested => cases hfinding
    | unsupported =>
      obtain ⟨-, rfl⟩ := Finding.unsupportedReference.inj hfinding
      exact hproblem
  · intro hproblem
    exact ⟨reference, hreference, by rw [hproblem, Option.map_some]⟩

/-- A reference is reported as unsupported if no resolver reads it, unless it is a relative path to
an anchor, which no resolver reads either. -/
theorem reported_iff_of_mem {data : Json} {reference : PlacedReference}
    (hreference : reference ∈ data.references ⟨[]⟩) :
    (.unsupportedReference reference.place reference.text ∈ referenceFindings data ↔
      parse? reference.text = none ∧ ¬ToAnchor reference.text) ∧
    (ToAnchor reference.text → parse? reference.text = none) := by
  have hanchor (hto : ToAnchor reference.text) : parse? reference.text = none :=
    (parse?_eq_none_iff_of_isRelative hto.1).mpr hto
  refine ⟨?_, hanchor⟩
  rw [unsupportedReference_mem_iff hreference, ReferenceProblem.of?_eq_unsupported_iff]
  refine and_congr_right fun hnone ↦ ?_
  constructor
  · intro hrelative hto
    rw [hto.1] at hrelative
    cases hrelative
  · intro hto
    by_contra hrelative
    exact hto ((parse?_eq_none_iff_of_isRelative (Bool.not_eq_false _ ▸ hrelative)).mp hnone)

def unreadable : Json :=
  .object [("a", .object [("$ref", .string "http://b.json")]),
    ("b", .object [("$ref", .string "./b.json##/x")])]

theorem reported_iff_of_mem_url :
    ⟨⟨["a", "$ref"]⟩, "http://b.json"⟩ ∈ unreadable.references ⟨[]⟩ ∧
      (.unsupportedReference ⟨["a", "$ref"]⟩ "http://b.json" ∈ referenceFindings unreadable ↔
        parse? "http://b.json" = none ∧ ¬ToAnchor "http://b.json") := by
  have hmem : ⟨⟨["a", "$ref"]⟩, "http://b.json"⟩ ∈ unreadable.references ⟨[]⟩ := by decide +kernel
  exact ⟨hmem, (reported_iff_of_mem hmem).1⟩

/-- An event that is declared by an anchor in another file. -/
def anchored : Json :=
  .object [("events", .object [("login", .object [("$ref", .string "./b.json#anchor")])])]

theorem unreported_anchored :
    ⟨⟨["events", "login", "$ref"]⟩, "./b.json#anchor"⟩ ∈ anchored.references ⟨[]⟩ ∧
      parse? "./b.json#anchor" = none ∧ referenceFindings anchored = [] := by
  decide +kernel

end Validation

namespace Resolver

variable {root : Json} {current : Path}

/-- Every reference of the document leads to a value in it. -/
def Closed (root : Json) : Prop :=
  ∀ text ∈ root.referenceTexts, ∃ pointer value,
    Reference.parse? text = some (.internal pointer) ∧ pointer.lookup root = some value

/-- Computations that note no missing reference and fail on a cycle only. -/
def untroubled : Coupling ResolveM ResolveM where
  Holds x _ := ∀ r answer, x.run.run r = some answer → answer.2.missing = r.missing ∧
    ∀ error, answer.1 = .error error → ∃ chain, error = .cyclicReference chain
  holds_pure value r answer hrun := by
    cases hrun
    exact ⟨rfl, fun error herror ↦ nomatch herror⟩
  holds_bind := by
    intro α β x y f g hfirst hnext r answer hrun
    obtain ⟨result, t⟩ := answer
    obtain ⟨error, hx, rfl⟩ | ⟨value, s, hx, hf⟩ := ResolveM.exists_of_run_bind hrun
    · obtain ⟨hmissing, hcyclic⟩ := hfirst r _ hx
      exact ⟨hmissing, fun other hother ↦ Except.error.inj hother ▸ hcyclic error rfl⟩
    · obtain ⟨hmissing, -⟩ := hfirst r _ hx
      obtain ⟨hlater, hlast⟩ := hnext value s _ hf
      exact ⟨hlater.trans hmissing, hlast⟩

theorem untroubled_follow (hclosed : Closed root)
    {next : Json → Path → Fragment → ResolveM Fragment}
    (hnext : ∀ fragment : Fragment, fragment.followed ⊆ root.referenceTexts →
      untroubled.Holds (next root current fragment) (next root current fragment))
    {text : String} (htext : text ∈ root.referenceTexts) :
    untroubled.Holds (follow next root current text) (follow next root current text) := by
  intro r answer hrun
  obtain ⟨pointer, value, hparse, hlookup⟩ := hclosed text htext
  by_cases hactive : (Reference.internal pointer).locate current ∈ r.active
  · rw [run_follow_of_active hparse hactive] at hrun
    obtain rfl := Option.some_injective _ hrun
    exact ⟨rfl, fun error herror ↦ ⟨_, (Except.error.inj herror).symm⟩⟩
  · have hfind : (Reference.internal pointer).find? r.document? root current =
        .ok (some ⟨root, current, value⟩) := by
      rw [Reference.find?, hlookup, Option.map_some]
    have hinside : (Fragment.ofJson value).followed ⊆ root.referenceTexts :=
      List.Subset.trans (Json.followed_ofJson_subset value)
        (Pointer.referenceTexts_lookup hlookup)
    obtain ⟨s, hfollow, -, hmissing⟩ := run_follow_of_found next hparse hactive hfind
    rw [hfollow] at hrun
    obtain ⟨inner, hinner, rfl⟩ := Option.map_eq_some_iff.mp hrun
    obtain ⟨hkept, hcyclic⟩ := hnext _ hinside s inner hinner
    exact ⟨hkept.trans hmissing, hcyclic⟩

/-- The references of what a reference leads to are references of the document again, so the
document stays the same however deep they nest. -/
theorem untroubled_resolveWithin (hclosed : Closed root) (depth : Nat) {fragment : Fragment}
    (hfollowed : fragment.followed ⊆ root.referenceTexts) :
    untroubled.Holds (resolveWithin depth root current fragment)
      (resolveWithin depth root current fragment) := by
  induction depth generalizing fragment with
  | zero =>
    intro r answer hrun
    cases hrun
  | succ depth ih =>
    rw [resolveWithin]
    exact untroubled.expand fragment fun text htext ↦
      untroubled_follow hclosed (fun _ hinner ↦ ih hinner) (hfollowed htext)

theorem closed_of_checked (hinternal : ∀ text, root.Refers text → text.toList.head? = some '#')
    (hchecked : Validation.referenceFindings root = []) : Closed root := by
  intro text htext
  obtain ⟨reference, hreference, rfl⟩ := List.mem_map.mp htext
  have hnone : ReferenceProblem.of? root reference.text = none := by
    rw [Validation.referenceFindings, List.filterMap_eq_nil_iff] at hchecked
    exact Option.map_eq_none_iff.mp (hchecked reference hreference)
  exact ReferenceProblem.exists_of_of?_eq_none (hinternal _ (Json.refers_iff.mpr htext)) hnone

/-- Where all references lead into their own document and none is reported, an event resolves or
is cyclic, and nothing is noted as missing. -/
theorem resolve_of_checked {document : Document}
    (hinternal : ∀ text, document.root.Refers text → text.toList.head? = some '#')
    (hchecked : Validation.referenceFindings document.root = []) {name : String} {schema : Json}
    (hevent : (name, schema) ∈ document.events) (r : Resolver) :
    ((∃ result, (r.resolve (.ofJson schema) document.root document.path).1 = .ok result) ∨
      ∃ chain, (r.resolve (.ofJson schema) document.root document.path).1 =
        .error (.cyclicReference chain)) ∧
    (r.resolve (.ofJson schema) document.root document.path).2.missing = r.missing := by
  have hclosed := closed_of_checked hinternal hchecked
  have hfollowed : (Fragment.ofJson schema).followed ⊆ document.root.referenceTexts :=
    List.Subset.trans (Json.followed_ofJson_subset schema)
      (Document.referenceTexts_subset_of_mem_events hevent)
  have hrun := run_resolve r (.ofJson schema) document.root document.path
  obtain ⟨hmissing, hcyclic⟩ := untroubled_resolveWithin hclosed _ hfollowed r _ hrun
  refine ⟨?_, hmissing⟩
  cases hresult : (r.resolve (.ofJson schema) document.root document.path).1 with
  | ok result => exact .inl ⟨result, rfl⟩
  | error error =>
    obtain ⟨chain, rfl⟩ := hcyclic error hresult
    exact .inr ⟨chain, rfl⟩

/-- One event leads to nothing but an annotation, the other to itself. -/
def chained : Document where
  path := ⟨"a.json"⟩
  root := .object [("definitions", .object [("p", .object [("title", .string "p")])]),
    ("events", .object [("login", .object [("$ref", .string "#/definitions/p")]),
      ("loop", .object [("$ref", .string "#/events/loop")])])]

theorem resolve_of_checked_chained :
    (∀ text, chained.root.Refers text → text.toList.head? = some '#') ∧
      Validation.referenceFindings chained.root = [] ∧
      ((∃ result, (({ source := {} } : Resolver).resolve
          (.ofJson (.object [("$ref", .string "#/events/loop")])) chained.root
            chained.path).1 = .ok result) ∨
        ∃ chain, (({ source := {} } : Resolver).resolve
          (.ofJson (.object [("$ref", .string "#/events/loop")])) chained.root chained.path).1 =
            .error (.cyclicReference chain)) := by
  have hinternal (text : String) (hrefers : chained.root.Refers text) :
      text.toList.head? = some '#' := by
    have hall : ∀ text ∈ chained.root.referenceTexts, text.toList.head? = some '#' := by
      decide +kernel
    exact hall text (Json.refers_iff.mp hrefers)
  have hchecked : Validation.referenceFindings chained.root = [] := by decide +kernel
  have hevent : ("loop", .object [("$ref", .string "#/events/loop")]) ∈ chained.events := by
    decide +kernel
  exact ⟨hinternal, hchecked, (resolve_of_checked hinternal hchecked hevent _).1⟩

end Resolver

end EventSchema
