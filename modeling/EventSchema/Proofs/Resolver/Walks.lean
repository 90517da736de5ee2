import EventSchema.Proofs.Fragment.Reordered
import EventSchema.Proofs.Resolver.Agreement
import Mathlib

/-!
# The two walks of a resolver

While a resolver walks a fragment, the answers to its references are fixed: what one of them
resolves to, and what is noted for it, does not depend on what was walked before (`Gives`). So a
walk that succeeds puts a table of answers in place (`exists_table_of_run`), and any other walk that
follows the same references, in whatever order, succeeds with the same table. A value that is
resolved as plain JSON and the fragment that it is classified as are two such walks: they succeed
together, with the same value up to the order of members, and note the same missing references up
to order (`resolve_ofJson_agrees`).
-/

set_option autoImplicit false

namespace EventSchema.Resolver

/-- Resolves a value of the document `root` at `current` as plain JSON. -/
def resolveJson (r : Resolver) (value root : Json) (current : Path) :
    Except ResolutionError Json × Resolver :=
  ((value.expand (follow (resolveWithin (r.places root current (.any value)).length)
    root current)).run.run r).getD (.error (.cyclicReference []), r)

variable {r : Resolver} {root : Json} {current : Path}

/-- That is how a fragment of no class is resolved. -/
theorem resolve_any (r : Resolver) (value root : Json) (current : Path) :
    r.resolve (.any value) root current =
      ((r.resolveJson value root current).1.map .any, (r.resolveJson value root current).2) := by
  rw [resolve, resolveJson, depthLimit, resolveWithin, Fragment.expand]
  generalize value.expand (m := ResolveM) _ = walk
  cases hwalk : walk.run.run r with
  | none =>
    rw [ResolveM.run_bind_of_none hwalk]
    rfl
  | some answer =>
    obtain ⟨result, s⟩ := answer
    cases result with
    | error error =>
      rw [ResolveM.run_bind_of_error hwalk]
      rfl
    | ok value =>
      rw [ResolveM.run_bind_of_ok hwalk]
      rfl

/-! ### Walks with fixed answers -/

/-- From every resolver alike to `r` the computation gives the value and notes the missing
references. -/
def Gives {α : Type} (r : Resolver) (x : ResolveM α) (value : α) (noted : List MissingReference) :
    Prop :=
  ∀ s, Alike r s →
    ∃ t, x.run.run s = some (.ok value, t) ∧ Alike r t ∧ t.missing = s.missing ++ noted

/-- Computations that give a value and note what is noted for each of their references. -/
def giving (r : Resolver) (noted : String → List MissingReference) :
    TracedCoupling ResolveM Id where
  Holds texts x value := Gives r x value (texts.flatMap noted)
  holds_pure value s hs := ⟨s, rfl, hs, (List.append_nil _).symm⟩
  holds_bind := by
    intro α β texts more x value f g hfirst hnext s hs
    obtain ⟨t, hx, ht, hmissing⟩ := hfirst s hs
    obtain ⟨u, hf, hu, hmissing'⟩ := hnext value t ht
    refine ⟨u, (ResolveM.run_bind_of_ok hx f).trans hf, hu, ?_⟩
    rw [hmissing', hmissing, List.flatMap_append, List.append_assoc]

/-- Computations that succeed only if each of their references has an answer. -/
def answering (r : Resolver) (Answered : String → Prop) : TracedCoupling ResolveM ResolveM where
  Holds texts x _ := ∀ s t value, Alike r s → x.run.run s = some (.ok value, t) →
    Alike r t ∧ ∀ text ∈ texts, Answered text
  holds_pure value s t value' hs hrun := by
    cases hrun
    exact ⟨hs, fun text hmem ↦ absurd hmem List.not_mem_nil⟩
  holds_bind := by
    intro α β texts more x y f g hfirst hnext s t value hs hrun
    obtain ⟨inner, s', hx, hf⟩ := ResolveM.exists_of_run_bind_eq_ok hrun
    obtain ⟨hs', htexts⟩ := hfirst s s' inner hs hx
    obtain ⟨ht, hmore⟩ := hnext inner s' t value hs' hf
    exact ⟨ht, List.forall_mem_append.mpr ⟨htexts, hmore⟩⟩

/-- What following a reference gives once, it gives always. -/
theorem gives_of_run {depth : Nat} {text : String} {value : Fragment} {s t : Resolver}
    (halike : Alike r s)
    (hrun : (follow (resolveWithin depth) root current text).run.run s = some (.ok value, t)) :
    Alike r t ∧ ∃ noted, Gives r (follow (resolveWithin depth) root current text) value noted := by
  have hagreement : (agreement id).Holds (follow (resolveWithin depth) root current text)
      (follow (resolveWithin depth) root current text) :=
    agreement_follow (fun root fragment _ _ hseen ↦ agreement_resolveWithin depth root fragment
      hseen) root (.refl id current) text
  have hanswer (s' : Resolver) (hs' : Alike r s') : ∃ t' noted,
      (follow (resolveWithin depth) root current text).run.run s' = some (.ok value, t') ∧
        Alike s t ∧ Alike s' t' ∧ t.missing = s.missing ++ noted ∧
        t'.missing = s'.missing ++ noted := by
    have hsame := hagreement s s' (halike.symm.trans hs')
    rw [hrun] at hsame
    generalize (follow (resolveWithin depth) root current text).run.run s' = answer at hsame
    cases hsame with
    | some noted noted' hresult hnoted hleft hright hmissing hmissing' =>
      cases hresult with
      | ok hvalue =>
        rw [MissingReference.respell_id, List.map_id, List.map_id] at hnoted
        subst hvalue hnoted
        exact ⟨_, noted, rfl, hleft, hright, hmissing, hmissing'⟩
  obtain ⟨-, noted, -, ht, -, hmissing, -⟩ := hanswer r (.refl r)
  refine ⟨halike.trans ht, noted, fun s' hs' ↦ ?_⟩
  obtain ⟨t', noted', hrun', -, ht', hnoted, hmissing'⟩ := hanswer s' hs'
  obtain rfl : noted = noted' := List.append_cancel_left (hmissing.symm.trans hnoted)
  exact ⟨t', hrun', hs'.trans ht', hmissing'⟩

variable {fragment other : Fragment}

/-- Where a walk succeeds, each of its references has an answer, and every walk that follows no
others succeeds with these answers. -/
theorem exists_table_of_run {depth : Nat} {value : Fragment} {t : Resolver}
    (hrun : (resolveWithin (depth + 1) root current fragment).run.run r = some (.ok value, t)) :
    ∃ denote noted, ∀ other : Fragment, (∀ text ∈ other.followed, text ∈ fragment.followed) →
      Gives r (resolveWithin (depth + 1) root current other) (other.substitute denote)
        (other.followed.flatMap noted) := by
  let Answered (text : String) : Prop := ∃ value noted,
    Gives r (follow (resolveWithin depth) root current text) value noted
  have hfollow (text : String) (_ : text ∈ fragment.followed) :
      (answering r Answered).Holds [text] (follow (resolveWithin depth) root current text)
        (follow (resolveWithin depth) root current text) := by
    intro s t value hs htext
    obtain ⟨ht, hgives⟩ := gives_of_run hs htext
    exact ⟨ht, List.forall_mem_singleton.mpr ⟨value, hgives⟩⟩
  have hanswered := (answering r Answered).expand fragment hfollow r t value (.refl r) hrun
  have htable (text : String) : ∃ value noted, text ∈ fragment.followed →
      Gives r (follow (resolveWithin depth) root current text) value noted := by
    by_cases hmem : text ∈ fragment.followed
    · obtain ⟨value, noted, hgives⟩ := hanswered.2 text hmem
      exact ⟨value, noted, fun _ ↦ hgives⟩
    · exact ⟨.absent, [], fun h ↦ absurd h hmem⟩
  choose denote noted hgives using htable
  refine ⟨denote, noted, fun other hsubset ↦ ?_⟩
  rw [resolveWithin]
  refine (giving r noted).expand other fun text hmem ↦ ?_
  have htext := hgives text (hsubset text hmem)
  rw [← List.flatMap_singleton noted text] at htext
  exact htext

/-- Two fragments that follow the same references, up to order, resolve with the same table of
answers. -/
theorem exists_table_of_resolve (hfollowed : other.followed.Perm fragment.followed)
    {value : Fragment} (hok : (r.resolve fragment root current).1 = .ok value) :
    ∃ denote noted, value = fragment.substitute denote ∧
      (r.resolve other root current).1 = .ok (other.substitute denote) ∧
      (r.resolve fragment root current).2.missing =
        r.missing ++ fragment.followed.flatMap noted ∧
      (r.resolve other root current).2.missing = r.missing ++ other.followed.flatMap noted := by
  have hrun := run_resolve r fragment root current
  have hanswer : r.resolve fragment root current =
      (.ok value, (r.resolve fragment root current).2) := Prod.ext hok rfl
  rw [depthLimit, hanswer] at hrun
  obtain ⟨denote, noted, hgives⟩ := exists_table_of_run hrun
  obtain ⟨t, hfragment, -, hmissing⟩ := hgives fragment (fun _ hmem ↦ hmem) r (.refl r)
  obtain ⟨u, hother, -, hmissing'⟩ :=
    hgives other (fun _ hmem ↦ hfollowed.mem_iff.mp hmem) r (.refl r)
  have hresolve := run_eq_resolve r fragment root current hfragment
  have hresolve' := run_eq_resolve r other root current hother
  refine ⟨denote, noted, ?_, ?_, ?_, ?_⟩
  · exact Except.ok.inj (hok.symm.trans (congrArg Prod.fst hresolve.symm))
  · rw [← hresolve']
  · rw [← hresolve, hmissing]
  · rw [← hresolve', hmissing']

/-! ### Plain values and classified ones -/

/-- A value of the document resolves as plain JSON exactly if what it is classified as resolves,
and then the two results are the same JSON up to the order of members, and the same missing
references are noted up to order, unless on the way there is a typed object whose map of properties
is a reference or a composition too. -/
theorem resolve_ofJson_agrees (r : Resolver) (root : Json) (current : Path) {value : Json}
    (hdistinct : value.Distinct) (hclear : ¬value.Ambiguous) :
    ((∃ plain, (r.resolveJson value root current).1 = .ok plain) ↔
        ∃ typed, (r.resolve (.ofJson value) root current).1 = .ok typed) ∧
      ∀ plain typed, (r.resolveJson value root current).1 = .ok plain →
        (r.resolve (.ofJson value) root current).1 = .ok typed →
        plain.Reordered typed.toJson ∧
          (r.resolveJson value root current).2.missing.Perm
            (r.resolve (.ofJson value) root current).2.missing := by
  have hfollowed : (Fragment.ofJson value).followed.Perm (Fragment.any value).followed := by
    rw [Fragment.followed.eq_1]
    exact Fragment.perm_followed_ofJson hdistinct hclear
  have hplain {result : Json} (hok : (r.resolveJson value root current).1 = .ok result) :
      (r.resolve (.any value) root current).1 = .ok (.any result) := by
    rw [resolve_any, hok]
    rfl
  refine ⟨⟨fun ⟨result, hok⟩ ↦ ?_, fun ⟨typed, hok⟩ ↦ ?_⟩, fun result typed hok hok' ↦ ?_⟩
  · obtain ⟨denote, noted, -, htyped, -⟩ := exists_table_of_resolve hfollowed (hplain hok)
    exact ⟨_, htyped⟩
  · obtain ⟨denote, noted, -, hany, -⟩ := exists_table_of_resolve hfollowed.symm hok
    rw [resolve_any] at hany
    obtain ⟨result, hresult, -⟩ := map_eq_ok.mp hany
    exact ⟨result, hresult⟩
  · obtain ⟨denote, noted, hresult, htyped, hmissing, hmissing'⟩ :=
      exists_table_of_resolve hfollowed (hplain hok)
    rw [Fragment.substitute_any, Fragment.any.injEq] at hresult
    rw [hok', Except.ok.injEq] at htyped
    rw [hresult, htyped]
    refine ⟨Fragment.reordered_substitute denote hdistinct hclear, ?_⟩
    rw [resolve_any] at hmissing
    rw [hmissing, hmissing']
    exact .append_left _ (hfollowed.symm.flatMap_right _)

/-- A typed object that lists its properties first, one of them a reference. -/
def listedFirst : Json :=
  .object [("properties", .object [("id", .object [("$ref", .string "#/id")])]),
    ("type", .string "object")]

def identifierRoot : Json := .object [("id", .object [("type", .string "integer")])]

theorem distinct_listedFirst : listedFirst.Distinct := by
  have hentry (key : String) {value : Json} (hvalue : value.Distinct) :
      (Json.object [(key, value)]).Distinct := Json.Distinct.empty.insert key hvalue
  have hproperties := hentry "properties" (hentry "id" (hentry "$ref" (.string "#/id")))
  exact hproperties.insert "type" (.string "object")

theorem not_ambiguous_listedFirst : ¬listedFirst.Ambiguous := by
  have hproperties : Entries.get? [("properties", Json.object
      [("id", .object [("$ref", .string "#/id")])]), ("type", .string "object")] "properties" =
        some (.object [("id", .object [("$ref", .string "#/id")])]) := by decide
  intro hambiguous
  cases hambiguous with
  | here _ hdeclared hnode =>
    cases hproperties.symm.trans hdeclared
    exact absurd hnode (by decide)
  | property _ hdeclared hmem hvalue =>
    cases hproperties.symm.trans hdeclared
    cases List.mem_singleton.mp hmem
    cases hvalue with
    | here hshape _ _ | property hshape _ _ _ | additional hshape _ _ | items hshape _ _ =>
      exact absurd hshape (by simp [Fragment.shape, Entries.get?, Json.asString?])
  | additional _ hget _ | items _ hget _ => exact absurd hget (by simp [Entries.get?])

theorem resolve_ofJson_agrees_listedFirst : ∃ plain typed,
    (({ source := {} } : Resolver).resolveJson listedFirst identifierRoot ⟨"a.json"⟩).1 =
        .ok plain ∧
      (({ source := {} } : Resolver).resolve (.ofJson listedFirst) identifierRoot ⟨"a.json"⟩).1 =
        .ok typed ∧
      plain ≠ typed.toJson ∧ plain.Reordered typed.toJson := by
  obtain ⟨⟨hsucceeds, -⟩, hsame⟩ := resolve_ofJson_agrees { source := {} } identifierRoot
    ⟨"a.json"⟩ distinct_listedFirst not_ambiguous_listedFirst
  have hplain : (({ source := {} } : Resolver).resolveJson listedFirst identifierRoot
      ⟨"a.json"⟩).1 = .ok (.object [("properties", .object
        [("id", .object [("type", .string "integer")])]), ("type", .string "object")]) := by cbv
  obtain ⟨typed, htyped⟩ := hsucceeds ⟨_, hplain⟩
  refine ⟨_, typed, hplain, htyped, fun heq ↦ ?_, (hsame _ _ hplain htyped).1⟩
  have htyped' : (({ source := {} } : Resolver).resolve (.ofJson listedFirst) identifierRoot
      ⟨"a.json"⟩).1 = .ok (.object (some [("id", .primitive .integer none [])]) none none []) := by
    cbv
  cases htyped.symm.trans htyped'
  exact absurd heq (by decide)

/-- A typed object whose map of properties is a reference too. -/
def referredProperties : Json :=
  .object [("type", .string "object"), ("properties", .object [("$ref", .string "#/properties")])]

def propertiesRoot : Json :=
  .object [("properties", .object [("id", .object [("type", .string "integer")])])]

/-- As plain JSON the map is followed, and as a fragment it declares a property `$ref`. -/
theorem resolve_ofJson_differs : ∃ plain typed,
    (({ source := {} } : Resolver).resolveJson referredProperties propertiesRoot ⟨"a.json"⟩).1 =
        .ok plain ∧
      (({ source := {} } : Resolver).resolve (.ofJson referredProperties) propertiesRoot
        ⟨"a.json"⟩).1 = .ok typed ∧
      ¬plain.Reordered typed.toJson := by
  refine ⟨.object [("type", .string "object"), ("properties", .object
      [("id", .object [("type", .string "integer")])])],
    .object (some [("$ref", .any (.string "#/properties"))]) none none [], by cbv, by cbv, ?_⟩
  intro hreordered
  have hwritten : (Fragment.object (some [("$ref", .any (.string "#/properties"))]) none none
      []).toJson = referredProperties := by decide
  rw [hwritten, referredProperties] at hreordered
  obtain ⟨declared, hdeclared, hproperties⟩ :=
    hreordered.exists_member (List.mem_cons_of_mem _ List.mem_cons_self)
  obtain rfl : declared = .object [("id", .object [("type", .string "integer")])] := by
    simpa using hdeclared
  obtain ⟨target, htarget, -⟩ := hproperties.exists_member List.mem_cons_self
  exact absurd (List.mem_singleton.mp htarget) (by simp)

end EventSchema.Resolver
