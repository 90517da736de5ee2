import Mathlib.Data.List.Forall2

/-!
# Outcomes of runs

When a run succeeds all its steps do. Two runs match if both succeed with related values, or both
fail with related errors, and runs match whose steps do (`Matched.bind`, `Matched.mapM`,
`Matched.foldlM`). Two searches are related if both find related values or neither finds anything,
and so are their continuations (`rel_bind`).
-/

set_option autoImplicit false

namespace EventSchema

variable {ε ε' α β : Type}

theorem bind_eq_ok {run : Except ε α} {next : α → Except ε β} {result : β} :
    run >>= next = .ok result ↔ ∃ inner, run = .ok inner ∧ next inner = .ok result := by
  cases run <;> simp [bind, Except.bind]

theorem exists_bind_pure_iff {run : Except ε α} {next : α → β} :
    (∃ result, (run >>= fun inner ↦ pure (next inner)) = .ok result) ↔
      ∃ inner, run = .ok inner := by
  cases run <;> simp [bind, Except.bind, pure, Except.pure]

theorem mapError_eq_ok {run : Except ε α} {change : ε → ε'} {result : α} :
    run.mapError change = .ok result ↔ run = .ok result := by
  cases run with
  | error error => constructor <;> intro hrun <;> cases hrun
  | ok value =>
    constructor
    · intro hrun
      exact congrArg _ (Except.ok.inj hrun)
    · intro hrun
      exact congrArg _ (Except.ok.inj hrun)

theorem map_eq_ok {run : Except ε α} {change : α → β} {result : β} :
    run.map change = .ok result ↔ ∃ inner, run = .ok inner ∧ change inner = result := by
  cases run <;> simp [Except.map]

/-- What a successful pass over a list gives comes from one of its items. -/
theorem exists_of_mem_mapM {next : α → Except ε β} {items : List α} {results : List β}
    (hrun : items.mapM next = .ok results) {result : β} (hmem : result ∈ results) :
    ∃ item ∈ items, next item = .ok result := by
  induction items generalizing results with
  | nil =>
    obtain rfl : [] = results := by simpa [pure, Except.pure] using hrun
    exact absurd hmem List.not_mem_nil
  | cons item rest ih =>
    rw [List.mapM_cons] at hrun
    obtain ⟨first, hfirst, hrun⟩ := bind_eq_ok.mp hrun
    obtain ⟨more, hmore, hresults⟩ := bind_eq_ok.mp hrun
    obtain rfl : first :: more = results := Except.ok.inj hresults
    rcases List.mem_cons.mp hmem with rfl | hmem
    · exact ⟨item, List.mem_cons_self, hfirst⟩
    · obtain ⟨other, hother, hresult⟩ := ih hmore hmem
      exact ⟨other, List.mem_cons_of_mem _ hother, hresult⟩

/-- A successful pass over a list gives something for each of its items. -/
theorem exists_mem_of_mapM {next : α → Except ε β} {items : List α} {results : List β}
    (hrun : items.mapM next = .ok results) {item : α} (hmem : item ∈ items) :
    ∃ result ∈ results, next item = .ok result := by
  induction items generalizing results with
  | nil => exact absurd hmem List.not_mem_nil
  | cons first rest ih =>
    rw [List.mapM_cons] at hrun
    obtain ⟨result, hfirst, hrun⟩ := bind_eq_ok.mp hrun
    obtain ⟨more, hmore, hresults⟩ := bind_eq_ok.mp hrun
    obtain rfl : result :: more = results := Except.ok.inj hresults
    rcases List.mem_cons.mp hmem with rfl | hmem
    · exact ⟨result, List.mem_cons_self, hfirst⟩
    · obtain ⟨other, hother, hresult⟩ := ih hmore hmem
      exact ⟨other, List.mem_cons_of_mem _ hother, hresult⟩

/-- A pass over a list succeeds exactly if every item does. -/
theorem exists_mapM_eq_ok_iff {next : α → Except ε β} {items : List α} :
    (∃ results, items.mapM next = .ok results) ↔
      ∀ item ∈ items, ∃ result, next item = .ok result := by
  induction items with
  | nil => exact iff_of_true ⟨[], rfl⟩ fun _ hmem ↦ absurd hmem List.not_mem_nil
  | cons item rest ih =>
    rw [List.forall_mem_cons, ← ih, List.mapM_cons]
    constructor
    · rintro ⟨results, hrun⟩
      obtain ⟨first, hfirst, hrun⟩ := bind_eq_ok.mp hrun
      obtain ⟨more, hmore, -⟩ := bind_eq_ok.mp hrun
      exact ⟨⟨first, hfirst⟩, more, hmore⟩
    · rintro ⟨⟨first, hfirst⟩, more, hmore⟩
      exact ⟨first :: more, bind_eq_ok.mpr ⟨first, hfirst, bind_eq_ok.mpr ⟨more, hmore, rfl⟩⟩⟩

/-- The first item to fail decides how a pass fails. -/
theorem mapM_eq_error {next : α → Except ε β} {before after : List α} {item : α} {error : ε}
    (hbefore : ∀ other ∈ before, ∃ result, next other = .ok result)
    (hitem : next item = .error error) : (before ++ item :: after).mapM next = .error error := by
  induction before with
  | nil =>
    rw [List.nil_append, List.mapM_cons, hitem]
    rfl
  | cons first rest ih =>
    rw [List.forall_mem_cons] at hbefore
    obtain ⟨⟨result, hfirst⟩, hrest⟩ := hbefore
    rw [List.cons_append, List.mapM_cons, hfirst, ih hrest]
    rfl

/-! ### Two runs -/

/-- Two outcomes with related values, or with related errors. -/
inductive Matched {ε ε' α β : Type} (errors : ε → ε' → Prop) (values : α → β → Prop) :
    Except ε α → Except ε' β → Prop
  | ok {a : α} {b : β} (hvalues : values a b) : Matched errors values (.ok a) (.ok b)
  | error {e : ε} {e' : ε'} (herrors : errors e e') : Matched errors values (.error e) (.error e')

namespace Matched

variable {γ δ : Type} {errors : ε → ε' → Prop} {values : α → β → Prop} {results : γ → δ → Prop}

theorem refl (x : Except ε α) : Matched Eq Eq x x := by
  cases x with
  | ok value => exact .ok rfl
  | error error => exact .error rfl

theorem bind {x : Except ε α} {y : Except ε' β} {f : α → Except ε γ} {g : β → Except ε' δ}
    (hfirst : Matched errors values x y)
    (hnext : ∀ {a b}, values a b → Matched errors results (f a) (g b)) :
    Matched errors results (x >>= f) (y >>= g) := by
  cases hfirst with
  | ok hvalues => exact hnext hvalues
  | error herrors => exact .error herrors

theorem mapError {ζ ζ' : Type} {x : Except ε α} {y : Except ε' β} {change : ε → ζ}
    {change' : ε' → ζ'} {errors' : ζ → ζ' → Prop} (hrun : Matched errors values x y)
    (hchange : ∀ {e e'}, errors e e' → errors' (change e) (change' e')) :
    Matched errors' values (x.mapError change) (y.mapError change') := by
  cases hrun with
  | ok hvalues => exact .ok hvalues
  | error herrors => exact .error (hchange herrors)

theorem map {x : Except ε α} {y : Except ε' β} {change : α → γ} {change' : β → δ}
    (hrun : Matched errors values x y)
    (hchange : ∀ {a b}, values a b → results (change a) (change' b)) :
    Matched errors results (x.map change) (y.map change') := by
  cases hrun with
  | ok hvalues => exact .ok (hchange hvalues)
  | error herrors => exact .error herrors

theorem mapM {items : List α} {others : List β} {f : α → Except ε γ} {g : β → Except ε' δ}
    (hitems : List.Forall₂ values items others)
    (hstep : ∀ {a b}, values a b → Matched errors results (f a) (g b)) :
    Matched errors (List.Forall₂ results) (items.mapM f) (others.mapM g) := by
  induction hitems with
  | nil => exact .ok .nil
  | cons hfirst _ ih =>
    rw [List.mapM_cons, List.mapM_cons]
    exact (hstep hfirst).bind fun hresult ↦ ih.bind fun hmore ↦ .ok (.cons hresult hmore)

theorem foldlM {items : List α} {others : List β} {f : γ → α → Except ε γ}
    {g : δ → β → Except ε' δ} {state : γ} {state' : δ}
    (hitems : List.Forall₂ values items others) (hstate : results state state')
    (hstep : ∀ {s s' a b}, results s s' → values a b → Matched errors results (f s a) (g s' b)) :
    Matched errors results (items.foldlM f state) (others.foldlM g state') := by
  induction hitems generalizing state state' with
  | nil => exact .ok hstate
  | cons hfirst _ ih =>
    rw [List.foldlM_cons, List.foldlM_cons]
    exact (hstep hstate hfirst).bind ih

end Matched

/-! ### Two searches -/

section Searches

variable {α' β' : Type} {R : α → α' → Prop} {S : β → β' → Prop} {x more : Option α}
  {y more' : Option α'}

/-- Related searches that continue in related ways are related. -/
theorem rel_bind {next : α → Option β} {next' : α' → Option β'} (hfirst : Option.Rel R x y)
    (hnext : ∀ value value', R value value' → Option.Rel S (next value) (next' value')) :
    Option.Rel S (x >>= next) (y >>= next') := by
  cases hfirst with
  | none => exact .none
  | some hvalue => exact hnext _ _ hvalue

theorem rel_or (hfirst : Option.Rel R x y) (hmore : Option.Rel R more more') :
    Option.Rel R (x.or more) (y.or more') := by
  cases hfirst with
  | none => exact hmore
  | some hvalue => exact .some hvalue

theorem bind_eq_of_rel {next : α → Option β} {next' : α' → Option β} (hfirst : Option.Rel R x y)
    (hnext : ∀ value value', R value value' → next' value' = next value) :
    y.bind next' = x.bind next := by
  cases hfirst with
  | none => rfl
  | some hvalue => exact hnext _ _ hvalue

theorem isSome_eq_of_rel (hfirst : Option.Rel R x y) : y.isSome = x.isSome := by
  cases hfirst <;> rfl

end Searches

end EventSchema
