import EventSchema.Text

/-!
# Splitting and joining

Splitting is the inverse of joining: parts that hold no break are found again in the joined text
(`split_join`), and a break between two texts divides the parts of the one from those of the other
(`split_append`). Splitting once finds the first mark (`splitOnce_eq_some_iff`).
-/

set_option autoImplicit false

namespace EventSchema.Text

variable {isBreak : Char → Bool}

theorem split_of_forall_not {text : List Char} (htext : ∀ c ∈ text, isBreak c = false) :
    split isBreak text = [text] := by
  induction text with
  | nil => rfl
  | cons c rest ih =>
    have hc : isBreak c = false := htext c List.mem_cons_self
    have hrest : split isBreak rest = [rest] :=
      ih fun d hd ↦ htext d (List.mem_cons_of_mem _ hd)
    simp [split, hc, hrest]

theorem split_eq_empty_iff {text : List Char} : split isBreak text = [[]] ↔ text = [] := by
  refine ⟨fun hsplit ↦ ?_, fun htext ↦ by rw [htext, split]⟩
  cases text with
  | nil => rfl
  | cons c rest =>
    obtain ⟨part, parts, hparts⟩ := List.exists_cons_of_ne_nil (split_ne_nil isBreak rest)
    rw [split, hparts] at hsplit
    by_cases hc : isBreak c = true
    · simp [hc] at hsplit
    · simp [hc] at hsplit

theorem split_append {mark : Char} (hmark : isBreak mark = true) (before after : List Char) :
    split isBreak (before ++ mark :: after) = split isBreak before ++ split isBreak after := by
  induction before with
  | nil => simp [split, hmark]
  | cons c rest ih =>
    rw [List.cons_append]
    by_cases hc : isBreak c = true
    · simp [split, hc, ih]
    · obtain ⟨part, parts, hparts⟩ := List.exists_cons_of_ne_nil (split_ne_nil isBreak rest)
      rw [hparts] at ih
      simp [split, hc, ih, hparts]

/-- The last part of the first text and the first part of the second make one part. -/
theorem split_append_of {a b last first : List Char} {front tail : List (List Char)}
    (ha : split isBreak a = front ++ [last]) (hb : split isBreak b = first :: tail) :
    split isBreak (a ++ b) = front ++ (last ++ first) :: tail := by
  induction a generalizing front last with
  | nil =>
    cases front with
    | nil =>
      obtain rfl : [] = last := by simpa [split] using ha
      simpa using hb
    | cons part front => simp [split] at ha
  | cons c rest ih =>
    obtain ⟨part, parts, hparts⟩ := List.exists_cons_of_ne_nil (split_ne_nil isBreak rest)
    rw [split, hparts] at ha
    rw [hparts] at ih
    by_cases hc : isBreak c = true
    · rw [if_pos hc] at ha
      cases front with
      | nil => simp at ha
      | cons empty front =>
        obtain ⟨rfl, hrest⟩ := List.cons.inj ha
        simp [split, hc, ih hrest]
    · rw [if_neg hc] at ha
      cases front with
      | nil =>
        obtain ⟨rfl, rfl⟩ : c :: part = last ∧ parts = [] := by simpa using ha
        simp [split, hc, ih (show [part] = [] ++ [part] from rfl)]
      | cons start front =>
        obtain ⟨rfl, rfl⟩ := List.cons.inj ha
        simp [split, hc, ih (show part :: (front ++ [last]) = part :: front ++ [last] from rfl)]

theorem prefix_of_split {text part : List Char} {parts : List (List Char)}
    (hsplit : split isBreak text = part :: parts) : part <+: text := by
  induction text generalizing part parts with
  | nil =>
    obtain ⟨rfl, -⟩ := List.cons.inj hsplit
    exact List.nil_prefix
  | cons c rest ih =>
    obtain ⟨first, others, hrest⟩ := List.exists_cons_of_ne_nil (split_ne_nil isBreak rest)
    rw [split, hrest] at hsplit
    by_cases hc : isBreak c = true
    · rw [if_pos hc] at hsplit
      obtain ⟨rfl, -⟩ := List.cons.inj hsplit
      exact List.nil_prefix
    · rw [if_neg hc] at hsplit
      obtain ⟨rfl, -⟩ := List.cons.inj hsplit
      exact List.cons_prefix_cons.mpr ⟨rfl, ih hrest⟩

/-- No part holds a break. -/
theorem isBreak_of_mem_split {text part : List Char} (hpart : part ∈ split isBreak text) {c : Char}
    (hc : c ∈ part) : isBreak c = false := by
  induction text generalizing part with
  | nil =>
    rw [split, List.mem_singleton] at hpart
    subst hpart
    exact absurd hc List.not_mem_nil
  | cons d rest ih =>
    obtain ⟨first, others, hsplit⟩ := List.exists_cons_of_ne_nil (split_ne_nil isBreak rest)
    rw [split, hsplit] at hpart
    rw [hsplit] at ih
    by_cases hd : isBreak d = true
    · rw [if_pos hd] at hpart
      rcases List.mem_cons.mp hpart with rfl | hrest
      · exact absurd hc List.not_mem_nil
      · exact ih hrest hc
    · rw [if_neg hd] at hpart
      rcases List.mem_cons.mp hpart with rfl | hothers
      · rcases List.mem_cons.mp hc with rfl | hfirst
        · exact Bool.eq_false_iff.mpr hd
        · exact ih List.mem_cons_self hfirst
      · exact ih (List.mem_cons_of_mem _ hothers) hc

/-- What is no break is in a part. -/
theorem exists_mem_split (isBreak : Char → Bool) {text : List Char} {c : Char} (hmem : c ∈ text)
    (hc : isBreak c = false) : ∃ part ∈ split isBreak text, c ∈ part := by
  induction text with
  | nil => exact absurd hmem List.not_mem_nil
  | cons first rest ih =>
    rw [split]
    obtain ⟨part, parts, hparts⟩ := List.exists_cons_of_ne_nil (split_ne_nil isBreak rest)
    rw [hparts] at ih ⊢
    rcases List.mem_cons.mp hmem with rfl | hrest
    · rw [if_neg (by simp [hc])]
      exact ⟨c :: part, List.mem_cons_self, List.mem_cons_self⟩
    · obtain ⟨other, hother, hmem⟩ := ih hrest
      by_cases hfirst : isBreak first = true
      · rw [if_pos hfirst]
        exact ⟨other, List.mem_cons_of_mem _ hother, hmem⟩
      · rw [if_neg hfirst]
        rcases List.mem_cons.mp hother with rfl | hother
        · exact ⟨first :: other, List.mem_cons_self, List.mem_cons_of_mem _ hmem⟩
        · exact ⟨other, List.mem_cons_of_mem _ hother, hmem⟩

theorem split_join {mark : Char} (hmark : isBreak mark = true) {parts : List (List Char)}
    (hne : parts ≠ []) (hparts : ∀ part ∈ parts, ∀ c ∈ part, isBreak c = false) :
    split isBreak (join [mark] parts) = parts := by
  induction parts with
  | nil => exact absurd rfl hne
  | cons part rest ih =>
    have hpart : split isBreak part = [part] :=
      split_of_forall_not (hparts part List.mem_cons_self)
    cases rest with
    | nil => exact hpart
    | cons next others =>
      have hrest := ih (List.cons_ne_nil _ _) fun p hp ↦ hparts p (List.mem_cons_of_mem _ hp)
      rw [join, List.append_assoc, List.singleton_append, split_append hmark, hpart, hrest,
        List.singleton_append]
      exact List.cons_ne_nil _ _

/-! ### The first mark -/

theorem splitOnce_eq_none_iff {mark : Char} {text : List Char} :
    splitOnce mark text = none ↔ mark ∉ text := by
  induction text with
  | nil => simp [splitOnce]
  | cons c rest ih =>
    rw [splitOnce]
    by_cases hc : c = mark
    · simp [hc]
    · simp [hc, ih, Ne.symm hc]

theorem splitOnce_eq_some_iff {mark : Char} {text before after : List Char} :
    splitOnce mark text = some (before, after) ↔
      text = before ++ mark :: after ∧ mark ∉ before := by
  induction text generalizing before with
  | nil => simp [splitOnce]
  | cons c rest ih =>
    rw [splitOnce]
    by_cases hc : c = mark
    · subst hc
      cases before with
      | nil => simp [eq_comm]
      | cons d before =>
        refine iff_of_false (by simp) ?_
        rintro ⟨htext, hmark⟩
        exact hmark (List.mem_cons.mpr (.inl (List.cons.inj htext).1))
    · cases before with
      | nil => simp [hc]
      | cons d before =>
        have hrest := @ih before
        rw [if_neg hc]
        constructor
        · intro hsome
          obtain ⟨⟨first, second⟩, hsplit, hpair⟩ := Option.map_eq_some_iff.mp hsome
          simp only [Prod.mk.injEq, List.cons.injEq] at hpair
          obtain ⟨⟨rfl, rfl⟩, rfl⟩ := hpair
          obtain ⟨rfl, hmark⟩ := hrest.mp hsplit
          exact ⟨rfl, List.not_mem_cons_of_ne_of_not_mem (Ne.symm hc) hmark⟩
        · rintro ⟨htext, hmark⟩
          obtain ⟨rfl, rfl⟩ := List.cons.inj htext
          rw [hrest.mpr ⟨rfl, List.not_mem_of_not_mem_cons hmark⟩, Option.map_some]

end EventSchema.Text
