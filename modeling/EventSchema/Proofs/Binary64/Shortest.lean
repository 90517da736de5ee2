import EventSchema.Proofs.Binary64.Rounding

/-!
# Shortest decimals round to their numbers

The search for a shortest decimal never ends without one: the last grid has 17 digits, and two
neighbours on it are closer than the ends of the rounding interval, so that one of them is in it
(`neighbours_ne_nil`). The search rests on a guess of the leading power of ten, which is never above
the number (`leadingPower_le`). Dropping zeros does not change what a decimal denotes, so the
shortest decimal of a number rounds to it (`roundsTo_shortest`).
-/

set_option autoImplicit false

namespace EventSchema

namespace Binary64

open Decimal (powerRatio powerRatio_snd_pos powerRatio_fst_eq)

variable {x : Binary64}

/-! ### The finest grid -/

theorem unitsPerOne_pos : 0 < unitsPerOne := by decide +kernel

theorem powerRatio_fst_pos (power : Int) : 0 < (powerRatio power).1 := by
  rw [powerRatio]
  split_ifs
  · exact Nat.one_pos
  · exact Nat.pow_pos (by decide)

/-- Where a number has 16 digits in front of the grid, one of its neighbours rounds to it: both
would be outside of the interval only if the grid were coarser than the gaps. -/
theorem roundsTo_or_roundsTo {power : Int}
    (hgrid : unitsPerOne * (powerRatio power).1 * 10 ^ 16 ≤ x.magnitude * (powerRatio power).2) :
    let below := x.magnitude * (powerRatio power).2 / (unitsPerOne * (powerRatio power).1)
    x.roundsTo ⟨below, power⟩ = true ∨ x.roundsTo ⟨below + 1, power⟩ = true := by
  intro below
  obtain ⟨gap, hgap⟩ : ∃ gap, gap = (powerRatio power).2 * Nat.pow 2 x.exponent := ⟨_, rfl⟩
  obtain ⟨step, hstep⟩ : ∃ step, step = unitsPerOne * (powerRatio power).1 := ⟨_, rfl⟩
  have hgapPos : 0 < gap := hgap ▸ Nat.mul_pos (powerRatio_snd_pos power) (Nat.two_pow_pos _)
  have hstepPos : 0 < step :=
    hstep ▸ Nat.mul_pos unitsPerOne_pos (powerRatio_fst_pos power)
  have hmagnitude : x.magnitude * (powerRatio power).2 = x.mantissa * gap := by
    rw [hgap, magnitude]
    ring
  have hbelow : step * below + x.mantissa * gap % step = x.mantissa * gap := by
    rw [← hmagnitude, hstep]
    exact Nat.div_add_mod _ _
  have hrest : x.mantissa * gap % step < step := Nat.mod_lt _ hstepPos
  have hdecimal (digits : Nat) : digits * (powerRatio power).1 * unitsPerOne = step * digits := by
    rw [hstep]
    ring
  rw [← hstep, hmagnitude] at hgrid
  have hsize : x.mantissa * gap + gap ≤ Nat.pow 2 53 * gap := by
    have hmul := Nat.mul_le_mul_right gap x.mantissa_lt
    rwa [Nat.succ_mul] at hmul
  rw [show Nat.pow 2 53 = 9007199254740992 from rfl] at hsize
  simp only [roundsTo_iff, rounds_iff hgap, hdecimal, Nat.mul_add_one]
  split_ifs with hfirst
  · rw [hfirst.1, show Nat.pow 2 52 = 4503599627370496 from rfl] at hgrid hbelow hrest ⊢
    omega
  · omega

theorem neighbours_ne_nil {power : Int}
    (hgrid : unitsPerOne * (powerRatio power).1 * 10 ^ 16 ≤ x.magnitude * (powerRatio power).2) :
    x.neighbours power ≠ [] := by
  have hmem {digits : Nat} (hrounds : x.roundsTo ⟨digits, power⟩ = true)
      (hdigits :
        digits = x.magnitude * (powerRatio power).2 / (unitsPerOne * (powerRatio power).1) ∨
        digits = x.magnitude * (powerRatio power).2 / (unitsPerOne * (powerRatio power).1) + 1) :
      (⟨digits, power⟩ : Decimal) ∈ x.neighbours power := by
    refine List.mem_filter.mpr ⟨List.mem_map.mpr ⟨digits, ?_, rfl⟩, hrounds⟩
    split_ifs <;> simp only [List.mem_cons, List.not_mem_nil, or_false]
    · exact hdigits
    · exact hdigits.symm
  rcases roundsTo_or_roundsTo hgrid with hrounds | hrounds
  · exact List.ne_nil_of_mem (hmem hrounds (.inl rfl))
  · exact List.ne_nil_of_mem (hmem hrounds (.inr rfl))

/-! ### The leading power -/

/-- The guess of the leading power of ten of a number with so many bits. -/
def leadingGuess (bits : Nat) : Int := ((bits : Int) - 1074) * 30103 / 100000

/-- The guess is never above a power of two. -/
theorem leadingGuess_le {bits : Nat} (hbits : bits < 2098) :
    unitsPerOne * (powerRatio (leadingGuess bits)).1 ≤
      Nat.pow 2 bits * (powerRatio (leadingGuess bits)).2 := by
  have hall : (List.range 2098).all fun bits ↦
      (unitsPerOne * (powerRatio (leadingGuess bits)).1).ble
        (Nat.pow 2 bits * (powerRatio (leadingGuess bits)).2) := by decide +kernel
  exact Nat.le_of_ble_eq_true (List.all_eq_true.mp hall bits (List.mem_range.mpr hbits))

theorem log2_mul_pow_lt {mantissa exponent bits limit : Nat}
    (hmantissa : mantissa < Nat.pow 2 bits) (hexponent : exponent ≤ limit) (hbits : 0 < bits) :
    (mantissa * Nat.pow 2 exponent).log2 < bits + limit := by
  by_cases hzero : mantissa * Nat.pow 2 exponent = 0
  · rw [hzero, Nat.log2_zero]
    omega
  · rw [Nat.log2_lt hzero, Nat.pow_add]
    exact Nat.mul_lt_mul_of_lt_of_le hmantissa (Nat.pow_le_pow_right (by decide) hexponent)
      (Nat.two_pow_pos _)

theorem log2_magnitude_lt (x : Binary64) : x.magnitude.log2 < 2098 :=
  log2_mul_pow_lt x.mantissa_lt x.exponent_le (by decide)

/-- The leading power of ten is not above the number. -/
theorem leadingPower_le (hx : x.magnitude ≠ 0) :
    unitsPerOne * (powerRatio x.leadingPower).1 ≤ x.magnitude * (powerRatio x.leadingPower).2 := by
  have hguess : x.leadingPower =
      if x.magnitude * (powerRatio (leadingGuess x.magnitude.log2 + 1)).2 <
          unitsPerOne * (powerRatio (leadingGuess x.magnitude.log2 + 1)).1 then
        leadingGuess x.magnitude.log2
      else leadingGuess x.magnitude.log2 + 1 := rfl
  rw [hguess]
  split_ifs with hlow
  · exact (leadingGuess_le (log2_magnitude_lt x)).trans
      (Nat.mul_le_mul_right _ (Nat.log2_self_le hx))
  · exact Nat.not_lt.mp hlow

theorem powerRatio_sub_sixteen (power : Int) :
    (powerRatio (power - 16)).1 * 10 ^ 16 * (powerRatio power).2 =
      (powerRatio power).1 * (powerRatio (power - 16)).2 := by
  have hcast : (((powerRatio (power - 16)).1 * 10 ^ 16 * (powerRatio power).2 : Nat) : ℚ) =
      ((powerRatio power).1 * (powerRatio (power - 16)).2 : Nat) := by
    push_cast
    rw [powerRatio_fst_eq, powerRatio_fst_eq, zpow_sub₀ (by norm_num)]
    norm_num
    ring
  exact_mod_cast hcast

theorem mul_le_mul_of_scaled {unit size top bottom top' bottom' scale : Nat} (hpos : 0 < bottom)
    (hscale : top' * scale * bottom = top * bottom') (hle : unit * top ≤ size * bottom) :
    unit * top' * scale ≤ size * bottom' := by
  refine Nat.le_of_mul_le_mul_right ?_ hpos
  calc unit * top' * scale * bottom = unit * (top' * scale * bottom) := by ring
    _ = unit * top * bottom' := by rw [hscale, Nat.mul_assoc]
    _ ≤ size * bottom * bottom' := Nat.mul_le_mul_right _ hle
    _ = size * bottom' * bottom := Nat.mul_right_comm _ _ _

/-- The finest grid that is searched has 16 digits after the leading one. -/
theorem neighbours_leadingPower_ne_nil (hx : x.magnitude ≠ 0) :
    x.neighbours (x.leadingPower - 16) ≠ [] :=
  neighbours_ne_nil (mul_le_mul_of_scaled (powerRatio_snd_pos x.leadingPower)
    (powerRatio_sub_sixteen x.leadingPower) (leadingPower_le hx))

/-! ### The search -/

theorem roundsTo_of_mem_neighbours {power : Int} {d : Decimal} (hmem : d ∈ x.neighbours power) :
    x.roundsTo d = true := (List.mem_filter.mp hmem).2

-- The search is opened by hand, with any grids in place of those of the number: the equations that
-- Lean would state for it make it compute powers of two.
theorem shortestFrom_zero (leading : Int) : x.shortestFrom leading 0 =
    ((x.neighbours (leading - 16)).head?).getD ⟨0, 0⟩ := rfl

theorem shortestFrom_succ (leading : Int) (more : Nat) : x.shortestFrom leading (more + 1) =
    match x.neighbours (leading - (16 - (more + 1 : Nat))) with
    | d :: _ => d
    | [] => x.shortestFrom leading more := by
  delta shortestFrom shortestFrom._f
  generalize neighbours x = found
  rfl

/-- The search ends with a decimal that rounds to the number, on the finest grid at the latest. -/
theorem roundsTo_shortestFrom {leading : Int} (hfinest : x.neighbours (leading - 16) ≠ [])
    (more : Nat) : x.roundsTo (x.shortestFrom leading more) = true := by
  induction more with
  | zero =>
    rw [shortestFrom_zero]
    cases hfound : x.neighbours (leading - 16) with
    | nil => exact absurd hfound hfinest
    | cons d rest => exact roundsTo_of_mem_neighbours (List.mem_of_head? (congrArg _ hfound))
  | succ more ih =>
    rw [shortestFrom_succ]
    cases hfound : x.neighbours (leading - (16 - (more + 1 : Nat))) with
    | nil => exact ih
    | cons d rest => exact roundsTo_of_mem_neighbours (List.mem_of_head? (congrArg _ hfound))

theorem value_dropZeros (limit : Nat) (d : Decimal) :
    (Decimal.dropZeros limit d).value = d.value := by
  induction limit generalizing d with
  | zero => rfl
  | succ limit ih =>
    rw [Decimal.dropZeros]
    split_ifs with hzero
    · rw [ih, Decimal.value, Decimal.value, zpow_add_one₀ (by norm_num)]
      have hdigits : (d.digits : ℚ) = 10 * (d.digits / 10 : Nat) := by
        exact_mod_cast (Nat.mul_div_cancel' (Nat.dvd_of_mod_eq_zero hzero.2)).symm
      rw [hdigits]
      ring
    · rfl

/-- The shortest decimal of a number other than zero rounds to it. -/
theorem roundsTo_shortest (hx : x.isZero = false) : x.roundsTo x.shortest = true := by
  have hmantissa : x.mantissa ≠ 0 := by simpa [isZero] using hx
  have hmagnitude : x.magnitude ≠ 0 := Nat.mul_ne_zero hmantissa (Nat.two_pow_pos _).ne'
  rw [shortest, hx, if_neg Bool.false_ne_true]
  exact roundsTo_of_value_eq (value_dropZeros _ _).symm
    (roundsTo_shortestFrom (neighbours_leadingPower_ne_nil hmagnitude) 16)

end Binary64

end EventSchema
