import EventSchema.Binary64.Shortest
import Mathlib.Algebra.Order.Field.Rat
import Mathlib.Tactic.FieldSimp
import Mathlib.Tactic.Linarith
import Mathlib.Tactic.NormNum
import Mathlib.Tactic.Ring

/-!
# Rounding to a number

The quotients that round to a number lie in its rounding interval, and every quotient in it rounds
to the number (`ofRatio_of_rounds`): above the power of two that starts the mantissas of an exponent
it has the exponent of the number, and below it the exponent before, where the mantissa overflows.
-/

set_option autoImplicit false

namespace EventSchema

namespace Binary64

/-! ### Quotients -/

/-- A quotient rounds to the integer that it is within a half of, and to an even one at a half. -/
theorem roundQuotient_eq {numerator denominator result : Nat} (hpos : 0 < denominator)
    (hlow : 2 * (result * denominator) ≤ 2 * numerator + denominator)
    (hhigh : 2 * numerator ≤ 2 * (result * denominator) + denominator)
    (hodd : result % 2 = 1 → 2 * (result * denominator) < 2 * numerator + denominator ∧
      2 * numerator < 2 * (result * denominator) + denominator) :
    roundQuotient numerator denominator = result := by
  have hdiv : denominator * (numerator / denominator) + numerator % denominator = numerator :=
    Nat.div_add_mod numerator denominator
  have hmod : numerator % denominator < denominator := Nat.mod_lt _ hpos
  rw [roundQuotient]
  generalize numerator / denominator = quotient at hdiv ⊢
  generalize numerator % denominator = rest at hdiv hmod ⊢
  subst hdiv
  -- The quotient is the result or the number before it.
  have hle : quotient ≤ result := by
    by_contra hlt
    have hmul : (result + 1) * denominator ≤ quotient * denominator :=
      Nat.mul_le_mul_right _ (Nat.not_le.mp hlt)
    rw [Nat.add_mul, Nat.one_mul, Nat.mul_comm quotient] at hmul
    omega
  have hge : result ≤ quotient + 1 := by
    by_contra hlt
    have hmul : (quotient + 2) * denominator ≤ result * denominator :=
      Nat.mul_le_mul_right _ (Nat.not_le.mp hlt)
    rw [Nat.add_mul, Nat.mul_comm quotient] at hmul
    omega
  rcases Nat.lt_or_eq_of_le hge with hlt | rfl
  · obtain rfl : quotient = result := by omega
    rw [Nat.mul_comm quotient] at hlow hhigh hodd
    split_ifs <;> omega
  · rw [Nat.add_mul, Nat.one_mul, Nat.mul_comm quotient] at hlow hhigh hodd
    split_ifs <;> omega

/-! ### The rounding interval -/

/-- Whether the quotient is in the interval of the numbers that round to `x`. -/
def Rounds (x : Binary64) (numerator denominator : Nat) : Prop :=
  x.roundingInterval.1 * denominator ≤ 4 * numerator ∧
    4 * numerator ≤ x.roundingInterval.2 * denominator ∧
    (x.mantissa % 2 = 1 → x.roundingInterval.1 * denominator < 4 * numerator ∧
      4 * numerator < x.roundingInterval.2 * denominator)

variable {x : Binary64} {negative : Bool} {numerator denominator : Nat}

/-- The interval reaches half a gap up and half a gap down, but a quarter below the first mantissa
of an exponent, where the gaps are half as wide. -/
theorem rounds_iff {gap : Nat} (hgap : gap = denominator * Nat.pow 2 x.exponent) :
    x.Rounds numerator denominator ↔
      4 * (x.mantissa * gap) ≤ 4 * numerator +
          (if x.mantissa = Nat.pow 2 52 ∧ x.exponent ≠ 0 then gap else 2 * gap) ∧
        4 * numerator ≤ 4 * (x.mantissa * gap) + 2 * gap ∧
        (x.mantissa % 2 = 1 → 4 * (x.mantissa * gap) < 4 * numerator +
            (if x.mantissa = Nat.pow 2 52 ∧ x.exponent ≠ 0 then gap else 2 * gap) ∧
          4 * numerator < 4 * (x.mantissa * gap) + 2 * gap) := by
  have hmagnitude : x.magnitude * denominator = x.mantissa * gap := by
    rw [hgap, magnitude]
    ring
  have hunit : Nat.pow 2 x.exponent * denominator = gap := by rw [hgap, Nat.mul_comm]
  -- The lower end is cut off at zero only for the mantissa zero, which is even.
  have hcut : x.mantissa = 0 ∨ gap ≤ x.mantissa * gap := by
    rcases Nat.eq_zero_or_pos x.mantissa with hzero | hpositive
    · exact .inl hzero
    · exact .inr (Nat.le_mul_of_pos_left gap hpositive)
  simp only [Rounds, roundingInterval, Nat.sub_mul, Nat.add_mul, Nat.mul_assoc]
  split_ifs with hfirst
  · simp only [hmagnitude, hunit]
    omega
  · simp only [Nat.mul_assoc, hmagnitude, hunit]
    omega

/-- The exponent that a quotient is rounded with, when it fills 53 bits. -/
theorem log2_div_eq {power : Nat} (hpos : 0 < denominator)
    (hlow : Nat.pow 2 52 * (denominator * Nat.pow 2 power) ≤ numerator)
    (hhigh : numerator < Nat.pow 2 53 * (denominator * Nat.pow 2 power)) :
    Nat.log2 (numerator / denominator) - 52 = power := by
  have hscale (bits : Nat) : Nat.pow 2 bits * (denominator * Nat.pow 2 power) =
      2 ^ (power + bits) * denominator := by
    change 2 ^ bits * (denominator * 2 ^ power) = _
    ring
  rw [hscale] at hlow hhigh
  have hquotient : 2 ^ (power + 52) ≤ numerator / denominator :=
    (Nat.le_div_iff_mul_le hpos).mpr hlow
  have hne : numerator / denominator ≠ 0 :=
    Nat.pos_iff_ne_zero.mp (Nat.lt_of_lt_of_le (Nat.two_pow_pos _) hquotient)
  have hlog : Nat.log2 (numerator / denominator) = power + 52 :=
    (Nat.log2_eq_iff hne).mpr ⟨hquotient, (Nat.div_lt_iff_lt_mul hpos).mpr hhigh⟩
  omega

/-- The exponent that a small quotient is rounded with. -/
theorem log2_div_eq_zero (hpos : 0 < denominator) (hhigh : numerator < Nat.pow 2 53 * denominator) :
    Nat.log2 (numerator / denominator) - 52 = 0 := by
  by_cases hzero : numerator / denominator = 0
  · rw [hzero]
    rfl
  · have hlog := (Nat.log2_lt hzero).mpr ((Nat.div_lt_iff_lt_mul hpos).mpr hhigh)
    omega

section Gap

variable {gap half : Nat} (hgap : gap = denominator * Nat.pow 2 x.exponent)
  (hrounds : x.Rounds numerator denominator)

include hgap hrounds

theorem Rounds.lt_pow (hpos : 0 < denominator) : numerator < Nat.pow 2 53 * gap := by
  obtain ⟨-, hhigh, -⟩ := (rounds_iff hgap).mp hrounds
  have hgapPos : 0 < gap := hgap ▸ Nat.mul_pos hpos (Nat.two_pow_pos _)
  have hmul : (x.mantissa + 1) * gap ≤ Nat.pow 2 53 * gap := Nat.mul_le_mul_right _ x.mantissa_lt
  rw [Nat.add_mul, Nat.one_mul] at hmul
  omega

theorem Rounds.roundQuotient_eq_mantissa (hpos : 0 < denominator) :
    roundQuotient numerator gap = x.mantissa := by
  obtain ⟨hlow, hhigh, hodd⟩ := (rounds_iff hgap).mp hrounds
  have hgapPos : 0 < gap := hgap ▸ Nat.mul_pos hpos (Nat.two_pow_pos _)
  refine roundQuotient_eq hgapPos ?_ (by omega) fun h ↦ ?_
  · split_ifs at hlow <;> omega
  · have hstrict := hodd h
    split_ifs at hstrict <;> omega

theorem Rounds.log2_eq_exponent (hpos : 0 < denominator)
    (hfills : x.exponent = 0 ∨ Nat.pow 2 52 * gap ≤ numerator) :
    Nat.log2 (numerator / denominator) - 52 = x.exponent := by
  have hbelow := hrounds.lt_pow hgap hpos
  rcases hfills with hzero | habove
  · rw [hzero]
    obtain rfl : gap = denominator := by rw [hgap, hzero, Nat.pow_eq, Nat.pow_zero, Nat.mul_one]
    exact log2_div_eq_zero hpos hbelow
  · exact log2_div_eq hpos (hgap ▸ habove) (hgap ▸ hbelow)

/-- Only below the first mantissa of an exponent do quotients with the exponent before round to a
number of the exponent. -/
theorem Rounds.mantissa_eq (hexponent : x.exponent ≠ 0) (hlower : numerator < Nat.pow 2 52 * gap) :
    x.mantissa = Nat.pow 2 52 := by
  obtain ⟨hlow, -, -⟩ := (rounds_iff hgap).mp hrounds
  by_contra hne
  rw [if_neg fun h ↦ hne h.1] at hlow
  have hmore : Nat.pow 2 52 + 1 ≤ x.mantissa :=
    Nat.lt_of_le_of_ne (x.normalised.resolve_left hexponent) (Ne.symm hne)
  have hmul := Nat.mul_le_mul_right gap hmore
  rw [Nat.add_mul, Nat.one_mul] at hmul
  omega

/-- There the quotient fills 53 bits with the exponent before, up to the last half of a gap. -/
theorem Rounds.half_bounds (hexponent : x.exponent ≠ 0) (hdouble : gap = 2 * half)
    (hlower : numerator < Nat.pow 2 52 * gap) :
    Nat.pow 2 52 * half ≤ numerator ∧ numerator < Nat.pow 2 53 * half ∧
      2 * (Nat.pow 2 53 * half) ≤ 2 * numerator + half := by
  obtain ⟨hlow, -, -⟩ := (rounds_iff hgap).mp hrounds
  have hmin := hrounds.mantissa_eq hgap hexponent hlower
  have hsmall : Nat.pow 2 52 = 4503599627370496 := rfl
  have hlarge : Nat.pow 2 53 = 9007199254740992 := rfl
  rw [if_pos ⟨hmin, hexponent⟩, hmin, hsmall, hdouble] at hlow
  rw [hsmall, hdouble] at hlower
  rw [hsmall, hlarge]
  omega

end Gap

/-- What lies in the rounding interval of a number rounds to it. Below the first mantissa of an
exponent it has the exponent before, and its mantissa is rounded up to one bit too many. -/
theorem pack_of_rounds (hpos : 0 < denominator) (hrounds : x.Rounds numerator denominator) :
    pack negative (roundQuotient numerator (denominator * Nat.pow 2
      (Nat.log2 (numerator / denominator) - 52))) (Nat.log2 (numerator / denominator) - 52) =
        some { x with negative := negative } := by
  obtain ⟨gap, hgap⟩ : ∃ gap, gap = denominator * Nat.pow 2 x.exponent := ⟨_, rfl⟩
  by_cases hfills : x.exponent = 0 ∨ Nat.pow 2 52 * gap ≤ numerator
  · rw [hrounds.log2_eq_exponent hgap hpos hfills, ← hgap,
      hrounds.roundQuotient_eq_mantissa hgap hpos, pack, dif_pos x.mantissa_lt,
      dif_pos ⟨x.exponent_le, x.normalised⟩]
  · obtain ⟨hexponent, hlower⟩ := not_or.mp hfills
    rw [Nat.not_le] at hlower
    have hmin := hrounds.mantissa_eq hgap hexponent hlower
    obtain ⟨sign, mantissa, exponent, hmantissa, hle, hnormal⟩ := x
    simp only at hgap hexponent hmin
    obtain ⟨power, rfl⟩ := Nat.exists_eq_succ_of_ne_zero hexponent
    obtain ⟨half, hhalf⟩ : ∃ half, half = denominator * Nat.pow 2 power := ⟨_, rfl⟩
    have hdouble : gap = 2 * half := by
      rw [hgap, hhalf, Nat.pow_eq, Nat.pow_eq, Nat.pow_succ]
      ring
    obtain ⟨habove, hbelow, hnear⟩ := hrounds.half_bounds hgap hexponent hdouble hlower
    have hlog : Nat.log2 (numerator / denominator) - 52 = power :=
      log2_div_eq hpos (hhalf ▸ habove) (hhalf ▸ hbelow)
    have hround : roundQuotient numerator half = Nat.pow 2 53 := by
      have hhalfPos : 0 < half := hhalf ▸ Nat.mul_pos hpos (Nat.two_pow_pos _)
      exact roundQuotient_eq hhalfPos hnear (by omega) fun hodd ↦ absurd hodd (by decide)
    rw [hlog, ← hhalf, hround, pack, dif_neg (Nat.lt_irrefl _), dif_pos hle]
    simp only [hmin]

theorem ofRatio_of_rounds (hpos : 0 < denominator)
    (hrounds : x.Rounds (numerator * unitsPerOne) denominator) :
    ofRatio negative numerator denominator = some { x with negative := negative } := by
  rw [ofRatio]
  exact pack_of_rounds hpos hrounds

/-- Whether a quotient is in the interval does not depend on how it is written. -/
theorem rounds_mul_right_iff {factor : Nat} (hfactor : 0 < factor) :
    x.Rounds (numerator * factor) (denominator * factor) ↔ x.Rounds numerator denominator := by
  simp only [Rounds, ← Nat.mul_assoc, Nat.mul_le_mul_right_iff hfactor,
    Nat.mul_lt_mul_right hfactor]

theorem Rounds.of_mul_eq {numerator' denominator' : Nat} (hpos : 0 < denominator)
    (hpos' : 0 < denominator') (hsame : numerator' * denominator = numerator * denominator')
    (hrounds : x.Rounds numerator denominator) : x.Rounds numerator' denominator' := by
  rw [← rounds_mul_right_iff hpos, hsame, Nat.mul_comm denominator', rounds_mul_right_iff hpos']
  exact hrounds

end Binary64

/-! ### Decimals -/

namespace Decimal

/-- The rational number that the decimal denotes. -/
def value (d : Decimal) : ℚ := d.digits * 10 ^ d.power

/-- The number nearest to the decimal, with the even mantissa of two; none if it is too large. -/
def nearest? (d : Decimal) : Option Binary64 :=
  Binary64.ofRatio false (d.digits * (powerRatio d.power).1) (powerRatio d.power).2

theorem powerRatio_snd_pos (power : Int) : 0 < (powerRatio power).2 := by
  rw [powerRatio]
  split_ifs
  · exact Nat.pow_pos (by decide)
  · exact Nat.one_pos

/-- The two factors make the power. -/
theorem powerRatio_fst_eq (power : Int) :
    ((powerRatio power).1 : ℚ) = 10 ^ power * (powerRatio power).2 := by
  rw [powerRatio]
  split_ifs with hnegative
  · obtain ⟨size, hsize⟩ := Int.eq_ofNat_of_zero_le (Int.neg_nonneg_of_nonpos hnegative.le)
    obtain rfl : power = -size := by omega
    simp
  · obtain ⟨size, rfl⟩ := Int.eq_ofNat_of_zero_le (Int.not_lt.mp hnegative)
    simp

/-- Decimals of one value are one quotient. -/
theorem mul_powerRatio_eq {d d' : Decimal} (hvalue : d.value = d'.value) :
    d.digits * (powerRatio d.power).1 * (powerRatio d'.power).2 =
      d'.digits * (powerRatio d'.power).1 * (powerRatio d.power).2 := by
  have hcast : ((d.digits * (powerRatio d.power).1 * (powerRatio d'.power).2 : Nat) : ℚ) =
      (d'.digits * (powerRatio d'.power).1 * (powerRatio d.power).2 : Nat) := by
    push_cast
    rw [powerRatio_fst_eq, powerRatio_fst_eq, ← mul_assoc, ← mul_assoc, ← value, ← value, hvalue]
    ring
  exact_mod_cast hcast

end Decimal

namespace Binary64

theorem roundsTo_iff {x : Binary64} {d : Decimal} : x.roundsTo d = true ↔
    x.Rounds (d.digits * (Decimal.powerRatio d.power).1 * unitsPerOne)
      (Decimal.powerRatio d.power).2 := by
  have hvalue : 4 * d.digits * unitsPerOne * (Decimal.powerRatio d.power).1 =
      4 * (d.digits * (Decimal.powerRatio d.power).1 * unitsPerOne) := by ring
  simp only [roundsTo, Rounds, hvalue]
  rcases Nat.mod_two_eq_zero_or_one x.mantissa with heven | hodd
  · simp [heven]
  · rw [if_neg (by omega), Bool.and_eq_true, decide_eq_true_eq, decide_eq_true_eq]
    exact ⟨fun h ↦ ⟨h.1.le, h.2.le, fun _ ↦ h⟩, fun h ↦ h.2.2 hodd⟩

/-- A decimal that rounds to a number is nearest to it. -/
theorem nearest?_of_roundsTo {x : Binary64} {d : Decimal} (hrounds : x.roundsTo d = true) :
    d.nearest? = some { x with negative := false } :=
  ofRatio_of_rounds (Decimal.powerRatio_snd_pos d.power) (roundsTo_iff.mp hrounds)

/-- Decimals of one value round to the same numbers. -/
theorem roundsTo_of_value_eq {x : Binary64} {d d' : Decimal} (hvalue : d.value = d'.value)
    (hrounds : x.roundsTo d = true) : x.roundsTo d' = true := by
  rw [roundsTo_iff] at hrounds ⊢
  refine hrounds.of_mul_eq (Decimal.powerRatio_snd_pos _) (Decimal.powerRatio_snd_pos _) ?_
  rw [Nat.mul_right_comm, ← Decimal.mul_powerRatio_eq hvalue, Nat.mul_right_comm]

end Binary64

end EventSchema
