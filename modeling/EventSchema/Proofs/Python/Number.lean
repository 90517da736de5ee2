import EventSchema.Proofs.Binary64.Shortest
import EventSchema.Proofs.Json.Number
import EventSchema.Text

/-!
# Number literals

A number literal has digits, a fraction and an exponent, and goes on as long as it can: a character
that would go on with a number or a word ends none. Without a fraction and an exponent it is an
integer, else the binary64 number nearest to the decimal that it spells. The text of a decimal is
read as a number that the decimal rounds to, positional or with an exponent
(`readNumber_decimalText`), so that the text of every number is read as the number
(`readSigned_text`). Digits in groups and other bases are not read.
-/

set_option autoImplicit false

namespace EventSchema.Python

open Json (isDigit)

/-! ### Reading -/

/-- Whether a number or a word goes on with the character. -/
def continues (c : Char) : Bool :=
  Text.isAsciiLetter c || isDigit c || c == '_' || c == '.' || 128 ≤ c.toNat

def digitsValue (digits : List Char) : Nat := Nat.ofDigitChars 10 digits 0

/-- The digits after a point, if there is one, and what follows them. -/
def splitFraction : List Char → Option (List Char) × List Char
  | [] => (none, [])
  | c :: rest =>
    if c = '.' then (some (rest.takeWhile isDigit), rest.dropWhile isDigit)
    else (none, c :: rest)

/-- Whether an exponent is negative, and what follows its sign. -/
def splitSign : List Char → Bool × List Char
  | [] => (false, [])
  | c :: rest =>
    if c = '-' then (true, rest) else if c = '+' then (false, rest) else (false, c :: rest)

/-- The exponent, if there is one, and what follows it. -/
def splitExponent : List Char → Option (Option Int × List Char)
  | [] => some (none, [])
  | c :: rest =>
    if c = 'e' ∨ c = 'E' then
      let (negative, text) := splitSign rest
      let digits := text.takeWhile isDigit
      let power : Int := digitsValue digits
      if digits.isEmpty then none
      else some (some (if negative then -power else power), text.dropWhile isDigit)
    else some (none, c :: rest)

/-- The number that the parts of a literal denote. Zeros may lead an integer only if it is zero. -/
def denoted? (whole : List Char) (fraction : Option (List Char)) (exponent : Option Int) :
    Option Number :=
  if fraction.isNone && exponent.isNone then
    if whole.isEmpty || (whole.head? == some '0' && digitsValue whole != 0) then none
    else some (.integer (digitsValue whole))
  else
    let decimals := fraction.getD []
    if (whole ++ decimals).isEmpty then none
    else (Decimal.nearest? ⟨digitsValue (whole ++ decimals), exponent.getD 0 - decimals.length⟩).map
      .float

/-- Reads a number literal: its value, and what follows it. -/
def readNumber (text : List Char) : Option (Number × List Char) := do
  let (fraction, rest) := splitFraction (text.dropWhile isDigit)
  let (exponent, rest) ← splitExponent rest
  if rest.head?.any continues then none
  else return (← denoted? (text.takeWhile isDigit) fraction exponent, rest)

def negate : Number → Number
  | .integer value => .integer (-value)
  | .float value => .float value.neg

/-- Reads a number with a minus in front of it or without. -/
def readSigned : List Char → Option (Number × List Char)
  | '-' :: rest => (readNumber rest).map fun (n, after) ↦ (negate n, after)
  | text => readNumber text

/-! ### Parts of a literal -/

/-- No number and no word goes on with the text. -/
def Ends (text : List Char) : Prop := ∀ c ∈ text.head?, continues c = false

section Parts

variable {digits rest : List Char}

/-- What is read while a test holds, up to where it fails first. -/
theorem takeWhile_append_eq {test : Char → Bool} (hdigits : ∀ c ∈ digits, test c = true)
    (hrest : ∀ c ∈ rest.head?, test c = false) :
    (digits ++ rest).takeWhile test = digits ∧ (digits ++ rest).dropWhile test = rest := by
  cases rest with
  | nil =>
    rw [List.append_nil]
    exact ⟨List.takeWhile_eq_self_iff.mpr hdigits, List.dropWhile_eq_nil_iff.mpr hdigits⟩
  | cons c more =>
    have hc : ¬test c = true := by simp [hrest c rfl]
    rw [List.takeWhile_append_of_pos hdigits, List.dropWhile_append_of_pos hdigits,
      List.takeWhile_cons_of_neg hc, List.dropWhile_cons_of_neg hc, List.append_nil]
    exact ⟨rfl, rfl⟩

theorem isDigit_of_continues {c : Char} (hc : continues c = false) : isDigit c = false := by
  simp only [continues, Bool.or_eq_false_iff] at hc
  exact hc.1.1.1.2

theorem Ends.not_isDigit (hrest : Ends rest) : ∀ c ∈ rest.head?, isDigit c = false :=
  fun c hc ↦ isDigit_of_continues (hrest c hc)

theorem Ends.any_head? (hrest : Ends rest) : rest.head?.any continues = false := by
  cases rest with
  | nil => rfl
  | cons c more => exact hrest c rfl

theorem Ends.head?_ne (hrest : Ends rest) {c : Char} (hc : continues c = true) :
    rest.head? ≠ some c := by
  intro hhead
  rw [hrest c hhead] at hc
  cases hc

/-- Where no exponent starts, there is none. -/
theorem Ends.splitExponent_eq (hrest : Ends rest) : splitExponent rest = some (none, rest) := by
  cases rest with
  | nil => rfl
  | cons c more =>
    have hlower : c ≠ 'e' := fun h ↦ hrest.head?_ne (by decide : continues 'e') (by rw [← h]; rfl)
    have hupper : c ≠ 'E' := fun h ↦ hrest.head?_ne (by decide : continues 'E') (by rw [← h]; rfl)
    rw [splitExponent, if_neg (by simp [hlower, hupper])]

/-- A point and digits, or nothing. -/
def pointText : Option (List Char) → List Char
  | none => []
  | some digits => '.' :: digits

theorem splitFraction_pointText {fraction : Option (List Char)}
    (hfraction : ∀ digits ∈ fraction, ∀ c ∈ digits, isDigit c = true)
    (hdigit : ∀ c ∈ rest.head?, isDigit c = false) (hpoint : rest.head? ≠ some '.') :
    splitFraction (pointText fraction ++ rest) = (fraction, rest) := by
  cases fraction with
  | none =>
    rw [pointText, List.nil_append]
    cases rest with
    | nil => rfl
    | cons c more => rw [splitFraction, if_neg fun h ↦ hpoint (by rw [h]; rfl)]
  | some digits =>
    obtain ⟨htake, hdrop⟩ := takeWhile_append_eq (hfraction digits rfl) hdigit
    rw [pointText, List.cons_append, splitFraction, if_pos rfl, htake, hdrop]

/-- A literal is read by its parts: digits, a fraction, and what is read as its exponent. -/
theorem readNumber_append {whole mark after : List Char} {fraction : Option (List Char)}
    {exponent : Option Int} (hwhole : ∀ c ∈ whole, isDigit c = true)
    (hfraction : ∀ digits ∈ fraction, ∀ c ∈ digits, isDigit c = true)
    (hdigit : ∀ c ∈ (mark ++ after).head?, isDigit c = false)
    (hpoint : (mark ++ after).head? ≠ some '.')
    (hmark : splitExponent (mark ++ after) = some (exponent, after)) (hafter : Ends after) :
    readNumber (whole ++ (pointText fraction ++ (mark ++ after))) =
      (denoted? whole fraction exponent).map fun n ↦ (n, after) := by
  have hpointText : ∀ c ∈ (pointText fraction ++ (mark ++ after)).head?, isDigit c = false := by
    cases fraction with
    | none => exact hdigit
    | some digits =>
      intro c hc
      obtain rfl := Option.some.inj hc
      decide
  obtain ⟨htake, hdrop⟩ := takeWhile_append_eq hwhole hpointText
  rw [readNumber, htake, hdrop, splitFraction_pointText hfraction hdigit hpoint]
  simp only [hmark, Option.bind_eq_bind, Option.bind_some, hafter.any_head?]
  cases denoted? whole fraction exponent <;> rfl

/-! ### What the parts denote -/

/-- Digits without a fraction and an exponent are an integer. -/
theorem readNumber_decimalDigits (n : Nat) (hrest : Ends rest) :
    readNumber (decimalDigits n ++ rest) = some (.integer n, rest) := by
  have hread : readNumber (decimalDigits n ++ (pointText none ++ ([] ++ rest))) =
      (denoted? (decimalDigits n) none none).map fun n ↦ (n, rest) :=
    readNumber_append (fun _ ↦ Json.isDigit_of_mem_decimalDigits) (by simp) hrest.not_isDigit
      (hrest.head?_ne (by decide)) hrest.splitExponent_eq hrest
  have hvalue : digitsValue (decimalDigits n) = n := Nat.ofDigitChars_ten_toDigits
  have hempty : (decimalDigits n).isEmpty = false :=
    List.isEmpty_eq_false_iff.mpr Nat.toDigits_ne_nil
  have hzero : ((decimalDigits n).head? == some '0' && n != 0) = false := by
    by_cases hn : n = 0
    · simp [hn]
    · rw [beq_false_of_ne (Json.head?_decimalDigits_ne hn), Bool.false_and]
  rw [denoted?, hvalue, hempty, hzero] at hread
  exact hread

variable {x : Binary64} {whole decimals : List Char}

/-- Digits around a point are the number that their decimal rounds to. -/
theorem readNumber_point
    (hrounds : x.roundsTo ⟨digitsValue (whole ++ decimals), -decimals.length⟩ = true)
    (hne : whole ≠ []) (hwhole : ∀ c ∈ whole, isDigit c = true)
    (hdecimals : ∀ c ∈ decimals, isDigit c = true) (hrest : Ends rest) :
    readNumber (whole ++ '.' :: decimals ++ rest) =
      some (.float { x with negative := false }, rest) := by
  have hread : readNumber (whole ++ (pointText (some decimals) ++ ([] ++ rest))) =
      (denoted? whole (some decimals) none).map fun n ↦ (n, rest) :=
    readNumber_append hwhole (by simpa using hdecimals) hrest.not_isDigit
      (hrest.head?_ne (by decide)) hrest.splitExponent_eq hrest
  have hdenoted : denoted? whole (some decimals) none =
      some (.float { x with negative := false }) := by
    have hnearest := Binary64.nearest?_of_roundsTo hrounds
    simp [denoted?, hne, hnearest]
  rw [hdenoted] at hread
  simpa [pointText] using hread

/-- An exponent with its sign. -/
def exponentText (exponent : Int) : List Char :=
  ['e', if exponent < 0 then '-' else '+'] ++ decimalDigits exponent.natAbs

theorem splitExponent_exponentText (exponent : Int) (hrest : Ends rest) :
    splitExponent (exponentText exponent ++ rest) = some (some exponent, rest) := by
  have hvalue : digitsValue (decimalDigits exponent.natAbs) = exponent.natAbs :=
    Nat.ofDigitChars_ten_toDigits
  have hempty : (decimalDigits exponent.natAbs).isEmpty = false :=
    List.isEmpty_eq_false_iff.mpr Nat.toDigits_ne_nil
  obtain ⟨htake, hdrop⟩ := takeWhile_append_eq
    (fun _ ↦ Json.isDigit_of_mem_decimalDigits (n := exponent.natAbs)) hrest.not_isDigit
  by_cases hnegative : exponent < 0
  · simp [exponentText, splitExponent, splitSign, hnegative, htake, hdrop, hempty, hvalue,
      abs_of_neg]
  · have hpositive : 0 ≤ exponent := Int.not_lt.mp hnegative
    simp [exponentText, splitExponent, splitSign, hnegative, htake, hdrop, hempty, hvalue,
      hpositive]

/-- Digits with an exponent, and maybe with a point, are the number that their decimal rounds
to. -/
theorem readNumber_exponent {fraction : Option (List Char)} {exponent : Int}
    (hrounds : x.roundsTo ⟨digitsValue (whole ++ fraction.getD []),
      exponent - (fraction.getD []).length⟩ = true)
    (hne : whole ≠ []) (hwhole : ∀ c ∈ whole, isDigit c = true)
    (hfraction : ∀ digits ∈ fraction, ∀ c ∈ digits, isDigit c = true) (hrest : Ends rest) :
    readNumber (whole ++ (pointText fraction ++ (exponentText exponent ++ rest))) =
      some (.float { x with negative := false }, rest) := by
  have hhead : (exponentText exponent ++ rest).head? = some 'e' := rfl
  have hdigit : ∀ c ∈ (exponentText exponent ++ rest).head?, isDigit c = false := by
    intro c hc
    obtain rfl := Option.some.inj hc
    decide
  have hread := readNumber_append hwhole hfraction hdigit (by rw [hhead]; decide)
    (splitExponent_exponentText exponent hrest) hrest
  have hdenoted : denoted? whole fraction (some exponent) =
      some (.float { x with negative := false }) := by
    have hnearest := Binary64.nearest?_of_roundsTo hrounds
    simp [denoted?, hne, hnearest]
  rw [hread, hdenoted]
  rfl

end Parts

/-! ### The text of a decimal -/

theorem digitsValue_replicate_append (count : Nat) (digits : List Char) :
    digitsValue (List.replicate count '0' ++ digits) = digitsValue digits := by
  rw [digitsValue, Nat.ofDigitChars_append, Nat.ofDigitChars_replicate_zero, Nat.mul_zero,
    digitsValue]

theorem digitsValue_append_replicate (count : Nat) (digits : List Char) :
    digitsValue (digits ++ List.replicate count '0') = 10 ^ count * digitsValue digits := by
  rw [digitsValue, Nat.ofDigitChars_append, Nat.ofDigitChars_replicate_zero, digitsValue]

/-- A point stands only in front of digits. -/
theorem exists_pointText (decimals : List Char) : ∃ fraction : Option (List Char),
    pointText fraction = (if decimals.isEmpty then [] else '.' :: decimals) ∧
      fraction.getD [] = decimals ∧ ∀ digits ∈ fraction, digits = decimals := by
  cases decimals with
  | nil => exact ⟨none, rfl, rfl, by simp⟩
  | cons c more => exact ⟨some (c :: more), rfl, rfl, by simp⟩

theorem isDigit_of_mem_zeros {count : Nat} {c : Char} (hc : c ∈ List.replicate count '0') :
    isDigit c = true := by
  rw [List.eq_of_mem_replicate hc]
  decide

section DecimalText

variable {x : Binary64} {digits rest : List Char} {power leading : Int}
  (hrounds : x.roundsTo ⟨digitsValue digits, power⟩ = true) (hne : digits ≠ [])
  (hdigits : ∀ c ∈ digits, isDigit c = true) (hrest : Ends rest)

include hrounds hne hdigits hrest

/-- A digit, a fraction of the other ones and an exponent. -/
theorem readNumber_scientific (hleading : power + ((digits.length : Int) - 1) = leading) :
    readNumber (digits.take 1 ++ (if (digits.drop 1).isEmpty then [] else '.' :: digits.drop 1) ++
      exponentText leading ++ rest) = some (.float { x with negative := false }, rest) := by
  obtain ⟨fraction, htext, hdecimals, hfraction⟩ := exists_pointText (digits.drop 1)
  have hlength : 0 < digits.length := List.length_pos_iff.mpr hne
  have hpower : leading - (digits.drop 1).length = power := by
    rw [List.length_drop]
    omega
  rw [← htext, List.append_assoc, List.append_assoc]
  refine readNumber_exponent ?_ (by simpa using hne)
    (fun c hc ↦ hdigits c (List.mem_of_mem_take hc)) ?_ hrest
  · rw [hdecimals, List.take_append_drop, hpower]
    exact hrounds
  · intro decimals hmem
    rw [hfraction decimals hmem]
    exact fun c hc ↦ hdigits c (List.mem_of_mem_drop hc)

/-- All digits in front of the point, and zeros after them. -/
theorem readNumber_whole (hpower : 0 ≤ power) :
    readNumber (digits ++ List.replicate power.toNat '0' ++ ['.', '0'] ++ rest) =
      some (.float { x with negative := false }, rest) := by
  refine readNumber_point ?_ (by simp [hne])
    (List.forall_mem_append.mpr ⟨hdigits, fun _ ↦ isDigit_of_mem_zeros⟩)
    (List.forall_mem_singleton.mpr (by decide)) hrest
  refine Binary64.roundsTo_of_value_eq ?_ hrounds
  obtain ⟨size, hsize⟩ := Int.eq_ofNat_of_zero_le hpower
  have hzeros : List.replicate power.toNat '0' ++ ['0'] = List.replicate (size + 1) '0' := by
    rw [List.replicate_succ', hsize, Int.toNat_natCast]
  rw [List.append_assoc, hzeros, digitsValue_append_replicate, Decimal.value, Decimal.value, hsize]
  simp only [List.length_singleton]
  push_cast
  rw [zpow_natCast, zpow_neg_one, pow_succ]
  ring

/-- The point between two digits. -/
theorem readNumber_inside (hleading : power + ((digits.length : Int) - 1) = leading)
    (hpower : power < 0) (hinside : 0 ≤ leading) :
    readNumber (digits.take (leading.toNat + 1) ++ '.' :: digits.drop (leading.toNat + 1) ++
      rest) = some (.float { x with negative := false }, rest) := by
  have hlength : -((digits.drop (leading.toNat + 1)).length : Int) = power := by
    rw [List.length_drop]
    omega
  refine readNumber_point ?_ (by simp [hne]) (fun c hc ↦ hdigits c (List.mem_of_mem_take hc))
    (fun c hc ↦ hdigits c (List.mem_of_mem_drop hc)) hrest
  rw [List.take_append_drop, hlength]
  exact hrounds

/-- A zero in front of the point, and more of them between it and the digits. -/
theorem readNumber_below (hleading : power + ((digits.length : Int) - 1) = leading)
    (hbelow : leading < 0) :
    readNumber ('0' :: '.' :: List.replicate (leading.natAbs - 1) '0' ++ digits ++ rest) =
      some (.float { x with negative := false }, rest) := by
  have hlength : -((List.replicate (leading.natAbs - 1) '0' ++ digits).length : Int) = power := by
    have hpositive : 0 < digits.length := List.length_pos_iff.mpr hne
    rw [List.length_append, List.length_replicate]
    omega
  have hvalue : digitsValue (['0'] ++ (List.replicate (leading.natAbs - 1) '0' ++ digits)) =
      digitsValue digits := by
    rw [← List.append_assoc, List.singleton_append, ← List.replicate_succ,
      digitsValue_replicate_append]
  change readNumber (['0'] ++ '.' :: (List.replicate (leading.natAbs - 1) '0' ++ digits) ++ rest) =
    some (.float { x with negative := false }, rest)
  refine readNumber_point ?_ (List.cons_ne_nil '0' []) (List.forall_mem_singleton.mpr (by decide))
    (List.forall_mem_append.mpr ⟨fun _ ↦ isDigit_of_mem_zeros, hdigits⟩) hrest
  rw [hvalue, hlength]
  exact hrounds

end DecimalText

/-- A decimal is written in digits that are read as a number that it rounds to. -/
theorem readNumber_decimalText {x : Binary64} {d : Decimal} {rest : List Char}
    (hrounds : x.roundsTo d = true) (hrest : Ends rest) :
    readNumber (d.text ++ rest) = some (.float { x with negative := false }, rest) := by
  have hdigits : ∀ c ∈ decimalDigits d.digits, isDigit c = true := fun _ ↦
    Json.isDigit_of_mem_decimalDigits
  have hne : decimalDigits d.digits ≠ [] := Nat.toDigits_ne_nil
  have hvalue : digitsValue (decimalDigits d.digits) = d.digits := Nat.ofDigitChars_ten_toDigits
  have hread : x.roundsTo ⟨digitsValue (decimalDigits d.digits), d.power⟩ = true := by rwa [hvalue]
  generalize hleading : d.power + (((decimalDigits d.digits).length : Int) - 1) = leading
  rw [Decimal.text]
  simp only [hleading]
  by_cases hscientific : leading < -5 ∨ 16 ≤ leading
  · rw [if_pos hscientific, List.append_assoc _ _ (decimalDigits _)]
    exact readNumber_scientific hread hne hdigits hrest hleading
  rw [if_neg hscientific]
  by_cases hwhole : 0 ≤ d.power
  · rw [if_pos hwhole]
    exact readNumber_whole hread hne hdigits hrest hwhole
  rw [if_neg hwhole]
  by_cases hinside : 0 ≤ leading
  · rw [if_pos hinside]
    exact readNumber_inside hread hne hdigits hrest hleading (Int.not_le.mp hwhole) hinside
  · rw [if_neg hinside]
    exact readNumber_below hread hne hdigits hrest hleading (Int.not_le.mp hinside)

/-! ### The text of a number -/

/-- A number starts with a digit or a point. -/
theorem readNumber_eq_none {c : Char} (hdigit : isDigit c = false) (hpoint : c ≠ '.')
    (rest : List Char) : readNumber (c :: rest) = none := by
  have hempty (exponent : Option Int) : denoted? [] none exponent = none := by
    cases exponent <;> rfl
  have hc : ¬isDigit c = true := Bool.eq_false_iff.mp hdigit
  rw [readNumber, List.takeWhile_cons_of_neg hc, List.dropWhile_cons_of_neg hc, splitFraction,
    if_neg hpoint]
  simp only [hempty]
  cases splitExponent (c :: rest) with
  | none => rfl
  | some parts => simp

theorem readSigned_eq {text : List Char} (htext : text.head? ≠ some '-') :
    readSigned text = readNumber text := by
  unfold readSigned
  split
  · exact absurd rfl htext
  · rfl

/-- What is read as a number has no sign in front of it. -/
theorem readSigned_of_readNumber {text rest : List Char} {n : Number}
    (hread : readNumber text = some (n, rest)) : readSigned text = some (n, rest) := by
  rw [readSigned_eq, hread]
  intro hhead
  obtain ⟨more, rfl⟩ := List.head?_eq_some_iff.mp hhead
  rw [readNumber_eq_none (by decide) (by decide)] at hread
  cases hread

theorem roundsTo_zero {x : Binary64} (hx : x.isZero = true) (power : Int) :
    x.roundsTo ⟨0, power⟩ = true := by
  have hmantissa : x.mantissa = 0 := by simpa [Binary64.isZero] using hx
  have hlow : x.roundingInterval.1 = 0 := by
    simp [Binary64.roundingInterval, Binary64.magnitude, hmantissa]
  rw [Binary64.roundsTo_iff, Binary64.Rounds, hlow, hmantissa]
  simp

/-- The text of a number is read as the number, the sign of zero included. -/
theorem readSigned_text (n : Number) {rest : List Char} (hrest : Ends rest) :
    readSigned (n.text ++ rest) = some (n, rest) := by
  cases n with
  | integer value =>
    have hread := readNumber_decimalDigits value.natAbs hrest
    rw [Number.text, intText]
    by_cases hnegative : value < 0
    · have hvalue : -(value.natAbs : Int) = value := by omega
      rw [if_pos hnegative, List.cons_append, readSigned, hread]
      simp only [Option.map_some, negate, hvalue]
    · have hvalue : (value.natAbs : Int) = value := by omega
      rw [if_neg hnegative, readSigned_of_readNumber hread, hvalue]
  | float x =>
    obtain ⟨text, htext⟩ : ∃ text, text = if x.isZero then ['0', '.', '0'] else x.shortest.text :=
      ⟨_, rfl⟩
    have hread : readNumber (text ++ rest) = some (.float { x with negative := false }, rest) := by
      rw [htext]
      by_cases hzero : x.isZero = true
      · rw [if_pos hzero]
        have hzeros : ∀ c ∈ ['0'], isDigit c = true := List.forall_mem_singleton.mpr (by decide)
        refine readNumber_point ?_ (List.cons_ne_nil '0' []) hzeros hzeros hrest
        exact roundsTo_zero hzero _
      · rw [if_neg hzero]
        have hrounds := Binary64.roundsTo_shortest (Bool.eq_false_iff.mpr hzero)
        exact readNumber_decimalText hrounds hrest
    have hsign : (Number.float x).text = if x.negative then '-' :: text else text := by
      rw [htext]
      rfl
    rw [hsign]
    obtain ⟨negative, mantissa, exponent, hmantissa, hexponent, hnormal⟩ := x
    cases negative with
    | true =>
      rw [if_pos rfl, List.cons_append, readSigned, hread]
      rfl
    | false =>
      rw [if_neg Bool.false_ne_true]
      exact readSigned_of_readNumber hread

end EventSchema.Python
