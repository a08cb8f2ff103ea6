import KernelMaps.Proofs.Text.Numerals
import Mathlib.Data.List.Forall2
import Mathlib.Data.Nat.Digits.Defs
import Mathlib.Tactic.SplitIfs

/-!
Which texts spell which integers. Readers of integers accept a numeral exactly if what it spells is
within their limits, and a number has one numeral without leading zeros, which is the one written.
-/

namespace KernelMaps.Text

inductive Digit : Char → Nat → Prop where
  | decimal {value : Nat} (below : value < 10) : Digit (Char.ofNat ('0'.toNat + value)) value
  | lower {value : Nat} (below : value < 6) : Digit (Char.ofNat ('a'.toNat + value)) (10 + value)
  | upper {value : Nat} (below : value < 6) : Digit (Char.ofNat ('A'.toNat + value)) (10 + value)

def DigitOf (radix : Nat) (char : Char) (value : Nat) : Prop :=
  Digit char value ∧ value < radix

/-- One or more digits of a radix, the most significant first, with the number that they denote. -/
def Numeral (radix : Nat) (text : List Char) (value : Nat) : Prop :=
  text ≠ [] ∧ ∃ digits, List.Forall₂ (DigitOf radix) text digits ∧
    value = Nat.ofDigits radix digits.reverse

inductive Natural (radix : Nat) : List Char → Nat → Prop where
  | plain {text : List Char} {value : Nat} (numeral : Numeral radix text value) :
      Natural radix text value
  | plus {text : List Char} {value : Nat} (numeral : Numeral radix text value) :
      Natural radix ('+' :: text) value

/-- What spells an integer: a decimal numeral behind a plus or nothing, behind a minus where there
are signs, and a hexadecimal one behind `0x` where there are none. -/
inductive Spells : (signed : Bool) → List Char → Int → Prop where
  | natural {signed : Bool} {text : List Char} {value : Nat} (natural : Natural 10 text value) :
      Spells signed text value
  | negative {text : List Char} {value : Nat} (numeral : Numeral 10 text value) :
      Spells true ('-' :: text) (-value)
  | hexadecimal {text : List Char} {value : Nat} (natural : Natural 16 text value) :
      Spells false ('0' :: 'x' :: text) value

/-- The decimal numeral of an integer that has no leading zeros, and a minus in front of it exactly
if the integer is negative. -/
def CanonicalDecimal (text : List Char) (value : Int) : Prop :=
  ∃ digits, Numeral 10 digits value.natAbs ∧ (digits.head? = some '0' → digits = ['0']) ∧
    text = if value < 0 then '-' :: digits else digits

theorem toNat_ofNat_of_ascii : ∀ code < 128, (Char.ofNat code).toNat = code := by
  decide

theorem digit_codes : '0'.toNat = 48 ∧ 'a'.toNat = 97 ∧ 'A'.toNat = 65 :=
  ⟨rfl, rfl, rfl⟩

theorem Digit.of_row {char first : Char} {value worth : Nat}
    (row : Digit (Char.ofNat (first.toNat + value)) worth)
    (code : char.toNat = first.toNat + value) : Digit char worth := by
  rwa [← code, Char.ofNat_toNat] at row

theorem digitOf_of_digitValue? {radix value : Nat} {char : Char}
    (found : digitValue? radix char = some value) : DigitOf radix char value := by
  obtain ⟨zero, lowerA, upperA⟩ := digit_codes
  simp only [digitValue?, Bool.and_eq_true, decide_eq_true_eq, Option.ite_none_right_eq_some,
    Option.some.injEq] at found
  obtain ⟨below, rfl⟩ := found
  refine ⟨?_, below⟩
  split_ifs at below ⊢ with decimal lower upper
  · have inRow : Digit (Char.ofNat ('0'.toNat + (char.toNat - 48))) (char.toNat - 48) :=
      Digit.decimal (by omega)
    exact inRow.of_row (by omega)
  · have worth : char.toNat - 87 = 10 + (char.toNat - 97) := by omega
    rw [worth]
    exact (Digit.lower (by omega)).of_row (by omega)
  · have worth : char.toNat - 55 = 10 + (char.toNat - 65) := by omega
    rw [worth]
    exact (Digit.upper (by omega)).of_row (by omega)
  · exact absurd below (Nat.lt_irrefl radix)

theorem DigitOf.digitValue?_eq {radix value : Nat} {char : Char}
    (digit : DigitOf radix char value) : digitValue? radix char = some value := by
  obtain ⟨zero, lowerA, upperA⟩ := digit_codes
  obtain ⟨digit, below⟩ := digit
  cases digit with
  | decimal inRow =>
      have code := toNat_ofNat_of_ascii ('0'.toNat + value) (by omega)
      grind [digitValue?]
  | @lower place inRow =>
      have code := toNat_ofNat_of_ascii ('a'.toNat + place) (by omega)
      grind [digitValue?]
  | @upper place inRow =>
      have code := toNat_ofNat_of_ascii ('A'.toNat + place) (by omega)
      grind [digitValue?]

theorem digitValue?_eq_some_iff {radix value : Nat} {char : Char} :
    digitValue? radix char = some value ↔ DigitOf radix char value :=
  ⟨digitOf_of_digitValue?, DigitOf.digitValue?_eq⟩

theorem ofDigits_carry (radix digit start : Nat) (digits : List Nat) :
    Nat.ofDigits radix (digit :: digits).reverse + radix ^ (digit :: digits).length * start =
      Nat.ofDigits radix digits.reverse + radix ^ digits.length * (start * radix + digit) := by
  rw [Nat.ofDigits_reverse_cons, List.length_cons, pow_succ]
  ring

/-- No partial value is above a limit that the whole value keeps, so that only the whole counts. -/
theorem readDigits_eq_ok_iff {radix limit start value : Nat} {overflow : NumeralFault}
    {text : List Char} (within : start ≤ limit) :
    readDigits radix limit overflow start text = .ok value ↔
      value ≤ limit ∧ ∃ digits, List.Forall₂ (DigitOf radix) text digits ∧
        value = Nat.ofDigits radix digits.reverse + radix ^ digits.length * start := by
  induction text generalizing start with
  | nil =>
      simp only [readDigits, Except.ok.injEq, List.forall₂_nil_left_iff, exists_eq_left,
        List.reverse_nil, Nat.ofDigits_nil, List.length_nil, pow_zero, one_mul, zero_add]
      constructor
      · rintro rfl
        exact ⟨within, rfl⟩
      · rintro ⟨_, rfl⟩
        rfl
  | cons char text ih =>
      have split : (∃ digits, List.Forall₂ (DigitOf radix) (char :: text) digits ∧
          value = Nat.ofDigits radix digits.reverse + radix ^ digits.length * start) ↔
          ∃ digit, DigitOf radix char digit ∧ ∃ digits, List.Forall₂ (DigitOf radix) text digits ∧
            value = Nat.ofDigits radix digits.reverse +
              radix ^ digits.length * (start * radix + digit) := by
        simp only [List.forall₂_cons_left_iff]
        constructor
        · rintro ⟨_, ⟨digit, digits, worth, others, rfl⟩, sum⟩
          exact ⟨digit, worth, digits, others, sum.trans (ofDigits_carry ..)⟩
        · rintro ⟨digit, worth, digits, others, sum⟩
          exact ⟨_, ⟨digit, digits, worth, others, rfl⟩, sum.trans (ofDigits_carry ..).symm⟩
      rw [readDigits, split]
      cases found : digitValue? radix char with
      | none =>
          simp only [reduceCtorEq, false_iff]
          rintro ⟨_, digit, worth, _⟩
          rw [worth.digitValue?_eq] at found
          contradiction
      | some digit =>
          have only : ∀ other, DigitOf radix char other ↔ other = digit := by
            intro other
            rw [← digitValue?_eq_some_iff, found, Option.some.injEq, eq_comm]
          simp only [only, exists_eq_left]
          by_cases beyond : limit < start * radix + digit
          · simp only [if_pos beyond, reduceCtorEq, false_iff]
            rintro ⟨kept, digits, others, sum⟩
            have positive : 0 < radix := Nat.zero_lt_of_lt ((only digit).mpr rfl).2
            have grown : start * radix + digit ≤ radix ^ digits.length * (start * radix + digit) :=
              Nat.le_mul_of_pos_left _ (Nat.pow_pos positive)
            omega
          · simp only [if_neg beyond]
            exact ih (by omega)

theorem readDigits_zero_eq_ok_iff {radix limit value : Nat} {overflow : NumeralFault}
    {text : List Char} (filled : text ≠ []) :
    readDigits radix limit overflow 0 text = .ok value ↔
      Numeral radix text value ∧ value ≤ limit := by
  rw [readDigits_eq_ok_iff (Nat.zero_le limit), Numeral]
  simp only [mul_zero, add_zero, filled, ne_eq, not_false_eq_true, true_and, and_comm]

theorem Digit.code_bounds {char : Char} {value : Nat} (digit : Digit char value) :
    48 ≤ char.toNat ∧ char.toNat ≤ 102 := by
  obtain ⟨zero, lowerA, upperA⟩ := digit_codes
  cases digit with
  | decimal inRow =>
      rw [toNat_ofNat_of_ascii _ (by omega)]
      omega
  | lower inRow =>
      rw [toNat_ofNat_of_ascii _ (by omega)]
      omega
  | upper inRow =>
      rw [toNat_ofNat_of_ascii _ (by omega)]
      omega

theorem Numeral.code_bounds {radix value : Nat} {text : List Char}
    (numeral : Numeral radix text value) : ∀ char ∈ text, 48 ≤ char.toNat ∧ char.toNat ≤ 102 := by
  obtain ⟨_, digits, worths, _⟩ := numeral
  clear * - worths
  induction worths with
  | nil => exact List.forall_mem_nil _
  | cons worth _ ih => exact List.forall_mem_cons.mpr ⟨worth.1.code_bounds, ih⟩

theorem Numeral.solid {radix value : Nat} {text : List Char}
    (numeral : Numeral radix text value) : Solid text := by
  intro char member
  have codes := numeral.code_bounds char member
  simp only [isBlank, blankRanges, List.any_cons, List.any_nil, Bool.or_false, Bool.or_eq_false_iff,
    Bool.and_eq_false_imp, decide_eq_true_eq, decide_eq_false_iff_not]
  omega

theorem Numeral.not_mem {radix value : Nat} {text : List Char} (numeral : Numeral radix text value)
    {char : Char} (outside : char.toNat < 48 ∨ 102 < char.toNat) : char ∉ text := by
  intro member
  have codes := numeral.code_bounds char member
  omega

theorem natural_plus_iff {radix value : Nat} {text : List Char} :
    Natural radix ('+' :: text) value ↔ Numeral radix text value := by
  constructor
  · rintro (numeral | numeral)
    · exact absurd List.mem_cons_self (numeral.not_mem (.inl (by decide)))
    · exact numeral
  · exact Natural.plus

theorem natural_iff_numeral {radix value : Nat} {text : List Char}
    (unsigned : ∀ rest, text ≠ '+' :: rest) :
    Natural radix text value ↔ Numeral radix text value := by
  constructor
  · rintro (numeral | numeral)
    · exact numeral
    · exact absurd rfl (unsigned _)
  · exact Natural.plain

theorem not_numeral_nil {radix value : Nat} : ¬Numeral radix [] value :=
  fun numeral => numeral.1 rfl

theorem not_natural_nil {radix value : Nat} : ¬Natural radix [] value := by
  rw [natural_iff_numeral (by simp)]
  exact not_numeral_nil

theorem readNatural_eq_ok_iff {radix limit value : Nat} {text : List Char} :
    readNatural radix limit text = .ok value ↔ Natural radix text value ∧ value ≤ limit := by
  unfold readNatural
  split
  · simp only [reduceCtorEq, not_natural_nil, false_and]
  · simp only [reduceCtorEq, natural_plus_iff, not_numeral_nil, false_and]
  · next digits filled =>
      rw [natural_plus_iff]
      exact readDigits_zero_eq_ok_iff filled
  · next filled _ unsigned =>
      rw [natural_iff_numeral unsigned]
      exact readDigits_zero_eq_ok_iff filled

theorem natural_minus {radix value : Nat} {text : List Char} :
    ¬Natural radix ('-' :: text) value := by
  rw [natural_iff_numeral (by simp)]
  intro numeral
  exact absurd List.mem_cons_self (numeral.not_mem (.inl (by decide)))

theorem spells_minus_iff {text : List Char} {value : Int} :
    Spells true ('-' :: text) value ↔ ∃ size : Nat, Numeral 10 text size ∧ value = -size := by
  constructor
  · intro spells
    cases spells with
    | natural natural => exact absurd natural natural_minus
    | negative numeral => exact ⟨_, numeral, rfl⟩
  · rintro ⟨size, numeral, rfl⟩
    exact .negative numeral

theorem spells_signed_iff {text : List Char} {value : Int} (noMinus : ∀ rest, text ≠ '-' :: rest) :
    Spells true text value ↔ ∃ size : Nat, Natural 10 text size ∧ value = size := by
  constructor
  · intro spells
    cases spells with
    | natural natural => exact ⟨_, natural, rfl⟩
    | negative numeral => exact absurd rfl (noMinus _)
  · rintro ⟨size, natural, rfl⟩
    exact .natural natural

theorem spells_marked_iff {text : List Char} {value : Int} :
    Spells false ('0' :: 'x' :: text) value ↔
      ∃ size : Nat, Natural 16 text size ∧ value = size := by
  constructor
  · intro spells
    cases spells with
    | natural natural =>
        rw [natural_iff_numeral (by simp)] at natural
        have marked : 'x' ∈ '0' :: 'x' :: text := .tail _ List.mem_cons_self
        exact absurd marked (natural.not_mem (.inr (by decide)))
    | hexadecimal natural => exact ⟨_, natural, rfl⟩
  · rintro ⟨size, natural, rfl⟩
    exact .hexadecimal natural

theorem spells_unmarked_iff {text : List Char} {value : Int}
    (unmarked : ∀ rest, text ≠ '0' :: 'x' :: rest) :
    Spells false text value ↔ ∃ size : Nat, Natural 10 text size ∧ value = size := by
  constructor
  · intro spells
    cases spells with
    | natural natural => exact ⟨_, natural, rfl⟩
    | hexadecimal natural => exact absurd rfl (unmarked _)
  · rintro ⟨size, natural, rfl⟩
    exact .natural natural

theorem Natural.solid {radix value : Nat} {text : List Char} (natural : Natural radix text value) :
    Solid text := by
  cases natural with
  | plain numeral => exact numeral.solid
  | plus numeral => exact solid_cons.mpr ⟨by decide, numeral.solid⟩

theorem Spells.solid {signed : Bool} {text : List Char} {value : Int}
    (spells : Spells signed text value) : Solid text := by
  cases spells with
  | natural natural => exact natural.solid
  | negative numeral => exact solid_cons.mpr ⟨by decide, numeral.solid⟩
  | hexadecimal natural =>
      exact solid_cons.mpr ⟨by decide, solid_cons.mpr ⟨by decide, natural.solid⟩⟩

theorem map_cast_eq_ok_iff {ε : Type} {outcome : Except ε Nat} {change : Int → Int}
    {result : Int} :
    Except.map change (outcome >>= fun size => pure (size : Int)) = .ok result ↔
      ∃ size : Nat, outcome = .ok size ∧ result = change size := by
  cases outcome with
  | error fault => simp [Except.map, bind, Except.bind]
  | ok size => simp [Except.map, bind, Except.bind, pure, Except.pure, eq_comm]

section

variable {bound : Nat} {digits : List Char} {value : Int}

theorem readDigits_minus_iff (filled : digits ≠ []) :
    Except.map (fun value => -value)
        (readDigits 10 bound .tooSmall 0 digits >>= fun size => pure (size : Int)) = .ok value ↔
      (∃ size : Nat, Numeral 10 digits size ∧ value = -size) ∧ -(bound : Int) ≤ value := by
  simp only [map_cast_eq_ok_iff, readDigits_zero_eq_ok_iff filled]
  constructor
  · rintro ⟨size, ⟨numeral, within⟩, rfl⟩
    exact ⟨⟨size, numeral, rfl⟩, by omega⟩
  · rintro ⟨⟨size, numeral, rfl⟩, within⟩
    exact ⟨size, ⟨numeral, by omega⟩, rfl⟩

theorem readDigits_plus_iff (filled : digits ≠ []) (positive : 0 < bound) :
    Except.map (fun value => value)
        (readDigits 10 (bound - 1) .tooLarge 0 digits >>= fun size => pure (size : Int)) =
          .ok value ↔
      (∃ size : Nat, Numeral 10 digits size ∧ value = size) ∧ value < bound := by
  simp only [map_cast_eq_ok_iff, readDigits_zero_eq_ok_iff filled]
  constructor
  · rintro ⟨size, ⟨numeral, within⟩, rfl⟩
    exact ⟨⟨size, numeral, rfl⟩, by omega⟩
  · rintro ⟨⟨size, numeral, rfl⟩, within⟩
    exact ⟨size, ⟨numeral, by omega⟩, rfl⟩

end

theorem readSigned_eq_ok_iff {bits : Nat} {text : List Char} {value : Int} :
    readSigned bits text = .ok value ↔ Spells true text value ∧
      -(bitRange (bits - 1) : Int) ≤ value ∧ value < bitRange (bits - 1) := by
  have positive : 0 < bitRange (bits - 1) := Nat.pow_pos (by decide)
  unfold readSigned
  split
  · simp [spells_signed_iff, not_natural_nil]
  · simp [spells_signed_iff, natural_plus_iff, not_numeral_nil]
  · simp [spells_minus_iff, not_numeral_nil]
  · next digits filled =>
      rw [readDigits_minus_iff filled, spells_minus_iff]
      refine and_congr_right ?_
      rintro ⟨size, _, rfl⟩
      omega
  · next digits filled =>
      rw [readDigits_plus_iff filled positive, spells_signed_iff (by simp)]
      simp only [natural_plus_iff]
      refine and_congr_right ?_
      rintro ⟨size, _, rfl⟩
      omega
  · next filled _ _ noMinus noPlus =>
      rw [readDigits_plus_iff filled positive, spells_signed_iff noMinus]
      simp only [natural_iff_numeral noPlus]
      refine and_congr_right ?_
      rintro ⟨size, _, rfl⟩
      omega

theorem numeral_decimal (value : Nat) : Numeral 10 (decimal value) value :=
  ((readDigits_zero_eq_ok_iff (decimal_ne_nil value)).mp
    (readDigits_decimal .tooLarge (Nat.le_refl value))).1

theorem digitChar_ne_zero : ∀ digit < 10, 0 < digit → Nat.digitChar digit ≠ '0' := by
  decide

theorem decimal_head_ne_zero {value : Nat} (positive : 0 < value) :
    (decimal value).head? ≠ some '0' := by
  induction value using Nat.strongRecOn with
  | ind value ih =>
      by_cases single : value < 10
      · rw [decimal, Nat.toDigits_of_lt_base single, List.head?_cons, ne_eq, Option.some.injEq]
        exact digitChar_ne_zero value single positive
      · rw [decimal, Nat.toDigits_of_base_le (by decide) (by omega), ← decimal,
          List.head?_append_of_ne_nil _ (decimal_ne_nil _)]
        exact ih (value / 10) (by omega) (by omega)

theorem ofNat_eq_digitChar :
    ∀ digit < 10, Char.ofNat ('0'.toNat + digit) = Nat.digitChar digit := by
  decide

theorem DigitOf.eq_digitChar {char : Char} {value : Nat} (digit : DigitOf 10 char value) :
    char = Nat.digitChar value := by
  obtain ⟨digit, below⟩ := digit
  cases digit with
  | decimal inRow => exact ofNat_eq_digitChar value inRow
  | lower _ => omega
  | upper _ => omega

theorem decimal_append_digits {text : List Char} {digits : List Nat}
    (worths : List.Forall₂ (DigitOf 10) text digits) {start : Nat} (positive : 0 < start) :
    decimal start ++ text =
      decimal (Nat.ofDigits 10 digits.reverse + 10 ^ digits.length * start) := by
  induction worths generalizing start with
  | nil => simp
  | @cons char digit text digits worth _ ih =>
      have joined : decimal start ++ [char] = decimal (start * 10 + digit) := by
        rw [worth.eq_digitChar, ← Nat.toDigits_of_lt_base worth.2, decimal,
          Nat.toDigits_append_toDigits (by decide) positive worth.2, Nat.mul_comm, ← decimal]
      rw [ofDigits_carry, ← ih (by omega), ← joined, List.append_assoc, List.singleton_append]

theorem Numeral.eq_decimal {text : List Char} {value : Nat} (numeral : Numeral 10 text value)
    (lead : text.head? = some '0' → text = ['0']) : text = decimal value := by
  obtain ⟨filled, digits, worths, rfl⟩ := numeral
  cases worths with
  | nil => exact absurd rfl filled
  | @cons char digit text digits worth others =>
      have written := worth.eq_digitChar
      rcases Nat.eq_zero_or_pos digit with rfl | positive
      · obtain rfl : text = [] := by
          have alone := lead (congrArg some written)
          exact (List.cons.inj alone).2
        cases others
        rw [written]
        rfl
      · have joined := decimal_append_digits others positive
        rw [decimal, Nat.toDigits_of_lt_base worth.2, ← written] at joined
        rw [Nat.ofDigits_reverse_cons]
        exact joined

theorem canonicalDecimal_iff {text : List Char} {value : Int} :
    CanonicalDecimal text value ↔ text = signedDecimal value := by
  have written : signedDecimal value =
      if value < 0 then '-' :: decimal value.natAbs else decimal value.natAbs := rfl
  constructor
  · rintro ⟨digits, numeral, lead, rfl⟩
    rw [written, ← numeral.eq_decimal lead]
  · rintro rfl
    refine ⟨decimal value.natAbs, numeral_decimal _, ?_, written⟩
    intro zero
    rcases Nat.eq_zero_or_pos value.natAbs with none | positive
    · rw [none]
      rfl
    · exact absurd zero (decimal_head_ne_zero positive)

end KernelMaps.Text
