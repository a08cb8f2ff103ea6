import KernelMaps.Proofs.Text.Plain
import KernelMaps.Text.Hexadecimal
import KernelMaps.Text.Numeral

/-!
Numerals that were written are read back. Decimal numerals are digits and perhaps a minus, so that
a reader takes none of its other branches on them; hexadecimal pairs name every byte.
-/

namespace KernelMaps.Text

theorem digitValue?_of_isDigit {char : Char} (digit : char.isDigit = true) :
    digitValue? 10 char = some (char.toNat - 48) := by
  obtain ⟨low, high⟩ := Char.isDigit_iff_toNat.mp digit
  have low : 48 ≤ char.toNat := low
  have high : char.toNat ≤ 57 := high
  simp only [digitValue?, low, high, decide_true, Bool.and_self, if_true]
  exact if_pos (by omega)

theorem isBlank_of_isDigit {char : Char} (digit : char.isDigit = true) : isBlank char = false := by
  obtain ⟨low, high⟩ := Char.isDigit_iff_toNat.mp digit
  have low : 48 ≤ char.toNat := low
  have high : char.toNat ≤ 57 := high
  simp only [isBlank, blankRanges, List.any_cons, List.any_nil, Bool.or_false, Bool.or_eq_false_iff,
    Bool.and_eq_false_imp, decide_eq_true_eq, decide_eq_false_iff_not]
  omega

theorem le_ofDigitChars (digits : List Char) (value : Nat) :
    value ≤ Nat.ofDigitChars 10 digits value := by
  rw [Nat.ofDigitChars_eq_ofDigitChars_zero]
  exact Nat.le_add_right_of_le (Nat.le_mul_of_pos_left value (Nat.pow_pos (by decide)))

theorem readDigits_of_isDigit (limit : Nat) (overflow : NumeralFault) {digits : List Char}
    (value : Nat) (all : ∀ char ∈ digits, char.isDigit = true)
    (within : Nat.ofDigitChars 10 digits value ≤ limit) :
    readDigits 10 limit overflow value digits = .ok (Nat.ofDigitChars 10 digits value) := by
  induction digits generalizing value with
  | nil => rfl
  | cons char digits ih =>
      rw [List.forall_mem_cons] at all
      rw [Nat.ofDigitChars_cons, Nat.mul_comm 10 value] at within ⊢
      have partly := Nat.le_trans (le_ofDigitChars ..) within
      rw [readDigits, digitValue?_of_isDigit all.1]
      exact (if_neg (Nat.not_lt.mpr partly)).trans (ih _ all.2 within)

theorem isDigit_of_mem_decimal (value : Nat) {char : Char} (mem : char ∈ decimal value) :
    char.isDigit = true :=
  Nat.isDigit_of_mem_toDigits (by decide) (Nat.le_refl 10) mem

theorem readDigits_decimal {limit value : Nat} (overflow : NumeralFault) (within : value ≤ limit) :
    readDigits 10 limit overflow 0 (decimal value) = .ok value := by
  have same : Nat.ofDigitChars 10 (decimal value) 0 = value := Nat.ofDigitChars_ten_toDigits
  have read := readDigits_of_isDigit limit overflow 0 fun _ => isDigit_of_mem_decimal value
  rw [same] at read
  exact read within

theorem decimal_ne_nil (value : Nat) : decimal value ≠ [] :=
  Nat.toDigits_ne_nil

theorem exists_decimal_eq_cons (value : Nat) :
    ∃ char digits, decimal value = char :: digits ∧ char.isDigit = true := by
  cases written : decimal value with
  | nil => exact absurd written (decimal_ne_nil value)
  | cons char digits =>
      exact ⟨char, digits, rfl, isDigit_of_mem_decimal value (by simp [written])⟩

theorem readNatural_decimal {limit value : Nat} (within : value ≤ limit) :
    readNatural 10 limit (decimal value) = .ok value := by
  have read := readDigits_decimal .tooLarge within
  obtain ⟨char, digits, written, digit⟩ := exists_decimal_eq_cons value
  have unsigned : char ≠ '+' := by
    rintro rfl
    contradiction
  rw [written] at read ⊢
  simpa [readNatural, unsigned] using read

theorem readSigned_decimal {bits value : Nat} (within : value ≤ bitRange (bits - 1) - 1) :
    readSigned bits (decimal value) = .ok (value : Int) := by
  have read := readDigits_decimal .tooLarge within
  obtain ⟨char, digits, written, digit⟩ := exists_decimal_eq_cons value
  have noPlus : char ≠ '+' := by
    rintro rfl
    contradiction
  have noMinus : char ≠ '-' := by
    rintro rfl
    contradiction
  rw [written] at read ⊢
  simp [readSigned, noPlus, noMinus, read, Except.map]

theorem readSigned_minus_decimal {bits value : Nat} (within : value ≤ bitRange (bits - 1)) :
    readSigned bits ('-' :: decimal value) = .ok (-(value : Int)) := by
  have read := readDigits_decimal .tooSmall within
  simp [readSigned, decimal_ne_nil, read, Except.map]

theorem readSigned_signedDecimal {bits : Nat} {value : Int}
    (lower : -(bitRange (bits - 1) : Int) ≤ value) (upper : value < bitRange (bits - 1)) :
    readSigned bits (signedDecimal value) = .ok value := by
  unfold signedDecimal
  split
  · rw [readSigned_minus_decimal (by omega), Except.ok.injEq]
    omega
  · rw [readSigned_decimal (by omega), Except.ok.injEq]
    omega

theorem solid_decimal (value : Nat) : Solid (decimal value) :=
  fun _ mem => isBlank_of_isDigit (isDigit_of_mem_decimal value mem)

theorem ascii_decimal (value : Nat) : Ascii (decimal value) := by
  intro char mem
  obtain ⟨_, high⟩ := Char.isDigit_iff_toNat.mp (isDigit_of_mem_decimal value mem)
  exact Nat.lt_of_le_of_lt high (by decide)

theorem solid_signedDecimal (value : Int) : Solid (signedDecimal value) := by
  unfold signedDecimal
  split
  · exact solid_cons.mpr ⟨by decide, solid_decimal _⟩
  · exact solid_decimal _

theorem ascii_signedDecimal (value : Int) : Ascii (signedDecimal value) := by
  unfold signedDecimal
  split
  · exact ascii_cons.mpr ⟨by decide, ascii_decimal _⟩
  · exact ascii_decimal _

theorem signedDecimal_ne_nil (value : Int) : signedDecimal value ≠ [] := by
  unfold signedDecimal
  split
  · exact List.cons_ne_nil _ _
  · exact decimal_ne_nil _

theorem digitValue?_hexDigit : ∀ value < 16, digitValue? 16 (hexDigit value) = some value := by
  decide

theorem hexDigit_plain : ∀ value < 16,
    isBlank (hexDigit value) = false ∧ (hexDigit value).toNat < 128 := by
  decide

theorem readHexPairs_hexPairs (bytes : Bytes) : readHexPairs (hexPairs bytes) = some bytes := by
  induction bytes with
  | nil => rfl
  | cons byte bytes ih =>
      have bound := byte.toNat_lt
      have upper := digitValue?_hexDigit (byte.toNat / 16) (by omega)
      have lower := digitValue?_hexDigit (byte.toNat % 16) (by omega)
      rw [hexPairs] at ih
      rw [hexPairs, List.flatMap_cons, hexPair, List.cons_append, List.cons_append, List.nil_append,
        readHexPairs, upper, lower, ih]
      simp only [Option.bind_eq_bind, Option.bind_some, Option.pure_def, Nat.div_add_mod,
        UInt8.ofNat_toNat]

theorem hexPairs_plain (bytes : Bytes) : ∀ char ∈ hexPairs bytes,
    isBlank char = false ∧ char.toNat < 128 := by
  intro char mem
  obtain ⟨byte, _, mem⟩ := List.mem_flatMap.mp mem
  have bound := byte.toNat_lt
  rw [hexPair, List.mem_cons, List.mem_singleton] at mem
  obtain rfl | rfl := mem
  · exact hexDigit_plain _ (by omega)
  · exact hexDigit_plain _ (by omega)

theorem solid_hexPairs (bytes : Bytes) : Solid (hexPairs bytes) :=
  fun char mem => (hexPairs_plain bytes char mem).1

theorem ascii_hexPairs (bytes : Bytes) : Ascii (hexPairs bytes) :=
  fun char mem => (hexPairs_plain bytes char mem).2

theorem hexPairs_length (bytes : Bytes) : (hexPairs bytes).length = 2 * bytes.length := by
  induction bytes with
  | nil => rfl
  | cons byte bytes ih =>
      rw [hexPairs] at ih
      rw [hexPairs, List.flatMap_cons, List.length_append, ih, List.length_cons, hexPair]
      simp only [List.length_cons, List.length_nil]
      omega

end KernelMaps.Text
