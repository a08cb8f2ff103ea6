import KernelMaps.Codec.Hex
import KernelMaps.Proofs.Text.Layout
import KernelMaps.Proofs.Text.Spelling

/-!
Which texts are read as hexadecimal. What counts is what is left behind an optional mark and between
blanks: it has to be two digits for every byte that is wanted, and no sign, blank or second mark is
a digit. The lengths that the errors speak of are lengths in bytes, whatever the characters are.
-/

namespace KernelMaps.Codec

open Text (DigitOf Trimmed)

/-- What is left of a text without the blanks at its ends and without one mark behind these. -/
inductive Remains (text : List Char) : List Char → Prop where
  | marked {mark : Char} {rest : List Char} (cased : mark = 'x' ∨ mark = 'X')
      (trimmed : Trimmed ('0' :: mark :: rest) text) : Remains text rest
  | bare {rest : List Char} (unmarked : ∀ mark more, rest = '0' :: mark :: more →
      mark ≠ 'x' ∧ mark ≠ 'X') (trimmed : Trimmed rest text) : Remains text rest

def HexDigit (char : Char) : Prop :=
  ∃ value, DigitOf 16 char value

inductive Pairs : List Char → Bytes → Prop where
  | nil : Pairs [] []
  | cons {high low : Char} {upper lower : Nat} {byte : UInt8} {rest : List Char} {bytes : Bytes}
      (first : DigitOf 16 high upper) (second : DigitOf 16 low lower)
      (worth : byte.toNat = 16 * upper + lower) (others : Pairs rest bytes) :
      Pairs (high :: low :: rest) (byte :: bytes)

theorem remains_iff {text rest : List Char} : Remains text rest ↔ hexDigits text = rest := by
  constructor
  · rintro (⟨rfl | rfl, trimmed⟩ | ⟨unmarked, trimmed⟩)
    · simp only [hexDigits, Text.trimmed_iff.mp trimmed]
    · simp only [hexDigits, Text.trimmed_iff.mp trimmed]
    · rw [hexDigits, Text.trimmed_iff.mp trimmed]
      split
      · exact absurd rfl (unmarked _ _ rfl).1
      · exact absurd rfl (unmarked _ _ rfl).2
      · rfl
  · rintro rfl
    rw [hexDigits]
    split
    · next trimmed => exact .marked (.inl rfl) (Text.trimmed_iff.mpr trimmed)
    · next trimmed => exact .marked (.inr rfl) (Text.trimmed_iff.mpr trimmed)
    · next noLower noUpper =>
        refine .bare ?_ (Text.trimmed_iff.mpr rfl)
        rintro mark more marked
        constructor
        · rintro rfl
          exact noLower more marked
        · rintro rfl
          exact noUpper more marked

theorem byte_eq_iff {upper lower : Nat} (upperBelow : upper < 16) (lowerBelow : lower < 16)
    {byte : UInt8} : UInt8.ofNat (16 * upper + lower) = byte ↔
      byte.toNat = 16 * upper + lower := by
  rw [← UInt8.toNat_inj, UInt8.toNat_ofNat']
  omega

theorem readHexPairs_eq_some_iff {rest : List Char} {bytes : Bytes} :
    Text.readHexPairs rest = some bytes ↔ Pairs rest bytes := by
  induction rest using Text.readHexPairs.induct generalizing bytes with
  | case1 =>
      rw [Text.readHexPairs, Option.some.injEq]
      constructor
      · rintro rfl
        exact .nil
      · rintro ⟨⟩
        rfl
  | case2 char =>
      rw [Text.readHexPairs]
      constructor
      · intro found
        contradiction
      · rintro ⟨⟩
  | case3 high low rest ih =>
      simp only [Text.readHexPairs, Option.bind_eq_bind, Option.bind_eq_some_iff, Option.pure_def,
        Option.some.injEq, Text.digitValue?_eq_some_iff, ih]
      constructor
      · rintro ⟨upper, first, lower, second, others, denoted, rfl⟩
        exact .cons first second ((byte_eq_iff first.2 second.2).mp rfl) denoted
      · rintro (_ | ⟨first, second, worth, denoted⟩)
        refine ⟨_, first, _, second, _, denoted, ?_⟩
        rw [(byte_eq_iff first.2 second.2).mpr worth]

theorem Pairs.hexDigits {rest : List Char} {bytes : Bytes} (pairs : Pairs rest bytes) :
    rest.length = 2 * bytes.length ∧ ∀ char ∈ rest, HexDigit char := by
  induction pairs with
  | nil => exact ⟨rfl, List.forall_mem_nil _⟩
  | cons first second _ _ ih =>
      constructor
      · simp only [List.length_cons, ih.1]
        omega
      · exact List.forall_mem_cons.mpr ⟨⟨_, first⟩, List.forall_mem_cons.mpr ⟨⟨_, second⟩, ih.2⟩⟩

theorem exists_pairs {rest : List Char} {width : Nat} (size : rest.length = 2 * width)
    (digits : ∀ char ∈ rest, HexDigit char) : ∃ bytes, bytes.length = width ∧ Pairs rest bytes := by
  induction width generalizing rest with
  | zero =>
      obtain rfl := List.eq_nil_of_length_eq_zero size
      exact ⟨[], rfl, .nil⟩
  | succ width ih =>
      obtain ⟨high, others, rfl⟩ := List.exists_cons_of_length_pos (l := rest) (by omega)
      rw [List.length_cons] at size
      obtain ⟨low, behind, rfl⟩ := List.exists_cons_of_length_pos (l := others) (by omega)
      simp only [List.length_cons, List.forall_mem_cons] at size digits
      obtain ⟨⟨upper, first⟩, ⟨lower, second⟩, digits⟩ := digits
      obtain ⟨bytes, filled, pairs⟩ := ih (by omega) digits
      have worth : (UInt8.ofNat (16 * upper + lower)).toNat = 16 * upper + lower :=
        (byte_eq_iff first.2 second.2).mp rfl
      refine ⟨UInt8.ofNat (16 * upper + lower) :: bytes, ?_, ?_⟩
      · rw [List.length_cons, filled]
      · exact .cons first second worth pairs

theorem hexDigit_iff {char : Char} :
    HexDigit char ↔ (Text.digitValue? 16 char).isSome = true := by
  simp only [HexDigit, ← Text.digitValue?_eq_some_iff, Option.isSome_iff_exists]

instance : DecidablePred HexDigit :=
  fun _ => decidable_of_iff _ hexDigit_iff.symm

theorem ascii_of_hexDigits {rest : List Char} (digits : ∀ char ∈ rest, HexDigit char) :
    Text.Ascii rest := by
  intro char member
  obtain ⟨value, digit, -⟩ := digits char member
  have codes := digit.code_bounds
  omega

section

variable {text : String} {width : Nat}

theorem readHex_of_odd (odd : (Text.utf8 (hexDigits text.toList)).length % 2 = 1) :
    readHex text width = .error (.parse text .oddDigits) := by
  rw [Text.utf8_length] at odd
  exact if_pos (by omega)

theorem readHex_of_other_width (even : (Text.utf8 (hexDigits text.toList)).length % 2 = 0)
    (other : (Text.utf8 (hexDigits text.toList)).length ≠ 2 * width) :
    readHex text width =
      .error (.width width ((Text.utf8 (hexDigits text.toList)).length / 2)) := by
  rw [Text.utf8_length] at even other ⊢
  simp only [readHex, even, ne_eq, not_true_eq_false, if_false]
  exact if_pos (by omega)

theorem readHex_of_width (exact : (Text.utf8 (hexDigits text.toList)).length = 2 * width) :
    readHex text width = match Text.readHexPairs (hexDigits text.toList) with
      | some bytes => .ok bytes
      | none => .error (.parse text .notHex) := by
  have even : ¬2 * width % 2 ≠ 0 := by omega
  have half : ¬2 * width / 2 ≠ width := by omega
  rw [Text.utf8_length] at exact
  simp only [readHex, exact, if_neg even, if_neg half]
  cases read : Text.readHexPairs (hexDigits text.toList) with
  | none => rfl
  | some bytes =>
      obtain ⟨size, digits⟩ := (readHexPairs_eq_some_iff.mp read).hexDigits
      rw [Text.utf8Length_of_ascii (ascii_of_hexDigits digits)] at exact
      exact if_pos (by omega)

theorem readHex_eq_ok_iff {bytes : Bytes} :
    readHex text width = .ok bytes ↔ bytes.length = width ∧ Pairs (hexDigits text.toList) bytes := by
  constructor
  · intro read
    have exact : (Text.utf8 (hexDigits text.toList)).length = 2 * width := by
      by_contra other
      rcases Nat.mod_two_eq_zero_or_one (Text.utf8 (hexDigits text.toList)).length with even | odd
      · rw [readHex_of_other_width even other] at read
        contradiction
      · rw [readHex_of_odd odd] at read
        contradiction
    refine ⟨readHex_length text width bytes read, readHexPairs_eq_some_iff.mp ?_⟩
    rw [readHex_of_width exact] at read
    split at read
    · next found =>
        rw [found, Except.ok.inj read]
    · contradiction
  · rintro ⟨filled, pairs⟩
    obtain ⟨size, digits⟩ := pairs.hexDigits
    have exact : (Text.utf8 (hexDigits text.toList)).length = 2 * width := by
      rw [Text.utf8_length_of_ascii (ascii_of_hexDigits digits), size, filled]
    rw [readHex_of_width exact, readHexPairs_eq_some_iff.mpr pairs]

end

/-- Of every text one part counts, and it is read exactly if it is two digits for every byte that is
wanted. The error of any other part says whether its bytes are odd in number, are too few or too
many, or are no digits. -/
theorem hex_read_or_declined (text : String) (width : Nat) :
    ∃ rest, (∀ other, Remains text.toList other ↔ other = rest) ∧
      ((∃ bytes, hex.parse text width = .ok bytes) ↔
        rest.length = 2 * width ∧ ∀ char ∈ rest, HexDigit char) ∧
      (∀ bytes, hex.parse text width = .ok bytes ↔ bytes.length = width ∧ Pairs rest bytes) ∧
      ((Text.utf8 rest).length % 2 = 1 → hex.parse text width = .error (.parse text .oddDigits)) ∧
      ((Text.utf8 rest).length % 2 = 0 → (Text.utf8 rest).length ≠ 2 * width →
        hex.parse text width = .error (.width width ((Text.utf8 rest).length / 2))) ∧
      ((Text.utf8 rest).length = 2 * width → (¬∀ char ∈ rest, HexDigit char) →
        hex.parse text width = .error (.parse text .notHex)) := by
  have parse : hex.parse text width = readHex text width := rfl
  simp only [parse]
  refine ⟨hexDigits text.toList, ?_, ?_, fun _ => readHex_eq_ok_iff, readHex_of_odd,
    readHex_of_other_width, ?_⟩
  · intro other
    rw [remains_iff, eq_comm]
  · simp only [readHex_eq_ok_iff]
    constructor
    · rintro ⟨bytes, rfl, pairs⟩
      exact pairs.hexDigits
    · rintro ⟨size, digits⟩
      exact exists_pairs size digits
  · intro exact noDigits
    rw [readHex_of_width exact]
    cases read : Text.readHexPairs (hexDigits text.toList) with
    | none => rfl
    | some bytes => exact absurd (readHexPairs_eq_some_iff.mp read).hexDigits.2 noDigits

theorem hex_declines_what_only_fits :
    hex.parse "\t0X0aFf\u2003" 2 = .ok [0x0A, 0xFF] ∧
    (Text.utf8 "abc".toList).length % 2 = 1 ∧
    hex.parse "0xabc" 2 = .error (.parse "0xabc" .oddDigits) ∧
    (Text.utf8 "0aFf".toList).length ≠ 2 * 3 ∧
    hex.parse "0aFf" 3 = .error (.width 3 2) ∧
    ∀ text ∈ ["+1", "0x0x", "\u00E9"],
      (Text.utf8 (hexDigits text.toList)).length = 2 * 1 ∧
      (¬∀ char ∈ hexDigits text.toList, HexDigit char) ∧
      hex.parse text 1 = .error (.parse text .notHex) := by
  refine ⟨?_, by decide +kernel, ?_, by decide +kernel, ?_, ?_⟩
  · obtain ⟨rest, only, -, read, -⟩ := hex_read_or_declined "\t0X0aFf\u2003" 2
    obtain rfl := (only "0aFf".toList).mp (remains_iff.mpr (by decide))
    exact (read _).mpr ⟨rfl, readHexPairs_eq_some_iff.mp (by decide)⟩
  · obtain ⟨rest, only, -, -, odd, -⟩ := hex_read_or_declined "0xabc" 2
    obtain rfl := (only "abc".toList).mp (remains_iff.mpr (by decide))
    exact odd (by decide +kernel)
  · obtain ⟨rest, only, -, -, -, wide, -⟩ := hex_read_or_declined "0aFf" 3
    obtain rfl := (only "0aFf".toList).mp (remains_iff.mpr (by decide))
    exact wide (by decide +kernel) (by decide +kernel)
  · have strays : ∀ text ∈ ["+1", "0x0x", "\u00E9"],
        (Text.utf8 (hexDigits text.toList)).length = 2 * 1 ∧
          (hexDigits text.toList).all (HexDigit ·) = false := by
      decide +kernel
    intro text member
    obtain ⟨fits, stray⟩ := strays text member
    have odd : ¬∀ char ∈ hexDigits text.toList, HexDigit char := by
      intro digits
      simp only [List.all_eq_false, decide_eq_true_eq] at stray
      obtain ⟨char, within, stray⟩ := stray
      exact stray (digits char within)
    obtain ⟨rest, only, -, -, -, -, declined⟩ := hex_read_or_declined text 1
    obtain rfl := (only _).mp (remains_iff.mpr rfl)
    exact ⟨fits, odd, declined fits odd⟩

end KernelMaps.Codec
