import KernelMaps.Proofs.Codec.Rendering

/-!
Which texts are read as words and as fields. A text is a word's if it spells an integer that the
word can hold, and a layout's if it has in braces one such text for every field.
-/

namespace KernelMaps.Codec

open Text (Padded Separated Spells)

def InRange (signed : Bool) (width : Nat) (value : Int) : Prop :=
  if signed then -2 ^ (8 * width - 1) ≤ value ∧ value < 2 ^ (8 * width - 1)
  else 0 ≤ value ∧ value < 2 ^ (8 * width)

theorem cast_bitRange (bits : Nat) : (bitRange bits : Int) = 2 ^ bits :=
  Nat.cast_pow 2 bits

theorem inRange_signed_iff {width : Nat} {value : Int} :
    InRange true width value ↔
      -(bitRange (8 * width - 1) : Int) ≤ value ∧ value < bitRange (8 * width - 1) := by
  rw [cast_bitRange]
  exact Iff.rfl

theorem inRange_unsigned_iff {width : Nat} {value : Int} :
    InRange false width value ↔ 0 ≤ value ∧ value < wordRange width := by
  rw [← bitRange_mul_eight, cast_bitRange]
  exact Iff.rfl

theorem wordValue_signedWordBytes (width : Nat) (value : Int) :
    (wordValue (signedWordBytes width value) : Int) = value % wordRange width := by
  have positive : 0 < wordRange width := Nat.pow_pos (by decide)
  have nonneg : 0 ≤ value % wordRange width := Int.emod_nonneg _ (by omega)
  have below : value % wordRange width < wordRange width := Int.emod_lt_of_pos _ (by omega)
  rw [signedWordBytes, wordValue_wordBytes, Nat.mod_eq_of_lt (by omega), Int.toNat_of_nonneg nonneg]

theorem signedWordBytes_length (width : Nat) (value : Int) :
    (signedWordBytes width value).length = width :=
  wordBytes_length width _

theorem integerValue_signedWordBytes {signed : Bool} {width : Nat} {value : Int}
    (filled : 0 < width) (inRange : InRange signed width value) :
    integerValue signed (signedWordBytes width value) = value := by
  have stored := wordValue_signedWordBytes width value
  cases signed with
  | true =>
      obtain ⟨lower, upper⟩ := inRange_signed_iff.mp inRange
      have doubled := two_mul_bitRange_pred (8 * width) (by omega)
      rw [bitRange_mul_eight] at doubled
      simp only [integerValue, if_true, signedWordValue, stored, signedWordBytes_length,
        Int.emod_bmod]
      exact Int.bmod_eq_of_le_mul_two (by omega) (by omega)
  | false =>
      obtain ⟨lower, upper⟩ := inRange_unsigned_iff.mp inRange
      simp only [integerValue, Bool.false_eq_true, if_false, stored]
      exact Int.emod_eq_of_lt lower upper

theorem signedWordBytes_natCast {width value : Nat} (below : value < wordRange width) :
    signedWordBytes width value = wordBytes width value := by
  have whole : (value : Int) % wordRange width = value :=
    Int.emod_eq_of_lt (Int.natCast_nonneg _) (by omega)
  rw [signedWordBytes, whole, Int.toNat_natCast]

theorem readUnsignedText_eq_ok_iff {text : List Char} {value : Nat} :
    readUnsignedText text = .ok value ↔ Spells false text value ∧ value < bitRange 64 := by
  have positive : 0 < bitRange 64 := by decide
  have within : value ≤ bitRange 64 - 1 ↔ value < bitRange 64 := Nat.le_sub_one_iff_lt positive
  unfold readUnsignedText
  split
  · rw [Text.readNatural_eq_ok_iff, within, Text.spells_marked_iff]
    simp only [Nat.cast_inj, exists_eq_right']
  · next unmarked =>
      rw [Text.readNatural_eq_ok_iff, within, Text.spells_unmarked_iff unmarked]
      simp only [Nat.cast_inj, exists_eq_right']

theorem readInteger_signed_eq_ok_iff {text : String} {width : Nat} {bytes : Bytes}
    (word : isWordWidth width = true) :
    readInteger true text width = .ok bytes ↔
      ∃ value, Text.readSigned 64 (Text.trim text.toList) = .ok value ∧
        InRange true width value ∧ bytes = signedWordBytes width value := by
  simp only [readInteger, word, Bool.not_true, Bool.false_eq_true, if_false, if_true,
    inRange_signed_iff]
  cases Text.readSigned 64 (Text.trim text.toList) with
  | error fault => simp only [reduceCtorEq, false_and, exists_false]
  | ok value =>
      simp only [Except.ok.injEq, exists_eq_left']
      split
      · next outside =>
          simp only [reduceCtorEq, false_iff]
          omega
      · next inside =>
          simp only [Except.ok.injEq, eq_comm (b := bytes), iff_and_self]
          omega

theorem readInteger_unsigned_eq_ok_iff {text : String} {width : Nat} {bytes : Bytes}
    (word : isWordWidth width = true) :
    readInteger false text width = .ok bytes ↔
      ∃ value : Nat, readUnsignedText (Text.trim text.toList) = .ok value ∧
        InRange false width value ∧ bytes = signedWordBytes width value := by
  simp only [readInteger, word, Bool.not_true, Bool.false_eq_true, if_false, inRange_unsigned_iff,
    bitRange_mul_eight]
  cases readUnsignedText (Text.trim text.toList) with
  | error fault => simp only [reduceCtorEq, false_and, exists_false]
  | ok value =>
      simp only [Except.ok.injEq, exists_eq_left']
      split
      · next outside =>
          simp only [reduceCtorEq, false_iff]
          omega
      · next inside =>
          rw [signedWordBytes_natCast (Nat.not_le.mp inside), Except.ok.injEq]
          simp only [eq_comm (b := bytes), iff_and_self]
          omega

theorem readInteger_eq_ok_iff {signed : Bool} {text : String} {width : Nat} {bytes : Bytes}
    (word : isWordWidth width = true) :
    readInteger signed text width = .ok bytes ↔
      ∃ value, Spells signed (Text.trim text.toList) value ∧ InRange signed width value ∧
        bytes = signedWordBytes width value := by
  -- No word has more than 64 bits, so that the range of its width is the one that counts.
  obtain ⟨filled, atMost⟩ := isWordWidth_bounds word
  cases signed with
  | true =>
      have widest := bitRange_mono (show 8 * width - 1 ≤ 64 - 1 by omega)
      rw [readInteger_signed_eq_ok_iff word]
      refine exists_congr fun value => ?_
      rw [Text.readSigned_eq_ok_iff, inRange_signed_iff]
      constructor
      · rintro ⟨⟨spells, -⟩, inRange⟩
        exact ⟨spells, inRange⟩
      · rintro ⟨spells, inRange⟩
        exact ⟨⟨spells, by omega⟩, inRange⟩
  | false =>
      have widest := bitRange_mono (show 8 * width ≤ 64 by omega)
      rw [bitRange_mul_eight] at widest
      rw [readInteger_unsigned_eq_ok_iff word]
      simp only [readUnsignedText_eq_ok_iff, inRange_unsigned_iff]
      constructor
      · rintro ⟨value, ⟨spells, -⟩, inRange⟩
        exact ⟨value, spells, inRange⟩
      · rintro ⟨value, spells, inRange⟩
        obtain ⟨size, rfl⟩ := Int.eq_ofNat_of_zero_le inRange.1.1
        exact ⟨size, ⟨spells, by omega⟩, inRange⟩

theorem readInteger_error {signed : Bool} {text : String} {width : Nat} {error : CodecError}
    (word : isWordWidth width = true) (refused : readInteger signed text width = .error error) :
    ∃ reason, error = .parse text reason := by
  unfold readInteger at refused
  grind

theorem padded_spells_iff {signed : Bool} {text numeral : List Char} {value : Int}
    (spells : Spells signed numeral value) : Padded numeral text ↔ Text.trim text = numeral :=
  Text.padded_iff_of_trim (Text.trim_of_solid spells.solid)

/-- A word accepts what spells an integer in its range, and then stores that integer. It refuses
every other text, and its error has that text as it was given. -/
theorem integer_read_if_in_range (signed : Bool) (text : String) (width : Nat) :
    (isWordWidth width = false →
      (integer signed).parse text width = .error (.width 8 width)) ∧
    (isWordWidth width = true →
      (∀ numeral value, Padded numeral text.toList → Spells signed numeral value →
        InRange signed width value →
          ∃ bytes, (integer signed).parse text width = .ok bytes ∧ bytes.length = width ∧
            integerValue signed bytes = value) ∧
      ((∀ numeral value, Padded numeral text.toList → Spells signed numeral value →
        ¬InRange signed width value) →
          ∃ reason, (integer signed).parse text width = .error (.parse text reason))) := by
  refine ⟨readInteger_of_not_word, fun word => ⟨?_, ?_⟩⟩
  · intro numeral value padded spells inRange
    obtain rfl := (padded_spells_iff spells).mp padded
    refine ⟨signedWordBytes width value, ?_, signedWordBytes_length width value,
      integerValue_signedWordBytes (isWordWidth_bounds word).1 inRange⟩
    exact (readInteger_eq_ok_iff word).mpr ⟨value, spells, inRange, rfl⟩
  · intro noNumeral
    cases read : (integer signed).parse text width with
    | ok bytes =>
        obtain ⟨value, spells, inRange, -⟩ := (readInteger_eq_ok_iff word).mp read
        exact absurd inRange (noNumeral _ value (Text.padded_trim text.toList) spells)
    | error error =>
        obtain ⟨reason, rfl⟩ := readInteger_error word read
        exact ⟨reason, rfl⟩

theorem signed_byte_read_at_its_bounds :
    isWordWidth 3 = false ∧
    (integer true).parse "-128" 3 = .error (.width 8 3) ∧
    isWordWidth 1 = true ∧ Spells true "-128".toList (-128) ∧ InRange true 1 (-128) ∧
    (∃ bytes, (integer true).parse "\t-128 " 1 = .ok bytes ∧ bytes.length = 1 ∧
      integerValue true bytes = -128) ∧
    ∃ reason, (integer true).parse " 128\n" 1 = .error (.parse " 128\n" reason) := by
  have lowest : Spells true "-128".toList (-128) :=
    (Text.readSigned_eq_ok_iff.mp (by decide : Text.readSigned 64 "-128".toList = .ok (-128))).1
  have inRange : InRange true 1 (-128) := ⟨by decide, by decide⟩
  have padded : Padded "-128".toList "\t-128 ".toList :=
    (padded_spells_iff lowest).mpr (by decide)
  refine ⟨rfl, (integer_read_if_in_range true "-128" 3).1 rfl, rfl, lowest, inRange,
    ((integer_read_if_in_range true "\t-128 " 1).2 rfl).1 _ _ padded lowest inRange,
    ((integer_read_if_in_range true " 128\n" 1).2 rfl).2 ?_⟩
  intro numeral value padded spells inRange
  obtain rfl := (padded_spells_iff spells).mp padded
  obtain ⟨lower, upper⟩ := inRange_signed_iff.mp inRange
  have narrow : (bitRange (8 * 1 - 1) : Int) = 128 := by decide
  have wide : (bitRange (64 - 1) : Int) = 9223372036854775808 := by decide
  have read : Text.readSigned 64 (Text.trim " 128\n".toList) = .ok value :=
    Text.readSigned_eq_ok_iff.mpr ⟨spells, by omega, by omega⟩
  have above : Text.readSigned 64 (Text.trim " 128\n".toList) = .ok 128 := by decide
  have same := Except.ok.inj (above.symm.trans read)
  omega

/-- Words between braces; there may be blanks on either side of each brace. -/
def Braced (words : List (List Char)) (text : List Char) : Prop :=
  ∃ inner, Padded ('\x7b' :: (inner ++ ['\x7d'])) text ∧ Separated words inner

/-- The words that the fields of a layout accept one by one, and what they store one behind the
other. -/
inductive Accepted : List Field → List (List Char) → Bytes → Prop where
  | nil : Accepted [] [] []
  | cons {field : Field} {layout : List Field} {word : List Char} {words : List (List Char)}
      {front back : Bytes}
      (first : (integer field.signed).parse (String.ofList word) field.width = .ok front)
      (others : Accepted layout words back) :
      Accepted (field :: layout) (word :: words) (front ++ back)

/-- The error of a field that refuses its word, with every field in front of it accepting its
own. -/
def FirstRefused (layout : List Field) (words : List (List Char)) (error : CodecError) : Prop :=
  ∃ front field back before word after bytes,
    layout = front ++ field :: back ∧ words = before ++ word :: after ∧
    Accepted front before bytes ∧
    (integer field.signed).parse (String.ofList word) field.width = .error error

/-- Why a text is not read as the fields of a layout. -/
inductive Declined (layout : List Field) (text : String) : CodecError → Prop where
  | unbraced (bare : ∀ words, ¬Braced words text.toList) :
      Declined layout text (.parse text .notBraced)
  | miscounted {words : List (List Char)} (braced : Braced words text.toList)
      (otherCount : words.length ≠ layout.length) :
      Declined layout text (.parse text (.fieldCount layout.length words.length))
  | word {words : List (List Char)} {error : CodecError} (braced : Braced words text.toList)
      (sameCount : words.length = layout.length) (first : FirstRefused layout words error) :
      Declined layout text error

theorem insideBraces_eq_some_iff {text inner : List Char} :
    insideBraces text = some inner ↔ Padded ('\x7b' :: (inner ++ ['\x7d'])) text := by
  rw [Text.padded_iff_of_trim (trim_braces inner), insideBraces, Option.bind_eq_some_iff]
  simp only [Text.stripLead_eq_some_iff, Text.stripLast_eq_some_iff, exists_eq_right,
    List.singleton_append]

theorem braced_iff {words : List (List Char)} {text : List Char} :
    Braced words text ↔ ∃ inner, insideBraces text = some inner ∧ Text.words inner = words := by
  simp only [Braced, insideBraces_eq_some_iff, Text.words_eq_iff]

theorem Accepted.readFields_append {front layout : List Field} {before words : List (List Char)}
    {bytes : Bytes} (accepted : Accepted front before bytes) :
    readFields (front ++ layout) (before ++ words) =
      (readFields layout words).map fun rest => bytes ++ rest := by
  induction accepted with
  | nil =>
      rw [List.nil_append, List.nil_append]
      cases readFields layout words <;> rfl
  | cons first _ ih =>
      rw [List.cons_append, List.cons_append, readFields, ih, show readInteger _ _ _ = _ from first]
      cases readFields layout words with
      | error error => rfl
      | ok rest => exact congrArg Except.ok (List.append_assoc ..).symm

theorem Accepted.readFields_eq {layout : List Field} {words : List (List Char)} {bytes : Bytes}
    (accepted : Accepted layout words bytes) : readFields layout words = .ok bytes := by
  have read : readFields (layout ++ []) (words ++ []) = _ := accepted.readFields_append
  rw [List.append_nil, List.append_nil] at read
  exact read.trans (congrArg Except.ok (List.append_nil bytes))

theorem Accepted.length_eq {layout : List Field} {words : List (List Char)} {bytes : Bytes}
    (accepted : Accepted layout words bytes) : words.length = layout.length := by
  induction accepted with
  | nil => rfl
  | cons _ _ ih => rw [List.length_cons, List.length_cons, ih]

theorem FirstRefused.readFields_eq {layout : List Field} {words : List (List Char)}
    {error : CodecError} (first : FirstRefused layout words error) :
    readFields layout words = .error error := by
  obtain ⟨front, field, back, before, word, after, bytes, rfl, rfl, accepted, refused⟩ := first
  rw [accepted.readFields_append, readFields, show readInteger _ _ _ = _ from refused]
  rfl

theorem FirstRefused.cons {field : Field} {layout : List Field} {word : List Char}
    {words : List (List Char)} {error : CodecError} {bytes : Bytes}
    (first : FirstRefused layout words error)
    (accepted : (integer field.signed).parse (String.ofList word) field.width = .ok bytes) :
    FirstRefused (field :: layout) (word :: words) error := by
  obtain ⟨front, failing, back, before, bad, after, stored, rfl, rfl, others, refused⟩ := first
  exact ⟨field :: front, failing, back, word :: before, bad, after, bytes ++ stored, rfl, rfl,
    .cons accepted others, refused⟩

theorem accepted_or_firstRefused {layout : List Field} {words : List (List Char)}
    (sameCount : words.length = layout.length) :
    (∃ bytes, Accepted layout words bytes) ∨ ∃ error, FirstRefused layout words error := by
  induction layout generalizing words with
  | nil =>
      obtain rfl := List.eq_nil_of_length_eq_zero sameCount
      exact .inl ⟨[], .nil⟩
  | cons field layout ih =>
      obtain ⟨word, words, rfl⟩ := List.exists_cons_of_length_eq_add_one sameCount
      cases read : (integer field.signed).parse (String.ofList word) field.width with
      | error error =>
          exact .inr ⟨error, [], field, layout, [], word, words, [], rfl, rfl, .nil, read⟩
      | ok bytes =>
          rcases ih (Nat.succ.inj sameCount) with ⟨others, accepted⟩ | ⟨error, refused⟩
          · exact .inl ⟨_, .cons read accepted⟩
          · exact .inr ⟨error, refused.cons read⟩

section

variable {layout : List Field} {text : String} {width : Nat} (exact : totalWidth layout = width)
include exact

theorem parseFields_of_braced {words : List (List Char)} (braced : Braced words text.toList)
    (sameCount : words.length = layout.length) :
    parseFields layout text width = readFields layout words := by
  obtain ⟨inner, inside, rfl⟩ := braced_iff.mp braced
  rw [← exact, parseFields_totalWidth, inside]
  exact if_neg (not_not_intro sameCount)

theorem Declined.parseFields_eq {error : CodecError} (declined : Declined layout text error) :
    parseFields layout text width = .error error := by
  cases declined with
  | unbraced bare =>
      have outside : insideBraces text.toList = none := by
        refine Option.eq_none_iff_forall_ne_some.mpr fun inner inside => ?_
        exact bare _ (braced_iff.mpr ⟨inner, inside, rfl⟩)
      rw [← exact, parseFields_totalWidth, outside]
  | miscounted braced otherCount =>
      obtain ⟨inner, inside, rfl⟩ := braced_iff.mp braced
      rw [← exact, parseFields_totalWidth, inside]
      exact if_pos otherCount
  | word braced sameCount first =>
      rw [parseFields_of_braced exact braced sameCount, first.readFields_eq]

end

theorem accepted_or_declined (layout : List Field) (text : String) :
    (∃ words bytes, Braced words text.toList ∧ Accepted layout words bytes) ∨
      ∃ error, Declined layout text error := by
  by_cases bare : ∀ words, ¬Braced words text.toList
  · exact .inr ⟨_, .unbraced bare⟩
  · obtain ⟨words, braced⟩ := not_forall_not.mp bare
    by_cases sameCount : words.length = layout.length
    · rcases accepted_or_firstRefused sameCount with ⟨bytes, accepted⟩ | ⟨error, first⟩
      · exact .inl ⟨words, bytes, braced, accepted⟩
      · exact .inr ⟨error, .word braced sameCount first⟩
    · exact .inr ⟨_, .miscounted braced sameCount⟩

theorem expected_of_readInteger {signed : Bool} {text : String} {width expected actual : Nat}
    (refused : readInteger signed text width = .error (.width expected actual)) : expected = 8 := by
  unfold readInteger at refused
  grind

theorem expected_of_readFields {layout : List Field} {words : List (List Char)}
    {expected actual : Nat} (refused : readFields layout words = .error (.width expected actual)) :
    expected = 8 := by
  induction layout generalizing words with
  | nil => cases words <;> cases refused
  | cons field layout ih =>
      cases words with
      | nil => cases refused
      | cons word words =>
          cases first : readInteger field.signed (String.ofList word) field.width with
          | error error =>
              rw [readFields, first] at refused
              obtain rfl := Except.error.inj refused
              exact expected_of_readInteger first
          | ok bytes =>
              cases others : readFields layout words with
              | error error =>
                  rw [readFields, first, others] at refused
                  obtain rfl := Except.error.inj refused
                  exact ih others
              | ok rest =>
                  rw [readFields, first, others] at refused
                  cases refused

theorem expected_of_readWithin {layout : List Field} {words : List (List Char)} {width : Nat}
    {expected actual : Nat}
    (refused : readWithin layout words width = .error (.width expected actual)) : expected = 8 := by
  cases read : readFields (fieldsWithin width layout) words with
  | error error =>
      rw [readWithin, read] at refused
      obtain rfl := Except.error.inj refused
      exact expected_of_readFields read
  | ok bytes =>
      by_cases exact : totalWidth layout = width
      · simp [readWithin, read, exact, bind, Except.bind, pure, Except.pure] at refused
      · simp [readWithin, read, exact, bind, Except.bind, throw, throwThe, MonadExceptOf.throw]
          at refused

/-- A sum of widths that is no word is never what a text is held against. -/
theorem small_of_refused {layout : List Field} {text : String} {width : Nat}
    (refused : parseFields layout text width = .error (.width (totalWidth layout) width)) :
    totalWidth layout < bitRange 64 := by
  rw [← machineSize_eq_iff]
  by_cases passed : machineSize (totalWidth layout) = machineSize width
  · have checked : checkWidths layout width = .ok () := if_pos passed
    rw [parseFields, checked] at refused
    cases inner : insideBraces text.toList with
    | none =>
        rw [inner] at refused
        cases refused
    | some inside =>
        rw [inner] at refused
        by_cases counts : (Text.words inside).length = layout.length
        · simp only [counts, ne_eq, not_true_eq_false, if_false] at refused
          have eight : totalWidth layout = 8 := expected_of_readWithin refused
          rw [eight]
          rfl
        · simp only [ne_eq, counts, not_false_eq_true, if_true] at refused
          cases refused
  · have stopped : parseFields layout text width =
        .error (.width (machineSize (totalWidth layout)) width) := by
      rw [parseFields, checkWidths, if_neg passed]
      rfl
    rw [stopped] at refused
    exact (CodecError.width.inj (Except.error.inj refused)).1

theorem parseFields_of_other_width {layout : List Field} (text : String) {width : Nat}
    (other : totalWidth layout ≠ width) (small : totalWidth layout < bitRange 64)
    (wordSized : width < bitRange 64) :
    parseFields layout text width = .error (.width (totalWidth layout) width) := by
  rw [parseFields, checkWidths, machineSize_of_lt small, machineSize_of_lt wordSized, if_neg other]
  rfl

def halves : List Field :=
  [⟨false, 0x8000000000000000⟩, ⟨false, 0x8000000000000000⟩]

end KernelMaps.Codec
