import KernelMaps.Codec
import KernelMaps.Proofs.Text.Layout
import KernelMaps.Proofs.Text.Numerals

/-!
Codecs lose nothing: what they write for some bytes, they read back as these bytes. The
hexadecimal codec does so at every width, an integer codec at the widths of words, and a codec of
fields at the width that its fields fill, if each of them is a word.
-/

namespace KernelMaps.Codec

open Text (Ascii Solid spaced)

/-- The text is the one that a codec gives for some bytes wherever there is room for it. -/
structure Writes (codec : Codec) (bytes : Bytes) (text : String) : Prop where
  format : ∀ limit, codec.format bytes limit = withinLimit text.toList limit
  render : ∀ limit, (Text.utf8 text.toList).length ≤ limit → codec.render bytes limit = .ok text

theorem writes_of_ascii {codec : Codec} {bytes : Bytes} {text : List Char} (ascii : Ascii text)
    (format : ∀ limit, codec.format bytes limit = withinLimit text limit) :
    codec.Writes bytes (String.ofList text) := by
  refine ⟨by simpa using format, ?_⟩
  intro limit room
  rw [String.toList_ofList] at room
  have written : codec.format bytes limit = .ok (Text.utf8 text) :=
    (format limit).trans (if_pos room)
  simp only [render, written, Text.decodeUtf8?_utf8 ascii, bind, Except.bind]
  rfl

theorem Writes.unique {codec : Codec} {bytes : Bytes} {first second : String}
    (left : codec.Writes bytes first) (right : codec.Writes bytes second) : first = second := by
  have fromLeft := left.render _ (Nat.le_max_left _ (Text.utf8 second.toList).length)
  have fromRight := right.render _ (Nat.le_max_right (Text.utf8 first.toList).length _)
  exact Except.ok.inj (fromLeft.symm.trans fromRight)

/-- Whether a codec writes bytes of a width so that reading its text gives them back. -/
def Restores (codec : Codec) (width : Nat) : Prop :=
  ∀ bytes, bytes.length = width →
    ∃ text, codec.Writes bytes text ∧ codec.parse text width = .ok bytes

/-- Writing two pieces one behind the other runs out of room where writing both at once does. -/
theorem appendWithin_bind {limit : Nat} {written first second : List Char}
    {next : List Char → Except CodecError (List Char)}
    (follows : (written ++ first).length ≤ limit →
      next (written ++ first) = appendWithin limit (written ++ first) second) :
    (appendWithin limit written first >>= next) = appendWithin limit written (first ++ second) := by
  by_cases room : (written ++ first).length ≤ limit
  · rw [appendWithin, if_pos room]
    refine (follows room).trans ?_
    simp only [appendWithin, List.append_assoc]
  · have noRoom : ¬(written ++ (first ++ second)).length ≤ limit := by
      rw [← List.append_assoc, List.length_append]
      omega
    rw [appendWithin, if_neg room, appendWithin, if_neg noRoom]
    rfl

theorem appendWithin_utf8 {text : List Char} (ascii : Ascii text) (limit : Nat) :
    (appendWithin limit [] text >>= fun written => pure (Text.utf8 written)) =
      withinLimit text limit := by
  rw [withinLimit, Text.utf8_length_of_ascii ascii, appendWithin, List.nil_append]
  split <;> rfl

def hexText (bytes : Bytes) : List Char :=
  '0' :: 'x' :: Text.hexPairs bytes

theorem solid_hexText (bytes : Bytes) : Solid (hexText bytes) := by
  rw [hexText, Text.solid_cons, Text.solid_cons]
  exact ⟨by decide, by decide, Text.solid_hexPairs bytes⟩

theorem ascii_hexText (bytes : Bytes) : Ascii (hexText bytes) := by
  rw [hexText, Text.ascii_cons, Text.ascii_cons]
  exact ⟨by decide, by decide, Text.ascii_hexPairs bytes⟩

theorem readHex_hexText (bytes : Bytes) :
    readHex (String.ofList (hexText bytes)) bytes.length = .ok bytes := by
  have trimmed := Text.trim_of_solid (solid_hexText bytes)
  have digits : hexDigits (hexText bytes) = Text.hexPairs bytes := by
    rw [hexDigits, trimmed]
    rfl
  have size : Text.utf8Length (Text.hexPairs bytes) = 2 * bytes.length := by
    rw [Text.utf8Length_of_ascii (Text.ascii_hexPairs bytes), Text.hexPairs_length]
  have even : ¬2 * bytes.length % 2 ≠ 0 := by omega
  have half : ¬2 * bytes.length / 2 ≠ bytes.length := by omega
  simp only [readHex, String.toList_ofList, digits, size, if_neg even, if_neg half,
    Text.readHexPairs_hexPairs, if_true]

theorem writeHexPairs_eq {limit : Nat} (bytes : Bytes) {written : List Char}
    (room : written.length ≤ limit) :
    writeHexPairs limit bytes written = appendWithin limit written (Text.hexPairs bytes) := by
  induction bytes generalizing written with
  | nil =>
      have nothing : written ++ Text.hexPairs [] = written := List.append_nil written
      rw [appendWithin, nothing, if_pos room]
      rfl
  | cons byte bytes ih =>
      have split : Text.hexPairs (byte :: bytes) = Text.hexPair byte ++ Text.hexPairs bytes := rfl
      rw [split, writeHexPairs]
      exact appendWithin_bind fun fits => ih fits

theorem formatHex_eq (bytes : Bytes) (limit : Nat) :
    formatHex bytes limit = withinLimit (hexText bytes) limit := by
  have pieces : (appendWithin limit [] ['0', 'x'] >>= fun opened =>
      writeHexPairs limit bytes opened) = appendWithin limit [] (hexText bytes) :=
    appendWithin_bind fun room => writeHexPairs_eq bytes room
  rw [← appendWithin_utf8 (ascii_hexText bytes), ← pieces, bind_assoc]
  rfl

theorem writes_hexText (bytes : Bytes) : hex.Writes bytes (String.ofList (hexText bytes)) :=
  writes_of_ascii (ascii_hexText bytes) (formatHex_eq bytes)

theorem hex_restores (width : Nat) : hex.Restores width := by
  rintro bytes rfl
  refine ⟨String.ofList (hexText bytes), writes_hexText bytes, ?_⟩
  simp only [hex, readHex_hexText]

theorem isWordWidth_bounds {width : Nat} (word : isWordWidth width = true) :
    0 < width ∧ width ≤ 8 := by
  simp only [isWordWidth, Bool.or_eq_true, decide_eq_true_eq] at word
  omega

theorem signedWordValue_bounds {bytes : Bytes} (filled : 0 < bytes.length) :
    -(bitRange (8 * bytes.length - 1) : Int) ≤ signedWordValue bytes ∧
      signedWordValue bytes < bitRange (8 * bytes.length - 1) := by
  have doubled := two_mul_bitRange_pred (8 * bytes.length) (by omega)
  rw [bitRange_mul_eight] at doubled
  have positive : 0 < wordRange bytes.length := Nat.pow_pos (by decide)
  have lower := Int.le_bmod (x := wordValue bytes) positive
  have upper := Int.bmod_lt (x := wordValue bytes) positive
  rw [signedWordValue]
  omega

theorem signedWordBytes_signedWordValue (bytes : Bytes) :
    signedWordBytes bytes.length (signedWordValue bytes) = bytes := by
  have bound := wordValue_lt bytes
  have whole : (wordValue bytes : Int) % wordRange bytes.length = wordValue bytes :=
    Int.emod_eq_of_lt (Int.natCast_nonneg _) (by omega)
  rw [signedWordBytes, signedWordValue, Int.bmod_emod, whole, Int.toNat_natCast,
    wordBytes_wordValue]

theorem solid_integerText (signed : Bool) (bytes : Bytes) : Solid (integerText signed bytes) := by
  cases signed with
  | true => exact Text.solid_signedDecimal _
  | false => exact Text.solid_decimal _

theorem ascii_integerText (signed : Bool) (bytes : Bytes) : Ascii (integerText signed bytes) := by
  cases signed with
  | true => exact Text.ascii_signedDecimal _
  | false => exact Text.ascii_decimal _

theorem integerText_ne_nil (signed : Bool) (bytes : Bytes) : integerText signed bytes ≠ [] := by
  cases signed with
  | true => exact Text.signedDecimal_ne_nil _
  | false => exact Text.decimal_ne_nil _

theorem readUnsignedText_decimal {value : Nat} (within : value ≤ bitRange 64 - 1) :
    readUnsignedText (Text.decimal value) = .ok value := by
  unfold readUnsignedText
  split
  · next digits written =>
      have digit : 'x'.isDigit = true :=
        Text.isDigit_of_mem_decimal value (by simp [written])
      contradiction
  · exact Text.readNatural_decimal within

theorem readInteger_integerText (signed : Bool) (bytes : Bytes)
    (word : isWordWidth bytes.length = true) :
    readInteger signed (String.ofList (integerText signed bytes)) bytes.length = .ok bytes := by
  obtain ⟨filled, atMost⟩ := isWordWidth_bounds word
  have trimmed := Text.trim_of_solid (solid_integerText signed bytes)
  simp only [readInteger, word, Bool.not_true, Bool.false_eq_true, if_false, String.toList_ofList,
    trimmed]
  cases signed with
  | true =>
      obtain ⟨lower, upper⟩ := signedWordValue_bounds filled
      have widest := bitRange_mono (show 8 * bytes.length - 1 ≤ 64 - 1 by omega)
      have read : Text.readSigned 64 (integerText true bytes) = .ok (signedWordValue bytes) :=
        Text.readSigned_signedDecimal (by omega) (by omega)
      have inside : ¬(signedWordValue bytes < -bitRange (8 * bytes.length - 1) ∨
          bitRange (8 * bytes.length - 1) ≤ signedWordValue bytes) := by omega
      simp only [if_true, read, if_neg inside, signedWordBytes_signedWordValue]
  | false =>
      have bound := wordValue_lt bytes
      rw [← bitRange_mul_eight] at bound
      have widest := bitRange_mono (show 8 * bytes.length ≤ 64 by omega)
      have read : readUnsignedText (integerText false bytes) = .ok (wordValue bytes) :=
        readUnsignedText_decimal (by omega)
      have inside : ¬bitRange (8 * bytes.length) ≤ wordValue bytes := by omega
      simp only [Bool.false_eq_true, if_false, read, if_neg inside, wordBytes_wordValue]

theorem readInteger_of_not_word {signed : Bool} {text : String} {width : Nat}
    (noWord : isWordWidth width = false) :
    readInteger signed text width = .error (.width 8 width) := by
  rw [readInteger, noWord]
  rfl

theorem writeInteger_eq_ok (signed : Bool) (bytes : Bytes)
    (word : isWordWidth bytes.length = true) :
    writeInteger signed bytes = .ok (integerText signed bytes) :=
  if_pos word

theorem writes_integerText (signed : Bool) {bytes : Bytes}
    (word : isWordWidth bytes.length = true) :
    (integer signed).Writes bytes (String.ofList (integerText signed bytes)) := by
  refine writes_of_ascii (ascii_integerText signed bytes) ?_
  intro limit
  simp only [integer, writeInteger_eq_ok signed bytes word, bind, Except.bind]

theorem integer_restores (signed : Bool) {width : Nat} (word : isWordWidth width = true) :
    (integer signed).Restores width := by
  rintro bytes rfl
  exact ⟨String.ofList (integerText signed bytes), writes_integerText signed word,
    readInteger_integerText signed bytes word⟩

def fieldTexts : List Field → Bytes → List (List Char)
  | [], _ => []
  | field :: fields, bytes =>
      integerText field.signed (bytes.take field.width) ::
        fieldTexts fields (bytes.drop field.width)

theorem fieldTexts_property {property : List Char → Prop}
    (every : ∀ signed bytes, property (integerText signed bytes)) (layout : List Field)
    (bytes : Bytes) : ∀ text ∈ fieldTexts layout bytes, property text := by
  induction layout generalizing bytes with
  | nil => exact List.forall_mem_nil _
  | cons field layout ih => exact List.forall_mem_cons.mpr ⟨every _ _, ih _⟩

theorem fieldTexts_length (layout : List Field) (bytes : Bytes) :
    (fieldTexts layout bytes).length = layout.length := by
  induction layout generalizing bytes with
  | nil => rfl
  | cons field layout ih => rw [fieldTexts, List.length_cons, List.length_cons, ih]

def fieldsText (layout : List Field) (bytes : Bytes) : List Char :=
  '\x7b' :: (spaced (fieldTexts layout bytes) ++ [' ', '\x7d'])

theorem ascii_fieldsText (layout : List Field) (bytes : Bytes) :
    Ascii (fieldsText layout bytes) := by
  rw [fieldsText, Text.ascii_cons, Text.ascii_append]
  refine ⟨by decide, ?_, by simp [Ascii]⟩
  intro char mem
  obtain ⟨text, written, mem⟩ := List.mem_flatMap.mp mem
  have ascii := fieldTexts_property ascii_integerText layout bytes text written
  exact (Text.ascii_cons.mpr ⟨by decide, ascii⟩ : Ascii (' ' :: text)) char mem

theorem trim_braces (inner : List Char) :
    Text.trim ('\x7b' :: (inner ++ ['\x7d'])) = '\x7b' :: (inner ++ ['\x7d']) := by
  refine Text.trim_of_ends ?_ ?_
  · rintro char first
    rw [List.head?_cons, Option.some.injEq] at first
    rw [← first]
    decide
  · rintro char last
    rw [← List.cons_append, List.getLast?_concat, Option.some.injEq] at last
    rw [← last]
    decide

theorem insideBraces_fieldsText (layout : List Field) (bytes : Bytes) :
    insideBraces (fieldsText layout bytes) = some (spaced (fieldTexts layout bytes) ++ [' ']) := by
  have regroup : fieldsText layout bytes =
      '\x7b' :: ((spaced (fieldTexts layout bytes) ++ [' ']) ++ ['\x7d']) := by
    simp [fieldsText]
  rw [insideBraces, regroup, trim_braces]
  simp [Text.stripLead, Text.stripLast]

theorem lengths_of_split {field : Field} {layout : List Field} {bytes : Bytes}
    (exact : bytes.length = totalWidth (field :: layout)) :
    (bytes.take field.width).length = field.width ∧
      (bytes.drop field.width).length = totalWidth layout := by
  rw [totalWidth] at exact
  rw [List.length_take, List.length_drop]
  omega

section

variable {layout : List Field} (words : ∀ field ∈ layout, isWordWidth field.width = true)
include words

theorem writeFields_eq {limit : Nat} {bytes : Bytes} {written : List Char}
    (exact : bytes.length = totalWidth layout) (room : written.length ≤ limit) :
    writeFields limit layout bytes written =
      appendWithin limit written (spaced (fieldTexts layout bytes)) := by
  induction layout generalizing bytes written with
  | nil =>
      have nothing : written ++ spaced (fieldTexts [] bytes) = written := List.append_nil written
      rw [appendWithin, nothing, if_pos room]
      rfl
  | cons field layout ih =>
      rw [List.forall_mem_cons] at words
      obtain ⟨front, rest⟩ := lengths_of_split exact
      have number := writeInteger_eq_ok field.signed (bytes.take field.width)
        (by rw [front]; exact words.1)
      have split : spaced (fieldTexts (field :: layout) bytes) =
          (' ' :: integerText field.signed (bytes.take field.width)) ++
            spaced (fieldTexts layout (bytes.drop field.width)) := rfl
      rw [split, writeFields, number]
      exact appendWithin_bind fun fits => ih words.2 rest fits

theorem readFields_fieldTexts {bytes : Bytes} (exact : bytes.length = totalWidth layout) :
    readFields layout (fieldTexts layout bytes) = .ok bytes := by
  induction layout generalizing bytes with
  | nil =>
      rw [List.eq_nil_of_length_eq_zero exact]
      rfl
  | cons field layout ih =>
      rw [List.forall_mem_cons] at words
      obtain ⟨front, rest⟩ := lengths_of_split exact
      have number := readInteger_integerText field.signed (bytes.take field.width)
        (by rw [front]; exact words.1)
      rw [front] at number
      rw [fieldTexts, readFields, number, ih words.2 rest]
      exact congrArg Except.ok (List.take_append_drop field.width bytes)

theorem formatFields_eq {bytes : Bytes} (exact : bytes.length = totalWidth layout) (limit : Nat) :
    formatFields layout bytes limit = withinLimit (fieldsText layout bytes) limit := by
  have pieces : (appendWithin limit [] ['\x7b'] >>= fun opened =>
      writeFields limit layout bytes opened >>= fun filled =>
        appendWithin limit filled [' ', '\x7d']) =
      appendWithin limit [] (fieldsText layout bytes) := by
    refine appendWithin_bind fun room => ?_
    rw [writeFields_eq words exact room]
    exact appendWithin_bind fun _ => rfl
  rw [← appendWithin_utf8 (ascii_fieldsText layout bytes), ← pieces]
  simp only [formatFields, checkWidths_of_eq exact.symm, writeWithin_of_eq exact.symm, bind_assoc]
  rfl

theorem writes_fieldsText {bytes : Bytes} (exact : bytes.length = totalWidth layout) :
    (fields layout).Writes bytes (String.ofList (fieldsText layout bytes)) :=
  writes_of_ascii (ascii_fieldsText layout bytes) (formatFields_eq words exact)

theorem fields_restores : (fields layout).Restores (totalWidth layout) := by
  intro bytes exact
  refine ⟨String.ofList (fieldsText layout bytes), writes_fieldsText words exact, ?_⟩
  have found := Text.words_spaced (fieldTexts_property solid_integerText layout bytes)
    (fieldTexts_property integerText_ne_nil layout bytes)
  have sameCount : ¬(fieldTexts layout bytes).length ≠ layout.length := by
    simp [fieldTexts_length]
  have read := parseFields_totalWidth layout (String.ofList (fieldsText layout bytes))
  simp only [String.toList_ofList, insideBraces_fieldsText, found, if_neg sameCount] at read
  exact read.trans (readFields_fieldTexts words exact)

end

/-- The codecs of any layout, each with the widths that it writes. -/
inductive Faithful : Codec → Nat → Prop where
  | hex (width : Nat) : Faithful hex width
  | integer (signed : Bool) {width : Nat} (word : isWordWidth width = true) :
      Faithful (integer signed) width
  | fields {layout : List Field} (words : ∀ field ∈ layout, isWordWidth field.width = true) :
      Faithful (fields layout) (totalWidth layout)

theorem Faithful.restores {codec : Codec} {width : Nat} (faithful : Faithful codec width) :
    codec.Restores width := by
  cases faithful with
  | hex => exact hex_restores width
  | integer signed word => exact integer_restores signed word
  | fields words => exact fields_restores words

theorem Faithful.of_parse {codec : Codec} {size : Nat} (faithful : Faithful codec size)
    {text : String} {width : Nat} {bytes : Bytes} (read : codec.parse text width = .ok bytes) :
    Faithful codec width := by
  cases faithful with
  | hex => exact .hex width
  | integer signed _ =>
      by_cases word : isWordWidth width = true
      · exact .integer signed word
      · have refused : readInteger signed text width = .error (.width 8 width) :=
          readInteger_of_not_word (Bool.eq_false_iff.mpr word)
        exact absurd (refused.symm.trans read) (by simp)
  | fields words =>
      rw [← totalWidth_of_parseFields read]
      exact .fields words

theorem faithful_codec_restores {codec : Codec} {size : Nat} (faithful : Faithful codec size) :
    (∀ bytes, bytes.length = size →
      ∃ text, codec.Writes bytes text ∧ codec.parse text size = .ok bytes) ∧
    (∀ text width bytes, codec.parse text width = .ok bytes →
      ∃ written, codec.Writes bytes written ∧ codec.parse written width = .ok bytes) := by
  refine ⟨faithful.restores, ?_⟩
  intro text width bytes read
  exact (faithful.of_parse read).restores bytes (codec.parse_length text width bytes read)

def wordPair : List Field :=
  [⟨false, 4⟩, ⟨true, 4⟩]

theorem wordPair_restored :
    (∀ field ∈ wordPair, isWordWidth field.width = true) ∧
    (∃ text, (fields wordPair).Writes [10, 0, 0, 0, 0, 0, 0, 128] text ∧
      (fields wordPair).parse text 8 = .ok [10, 0, 0, 0, 0, 0, 0, 128]) ∧
    ∃ written, (fields wordPair).Writes [10, 0, 0, 0, 253, 255, 255, 255] written ∧
      (fields wordPair).parse written 8 = .ok [10, 0, 0, 0, 253, 255, 255, 255] := by
  have words : ∀ field ∈ wordPair, isWordWidth field.width = true := by decide
  obtain ⟨written, accepted⟩ := faithful_codec_restores (.fields words)
  refine ⟨words, written _ rfl, accepted " \x7b0x+A\t-003\x7d" 8 _ ?_⟩
  decide +kernel

end KernelMaps.Codec
