import KernelMaps.Proofs.Codec.RoundTrip
import KernelMaps.Proofs.Text.Spelling

/-!
Codecs write the whole text of an element or none of it. What the text is depends on the bytes
alone; the room that there is decides only whether it is written.
-/

namespace KernelMaps.Codec

open Text (CanonicalDecimal)

def integerValue (signed : Bool) (bytes : Bytes) : Int :=
  if signed then signedWordValue bytes else wordValue bytes

def fieldValues : List Field → Bytes → List Int
  | [], _ => []
  | field :: fields, bytes =>
      integerValue field.signed (bytes.take field.width) ::
        fieldValues fields (bytes.drop field.width)

/-- The complete text of an element: pairs of lower-case digits in the order of the bytes, the
decimal of a word, or in braces the decimals of the fields, each behind a blank. -/
inductive Rendering : Codec → Bytes → List Char → Prop where
  | hex (bytes : Bytes) :
      Rendering hex bytes ('0' :: 'x' :: bytes.flatMap fun byte =>
        [Nat.digitChar (byte.toNat / 16), Nat.digitChar (byte.toNat % 16)])
  | integer {signed : Bool} {bytes : Bytes} {text : List Char}
      (word : isWordWidth bytes.length = true)
      (decimal : CanonicalDecimal text (integerValue signed bytes)) :
      Rendering (integer signed) bytes text
  | fields {layout : List Field} {bytes : Bytes} {numbers : List (List Char)}
      (words : ∀ field ∈ layout, isWordWidth field.width = true)
      (exact : bytes.length = totalWidth layout)
      (decimals : List.Forall₂ CanonicalDecimal numbers (fieldValues layout bytes)) :
      Rendering (fields layout) bytes
        ('\x7b' :: (numbers.flatMap (fun number => ' ' :: number) ++ [' ', '\x7d']))

theorem hexDigit_eq_digitChar : ∀ value < 16, Text.hexDigit value = Nat.digitChar value := by
  decide

theorem hexText_eq (bytes : Bytes) :
    hexText bytes = '0' :: 'x' :: bytes.flatMap fun byte =>
      [Nat.digitChar (byte.toNat / 16), Nat.digitChar (byte.toNat % 16)] := by
  have pair (byte : UInt8) :
      Text.hexPair byte = [Nat.digitChar (byte.toNat / 16), Nat.digitChar (byte.toNat % 16)] := by
    have bound := byte.toNat_lt
    rw [Text.hexPair, hexDigit_eq_digitChar _ (by omega), hexDigit_eq_digitChar _ (by omega)]
  rw [hexText, Text.hexPairs, funext pair]

theorem canonicalDecimal_integerText_iff {signed : Bool} {bytes : Bytes} {text : List Char} :
    CanonicalDecimal text (integerValue signed bytes) ↔ text = integerText signed bytes := by
  have written : Text.signedDecimal (integerValue signed bytes) = integerText signed bytes := by
    cases signed <;> rfl
  rw [Text.canonicalDecimal_iff, written]

theorem canonicalDecimals_fieldTexts_iff {layout : List Field} {bytes : Bytes}
    {numbers : List (List Char)} :
    List.Forall₂ CanonicalDecimal numbers (fieldValues layout bytes) ↔
      numbers = fieldTexts layout bytes := by
  induction layout generalizing bytes numbers with
  | nil => rw [fieldValues, fieldTexts, List.forall₂_nil_right_iff]
  | cons field layout ih =>
      rw [fieldValues, fieldTexts, List.forall₂_cons_right_iff]
      simp only [canonicalDecimal_integerText_iff, ih, exists_eq_left, exists_and_left]

theorem Rendering.writes {codec : Codec} {bytes : Bytes} {text : List Char}
    (rendering : Rendering codec bytes text) : codec.Writes bytes (String.ofList text) := by
  cases rendering with
  | hex =>
      rw [← hexText_eq]
      exact writes_hexText bytes
  | integer word decimal =>
      rw [canonicalDecimal_integerText_iff.mp decimal]
      exact writes_integerText _ word
  | fields words exact decimals =>
      rw [canonicalDecimals_fieldTexts_iff.mp decimals]
      exact writes_fieldsText words exact

theorem exists_rendering {codec : Codec} {bytes : Bytes} {width : Nat}
    (faithful : Faithful codec width) (sized : bytes.length = width) :
    ∃ text, Rendering codec bytes text := by
  cases faithful with
  | hex => exact ⟨_, .hex bytes⟩
  | integer signed word =>
      rw [← sized] at word
      exact ⟨_, .integer word (canonicalDecimal_integerText_iff.mpr rfl)⟩
  | fields words =>
      exact ⟨_, .fields words sized (canonicalDecimals_fieldTexts_iff.mpr rfl)⟩

theorem Rendering.unique {codec : Codec} {bytes : Bytes} {first second : List Char}
    (left : Rendering codec bytes first) (right : Rendering codec bytes second) :
    first = second :=
  String.ofList_injective (left.writes.unique right.writes)

theorem withinLimit_eq_ok_iff {text : List Char} {limit : Nat} {written : Bytes} :
    withinLimit text limit = .ok written ↔
      (Text.utf8 text).length ≤ limit ∧ written = Text.utf8 text := by
  rw [withinLimit]
  split
  · next fits => simp [fits, eq_comm]
  · next short => simp [short]

theorem withinLimit_of_lt {text : List Char} {limit : Nat}
    (short : limit < (Text.utf8 text).length) : withinLimit text limit = .error (.overflow limit) :=
  if_neg (Nat.not_le.mpr short)

/-- The codecs there are, with layouts that may have fields of any width. -/
inductive BuiltIn : Codec → Prop where
  | hex : BuiltIn hex
  | integer (signed : Bool) : BuiltIn (integer signed)
  | fields (layout : List Field) : BuiltIn (fields layout)

theorem isWordWidth_of_written {signed : Bool} {bytes : Bytes} {text : List Char}
    (written : writeInteger signed bytes = .ok text) : isWordWidth bytes.length = true := by
  rw [writeInteger] at written
  split at written
  · next word => exact word
  · contradiction

theorem words_of_written {limit : Nat} {layout : List Field} {bytes : Bytes}
    {written text : List Char} (exact : bytes.length = totalWidth layout)
    (wrote : writeFields limit layout bytes written = .ok text) :
    ∀ field ∈ layout, isWordWidth field.width = true := by
  induction layout generalizing bytes written with
  | nil => exact List.forall_mem_nil _
  | cons field layout ih =>
      obtain ⟨front, rest⟩ := lengths_of_split exact
      simp only [writeFields, bind_eq_ok] at wrote
      obtain ⟨number, first, _, _, others⟩ := wrote
      have word := isWordWidth_of_written first
      rw [front] at word
      exact List.forall_mem_cons.mpr ⟨word, ih rest others⟩

theorem faithful_of_format {codec : Codec} (builtIn : BuiltIn codec) {bytes written : Bytes}
    {limit : Nat} (wrote : codec.format bytes limit = .ok written) :
    Faithful codec bytes.length := by
  cases builtIn with
  | hex => exact .hex bytes.length
  | integer signed =>
      simp only [integer, bind_eq_ok] at wrote
      obtain ⟨text, number, _⟩ := wrote
      exact .integer signed (isWordWidth_of_written number)
  | fields layout =>
      simp only [fields, formatFields, bind_eq_ok] at wrote
      obtain ⟨_, _, _, _, _, within, _⟩ := wrote
      have exact := totalWidth_of_writeWithin within
      rw [writeWithin_of_eq exact] at within
      rw [← exact]
      exact .fields (words_of_written exact.symm within)

theorem parse_of_render {codec : Codec} (builtIn : BuiltIn codec) {bytes : Bytes}
    {limit : Nat} {text : String} (rendered : codec.render bytes limit = .ok text) :
    codec.parse text bytes.length = .ok bytes := by
  have wrote := rendered
  simp only [render, bind_eq_ok] at wrote
  obtain ⟨written, format, _⟩ := wrote
  obtain ⟨whole, writes, restored⟩ := (faithful_of_format builtIn format).restores bytes rfl
  rw [writes.format] at format
  have fits := (withinLimit_eq_ok_iff.mp format).1
  rw [writes.render limit fits, Except.ok.injEq] at rendered
  rwa [← rendered]

/-- The text of an element is the same for every room. It is written as soon as the room is enough
for all of it, and short of that nothing is. -/
theorem whole_text_or_overflow {codec : Codec} {bytes : Bytes}
    (faithful : Faithful codec bytes.length) :
    ∃ text, (∀ other, Rendering codec bytes other ↔ other = text) ∧
      ∀ limit,
        (∀ written, codec.format bytes limit = .ok written ↔
          (Text.utf8 text).length ≤ limit ∧ written = Text.utf8 text) ∧
        (limit < (Text.utf8 text).length →
          codec.format bytes limit = .error (.overflow limit)) := by
  obtain ⟨text, rendering⟩ := exists_rendering faithful rfl
  refine ⟨text, ?_, fun limit => ?_⟩
  · intro other
    constructor
    · exact fun otherRendering => otherRendering.unique rendering
    · rintro rfl
      exact rendering
  · have format := rendering.writes.format limit
    rw [String.toList_ofList] at format
    rw [format]
    exact ⟨fun written => withinLimit_eq_ok_iff, withinLimit_of_lt⟩

theorem wordPair_needs_its_room :
    (∀ field ∈ wordPair, isWordWidth field.width = true) ∧
    ∃ text, Rendering (fields wordPair) [10, 0, 0, 0, 0, 0, 0, 128] text ∧
      (Text.utf8 text).length = 18 ∧
      (fields wordPair).format [10, 0, 0, 0, 0, 0, 0, 128] 18 = .ok (Text.utf8 text) ∧
      (fields wordPair).format [10, 0, 0, 0, 0, 0, 0, 128] 17 = .error (.overflow 17) := by
  have words : ∀ field ∈ wordPair, isWordWidth field.width = true := by decide
  have defined : Faithful (fields wordPair) [(10 : UInt8), 0, 0, 0, 0, 0, 0, 128].length :=
    .fields words
  obtain ⟨text, rendering, formats⟩ := whole_text_or_overflow defined
  have given : (fields wordPair).format [10, 0, 0, 0, 0, 0, 0, 128] 18 =
      .ok (Text.utf8 ['\x7b', ' ', '1', '0', ' ', '-', '2', '1', '4', '7', '4', '8', '3', '6', '4',
        '8', ' ', '\x7d']) := by
    decide +kernel
  have whole := (((formats 18).1 _).mp given).2
  have size : (Text.utf8 text).length = 18 := by
    rw [← whole]
    decide
  refine ⟨words, text, (rendering text).mpr rfl, size, ?_, (formats 17).2 (by omega)⟩
  rw [given, whole]

end KernelMaps.Codec
