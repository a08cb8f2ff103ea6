import KernelMaps.Map.Raw
import KernelMaps.Proofs.Codec.RoundTrip
import Mathlib.Data.Nat.Digits.Defs

/-!
How long texts get. A text of eight bytes for each byte of an element is room enough for every codec
of any layout, so that rendering with the usual factor never fails. With a smaller factor it does.
-/

namespace KernelMaps.Codec

theorem decimal_length_le {bytes : Bytes} (filled : 0 < bytes.length) {value : Nat}
    (below : value ≤ wordRange bytes.length) : (Text.decimal value).length ≤ 3 * bytes.length := by
  refine Nat.toDigits_length 10 value (3 * bytes.length) (by omega) ?_
  have digits : 10 ^ (3 * bytes.length) = 1000 ^ bytes.length := Nat.pow_mul 10 3 bytes.length
  have larger : 256 ^ bytes.length < 1000 ^ bytes.length :=
    Nat.pow_lt_pow_left (by decide) (by omega)
  have range : wordRange bytes.length = 256 ^ bytes.length := rfl
  omega

theorem integerText_length_le (signed : Bool) {bytes : Bytes} (filled : 0 < bytes.length) :
    (integerText signed bytes).length ≤ 3 * bytes.length + 1 := by
  have bound := wordValue_lt bytes
  cases signed with
  | false =>
      have digits := decimal_length_le filled (Nat.le_of_lt bound)
      simp only [integerText, Bool.false_eq_true, if_false]
      omega
  | true =>
      obtain ⟨lower, upper⟩ := signedWordValue_bounds filled
      have half := bitRange_mono (show 8 * bytes.length - 1 ≤ 8 * bytes.length by omega)
      rw [bitRange_mul_eight] at half
      have digits := decimal_length_le filled
        (show (signedWordValue bytes).natAbs ≤ wordRange bytes.length by omega)
      simp only [integerText, if_true, Text.signedDecimal]
      split
      · rw [List.length_cons]
        omega
      · omega

theorem spaced_fieldTexts_length_le {layout : List Field}
    (words : ∀ field ∈ layout, isWordWidth field.width = true) {bytes : Bytes}
    (exact : bytes.length = totalWidth layout) :
    (Text.spaced (fieldTexts layout bytes)).length ≤ 5 * totalWidth layout := by
  induction layout generalizing bytes with
  | nil => exact Nat.zero_le _
  | cons field layout ih =>
      rw [List.forall_mem_cons] at words
      obtain ⟨front, rest⟩ := lengths_of_split exact
      have wide := isWordWidth_bounds words.1
      have filled : 0 < (bytes.take field.width).length := by omega
      have number := integerText_length_le field.signed filled
      have others := ih words.2 rest
      have split : (Text.spaced (fieldTexts (field :: layout) bytes)).length =
          (integerText field.signed (bytes.take field.width)).length + 1 +
            (Text.spaced (fieldTexts layout (bytes.drop field.width))).length :=
        List.length_append
      rw [split, totalWidth]
      omega

theorem Faithful.writes_within {codec : Codec} {bytes : Bytes} {text : String}
    (faithful : Faithful codec bytes.length) (written : codec.Writes bytes text) :
    (Text.utf8 text.toList).length ≤ max bytes.length 1 * 8 := by
  have ascii {written : List Char} (ascii : Text.Ascii written) :
      (Text.utf8 (String.ofList written).toList).length = written.length := by
    rw [String.toList_ofList, Text.utf8_length_of_ascii ascii]
  generalize size : bytes.length = width at faithful
  cases faithful with
  | hex =>
      obtain rfl := written.unique (writes_hexText bytes)
      rw [ascii (ascii_hexText bytes), hexText, List.length_cons, List.length_cons,
        Text.hexPairs_length]
      omega
  | integer signed word =>
      rw [← size] at word
      obtain rfl := written.unique (writes_integerText signed word)
      have digits := integerText_length_le signed (isWordWidth_bounds word).1
      rw [ascii (ascii_integerText signed bytes)]
      omega
  | @fields layout words =>
      obtain rfl := written.unique (writes_fieldsText words size)
      have pieces := spaced_fieldTexts_length_le words size
      rw [ascii (ascii_fieldsText layout bytes), fieldsText, List.length_cons, List.length_append]
      simp only [List.length_cons, List.length_nil]
      omega

end KernelMaps.Codec

namespace KernelMaps.Descriptor

open Codec (Faithful)

section

variable {factor : Nat} {map : Descriptor}

theorem renderWith_eq {codec : Codec} {bytes : Bytes} {text : String}
    (written : codec.Writes bytes text) :
    renderWith codec factor bytes =
      if (Text.utf8 text.toList).length ≤ textRoom bytes.length factor then .ok text
      else .error (.codec (.overflow (textRoom bytes.length factor))) := by
  rw [renderWith]
  split
  · next within =>
      rw [written.render _ within]
      rfl
  · next short =>
      rw [Codec.render, written.format]
      have refused : Codec.withinLimit text.toList (textRoom bytes.length factor) =
          .error (.overflow (textRoom bytes.length factor)) := if_neg short
      rw [refused]
      rfl

theorem keyText_eq {key : Bytes} {text : String} (sized : key.length = map.keySize)
    (written : map.keyCodec.Writes key text) :
    map.keyText factor key =
      if (Text.utf8 text.toList).length ≤ textRoom map.keySize factor then .ok text
      else .error (.codec (.overflow (textRoom map.keySize factor))) := by
  have checked : map.checkKey key = .ok () := if_neg (not_not_intro sized)
  rw [keyText, checked, ← sized]
  exact renderWith_eq written

theorem valueText_eq {value : Bytes} {text : String} (sized : value.length = map.valueSize)
    (written : map.valueCodec.Writes value text) :
    map.valueText factor value =
      if (Text.utf8 text.toList).length ≤ textRoom map.valueSize factor then .ok text
      else .error (.codec (.overflow (textRoom map.valueSize factor))) := by
  rw [valueText, if_neg (not_not_intro sized), ← sized]
  exact renderWith_eq written

/-- Whether the room for the text of an element is what it is made to be. -/
def RoomFits (size factor : Nat) : Prop :=
  max size 1 * max factor 1 < bitRange 64

theorem roomFits_of_le {size : Nat} (small : size ≤ addressSpace) : RoomFits size textFactor := by
  have word : addressSpace * 8 < bitRange 64 := by decide
  have spread : max size 1 ≤ addressSpace := Nat.max_le.mpr ⟨small, by decide⟩
  exact Nat.lt_of_le_of_lt (Nat.mul_le_mul_right 8 spread) word

theorem le_textRoom {codec : Codec} {bytes : Bytes} {text : String} (enough : textFactor ≤ factor)
    (fits : RoomFits bytes.length factor) (faithful : Faithful codec bytes.length)
    (written : codec.Writes bytes text) :
    (Text.utf8 text.toList).length ≤ textRoom bytes.length factor := by
  have more : textFactor ≤ max factor 1 := Nat.le_trans enough (Nat.le_max_left factor 1)
  rw [textRoom, machineSize_of_lt fits]
  exact Nat.le_trans (faithful.writes_within written) (Nat.mul_le_mul_left _ more)

theorem keyText_of_writes {key : Bytes} {text : String} (enough : textFactor ≤ factor)
    (fits : RoomFits map.keySize factor) (faithful : Faithful map.keyCodec map.keySize)
    (sized : key.length = map.keySize) (written : map.keyCodec.Writes key text) :
    map.keyText factor key = .ok text := by
  rw [keyText_eq sized written]
  rw [← sized] at faithful fits ⊢
  exact if_pos (le_textRoom enough fits faithful written)

theorem valueText_of_writes {value : Bytes} {text : String} (enough : textFactor ≤ factor)
    (fits : RoomFits map.valueSize factor) (faithful : Faithful map.valueCodec map.valueSize)
    (sized : value.length = map.valueSize) (written : map.valueCodec.Writes value text) :
    map.valueText factor value = .ok text := by
  rw [valueText_eq sized written]
  rw [← sized] at faithful fits ⊢
  exact if_pos (le_textRoom enough fits faithful written)

end

/-- Whether a map shows every key and every value as the text that its codec has for it, for each of
the two codecs that is defined for its size. -/
def TextsFit (map : Descriptor) (factor : Nat) : Prop :=
  (Faithful map.keyCodec map.keySize → ∀ key, key.length = map.keySize →
    ∃ text, map.keyCodec.Writes key text ∧ map.keyText factor key = .ok text) ∧
  (Faithful map.valueCodec map.valueSize → ∀ value, value.length = map.valueSize →
    ∃ text, map.valueCodec.Writes value text ∧ map.valueText factor value = .ok text)

def RoomsFit (map : Descriptor) (factor : Nat) : Prop :=
  RoomFits map.keySize factor ∧ RoomFits map.valueSize factor

theorem textsFit_of_enough {factor : Nat} (enough : textFactor ≤ factor) (map : Descriptor)
    (fits : map.RoomsFit factor) : map.TextsFit factor := by
  constructor
  · intro faithful key sized
    obtain ⟨text, written, -⟩ := faithful.restores key sized
    exact ⟨text, written, keyText_of_writes enough fits.1 faithful sized written⟩
  · intro faithful value sized
    obtain ⟨text, written, -⟩ := faithful.restores value sized
    exact ⟨text, written, valueText_of_writes enough fits.2 faithful sized written⟩

/-- Whether a map shows those of its keys and values whose texts are no longer than the room for
them, and tells of that room at each of the others. -/
def ShowsWithinRoom (map : Descriptor) (factor : Nat) : Prop :=
  (∀ key text, key.length = map.keySize → map.keyCodec.Writes key text →
    map.keyText factor key =
      if (Text.utf8 text.toList).length ≤ textRoom map.keySize factor then .ok text
      else .error (.codec (.overflow (textRoom map.keySize factor)))) ∧
  ∀ value text, value.length = map.valueSize → map.valueCodec.Writes value text →
    map.valueText factor value =
      if (Text.utf8 text.toList).length ≤ textRoom map.valueSize factor then .ok text
      else .error (.codec (.overflow (textRoom map.valueSize factor)))

/-- The layout whose texts are the longest for its size: braces, blanks, a sign and three digits for
one byte. -/
def signedByte : List Codec.Field :=
  [⟨true, 1⟩]

theorem signedByte_words : ∀ field ∈ signedByte, Codec.isWordWidth field.width = true := by
  decide

theorem faithful_signedByte : Faithful (Codec.fields signedByte) 1 :=
  .fields signedByte_words

theorem writes_lowestByte : (Codec.fields signedByte).Writes [0x80] "\x7b -128 \x7d" := by
  have text : Codec.fieldsText signedByte [0x80] = "\x7b -128 \x7d".toList := by decide
  have sized : [(0x80 : UInt8)].length = Codec.totalWidth signedByte := rfl
  have written := Codec.writes_fieldsText signedByte_words sized
  rwa [text, String.ofList_toList] at written

theorem lowestByte_length : (Text.utf8 "\x7b -128 \x7d".toList).length = 8 := by
  decide

theorem textRoom_one {factor : Nat} (less : factor < textFactor) :
    textRoom 1 factor = max factor 1 ∧
      ¬(Text.utf8 "\x7b -128 \x7d".toList).length ≤ textRoom 1 factor := by
  have small : max factor 1 < textFactor := Nat.max_lt.mpr ⟨less, by decide⟩
  have room : textRoom 1 factor = max factor 1 :=
    (congrArg machineSize (Nat.one_mul _)).trans
      (machineSize_of_lt (Nat.lt_trans small (by decide)))
  rw [lowestByte_length, room]
  exact ⟨rfl, Nat.not_le.mpr small⟩

theorem keyText_lowestByte {map : Descriptor} {factor : Nat} (less : factor < textFactor)
    (codec : map.keyCodec = Codec.fields signedByte) (size : map.keySize = 1) :
    map.keyText factor [0x80] = .error (.codec (.overflow (max factor 1))) := by
  obtain ⟨room, short⟩ := textRoom_one less
  have sized : [(0x80 : UInt8)].length = map.keySize := size.symm
  have written : map.keyCodec.Writes [0x80] "\x7b -128 \x7d" := codec ▸ writes_lowestByte
  rw [keyText_eq sized written, size, if_neg short, room]

theorem valueText_lowestByte {map : Descriptor} {factor : Nat} (less : factor < textFactor)
    (codec : map.valueCodec = Codec.fields signedByte) (size : map.valueSize = 1) :
    map.valueText factor [0x80] = .error (.codec (.overflow (max factor 1))) := by
  obtain ⟨room, short⟩ := textRoom_one less
  have sized : [(0x80 : UInt8)].length = map.valueSize := size.symm
  have written : map.valueCodec.Writes [0x80] "\x7b -128 \x7d" := codec ▸ writes_lowestByte
  rw [valueText_eq sized written, size, if_neg short, room]

def changes : Descriptor where
  name := "changes"
  kind := .hash
  keySize := 8
  valueSize := 1
  capacity := 4
  fd := 100
  ownsFd := false
  cpuCount := 3
  keyCodec := .fields Codec.wordPair
  valueCodec := .fields signedByte

theorem changes_roomsFit {factor : Nat} (less : factor < bitRange 32) :
    changes.RoomsFit factor := by
  have word : 8 * bitRange 32 < bitRange 64 := by decide
  have positive : 0 < bitRange 32 := by decide
  have bounded : max factor 1 ≤ bitRange 32 := Nat.max_le.mpr ⟨Nat.le_of_lt less, positive⟩
  constructor
  case left => exact Nat.lt_of_le_of_lt (Nat.mul_le_mul_left 8 bounded) word
  case right =>
    have within := Nat.mul_le_mul (show 1 ≤ 8 by decide) bounded
    exact Nat.lt_of_le_of_lt within word

def shortKeys : Descriptor :=
  { changes with keySize := 2, keyCodec := .hex }

end KernelMaps.Descriptor
