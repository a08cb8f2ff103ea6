import KernelMaps.Codec.Integer

/-!
The codec of packed integer fields: an element is written as its fields in braces, each behind a
blank. The widths of the fields add up to the element, so padding has to be a field too. A sum that
wraps around to the size of the element passes for it, until a field reaches behind the end.
-/

namespace KernelMaps.Codec

structure Field where
  signed : Bool
  width : Nat
  deriving DecidableEq

def totalWidth : List Field → Nat
  | [] => 0
  | field :: fields => field.width + totalWidth fields

def checkWidths (fields : List Field) (size : Nat) : Except CodecError Unit :=
  let expected := machineSize (totalWidth fields)
  if expected = machineSize size then .ok () else .error (.width expected size)

/-- The fields in front of the first that reaches behind the end. -/
def fieldsWithin : Nat → List Field → List Field
  | _, [] => []
  | size, field :: fields =>
      if field.width ≤ size then field :: fieldsWithin (size - field.width) fields else []

def writeFields (limit : Nat) : List Field → Bytes → List Char → Except CodecError (List Char)
  | [], _, written => .ok written
  | field :: fields, bytes, written => do
      let number ← writeInteger field.signed (bytes.take field.width)
      let written ← appendWithin limit written (' ' :: number)
      writeFields limit fields (bytes.drop field.width) written

/-- Writes the fields one after the other, as far as they do not reach behind the end. -/
def writeWithin (limit : Nat) (fields : List Field) (bytes : Bytes) (written : List Char) :
    Except CodecError (List Char) := do
  let filled ← writeFields limit (fieldsWithin bytes.length fields) bytes written
  if totalWidth fields ≠ bytes.length then throw .outOfBounds
  return filled

def formatFields (fields : List Field) (bytes : Bytes) (limit : Nat) : Except CodecError Bytes := do
  checkWidths fields bytes.length
  let opened ← appendWithin limit [] ['\x7b']
  let filled ← writeWithin limit fields bytes opened
  let closed ← appendWithin limit filled [' ', '\x7d']
  return Text.utf8 closed

def readFields : List Field → List (List Char) → Except CodecError Bytes
  | field :: fields, word :: words => do
      let bytes ← readInteger field.signed (String.ofList word) field.width
      let rest ← readFields fields words
      return bytes ++ rest
  | _, _ => .ok []

def insideBraces (text : List Char) : Option (List Char) :=
  (Text.stripLead ['\x7b'] (Text.trim text)).bind (Text.stripLast '\x7d')

/-- Reads the fields one after the other, as far as they do not reach behind the end. -/
def readWithin (fields : List Field) (words : List (List Char)) (width : Nat) :
    Except CodecError Bytes := do
  let bytes ← readFields (fieldsWithin width fields) words
  if totalWidth fields ≠ width then throw .outOfBounds
  return bytes

def parseFields (fields : List Field) (text : String) (width : Nat) : Except CodecError Bytes := do
  checkWidths fields width
  match insideBraces text.toList with
  | none => throw (.parse text .notBraced)
  | some inner =>
      let words := Text.words inner
      if words.length ≠ fields.length then
        throw (.parse text (.fieldCount fields.length words.length))
      readWithin fields words width

theorem checkWidths_of_eq {fields : List Field} {size : Nat} (exact : totalWidth fields = size) :
    checkWidths fields size = .ok () := by
  rw [checkWidths, exact]
  exact if_pos rfl

theorem fieldsWithin_totalWidth (fields : List Field) :
    fieldsWithin (totalWidth fields) fields = fields := by
  induction fields with
  | nil => rfl
  | cons field fields ih =>
      rw [totalWidth, fieldsWithin, if_pos (Nat.le_add_right ..), Nat.add_sub_cancel_left, ih]

theorem writeWithin_of_eq {fields : List Field} {bytes : Bytes}
    (exact : totalWidth fields = bytes.length) (limit : Nat) (written : List Char) :
    writeWithin limit fields bytes written = writeFields limit fields bytes written := by
  rw [writeWithin, ← exact, fieldsWithin_totalWidth]
  cases writeFields limit fields bytes written with
  | error error => rfl
  | ok filled => simp [bind, Except.bind, pure, Except.pure]

theorem totalWidth_of_writeWithin {limit : Nat} {fields : List Field} {bytes : Bytes}
    {written filled : List Char} (wrote : writeWithin limit fields bytes written = .ok filled) :
    totalWidth fields = bytes.length := by
  obtain ⟨_, _, checked⟩ := bind_eq_ok.1 wrote
  by_cases exact : totalWidth fields = bytes.length
  · exact exact
  · simp only [ne_eq, exact, not_false_eq_true, if_true] at checked
    cases checked

theorem readFields_length (fields : List Field) (words : List (List Char)) (bytes : Bytes)
    (sameCount : words.length = fields.length) (read : readFields fields words = .ok bytes) :
    bytes.length = totalWidth fields := by
  induction fields generalizing words bytes with
  | nil =>
      simp only [readFields, Except.ok.injEq] at read
      simp [← read, totalWidth]
  | cons field fields ih =>
      match words with
      | [] => simp at sameCount
      | word :: words =>
          simp only [readFields, bind_eq_ok] at read
          obtain ⟨front, frontRead, rest, restRead, same⟩ := read
          have frontLength := readInteger_length _ _ _ _ frontRead
          have restLength := ih words rest (by simpa using sameCount) restRead
          rw [← Except.ok.inj same, List.length_append, frontLength, restLength, totalWidth]

theorem readWithin_totalWidth (fields : List Field) (words : List (List Char)) :
    readWithin fields words (totalWidth fields) = readFields fields words := by
  rw [readWithin, fieldsWithin_totalWidth]
  cases readFields fields words with
  | error error => rfl
  | ok bytes => simp [bind, Except.bind, pure, Except.pure]

theorem totalWidth_of_readWithin {fields : List Field} {words : List (List Char)} {width : Nat}
    {bytes : Bytes} (read : readWithin fields words width = .ok bytes) :
    totalWidth fields = width := by
  obtain ⟨found, _, checked⟩ := bind_eq_ok.1 read
  by_cases exact : totalWidth fields = width
  · exact exact
  · simp only [ne_eq, exact, not_false_eq_true, if_true] at checked
    cases checked

/-- What is left of reading where the widths add up without wrapping around. -/
theorem parseFields_totalWidth (fields : List Field) (text : String) :
    parseFields fields text (totalWidth fields) =
      match insideBraces text.toList with
      | none => .error (.parse text .notBraced)
      | some inner =>
          if (Text.words inner).length ≠ fields.length then
            .error (.parse text (.fieldCount fields.length (Text.words inner).length))
          else readFields fields (Text.words inner) := by
  rw [parseFields, checkWidths_of_eq rfl]
  cases insideBraces text.toList with
  | none => rfl
  | some inner =>
      simp only [readWithin_totalWidth]
      by_cases counts : (Text.words inner).length = fields.length
      · simp only [counts, ne_eq, not_true_eq_false, if_false]
        rfl
      · simp only [ne_eq, counts, not_false_eq_true, if_true]
        rfl

theorem readWithin_of_parseFields {fields : List Field} {text : String} {width : Nat}
    {bytes : Bytes} (read : parseFields fields text width = .ok bytes) :
    ∃ words, words.length = fields.length ∧ readWithin fields words width = .ok bytes := by
  obtain ⟨_, _, read⟩ := bind_eq_ok.1 read
  cases inner : insideBraces text.toList with
  | none =>
      rw [inner] at read
      cases read
  | some inside =>
      rw [inner] at read
      by_cases counts : (Text.words inside).length = fields.length
      · simp only [counts, ne_eq, not_true_eq_false, if_false] at read
        exact ⟨Text.words inside, counts, read⟩
      · simp only [ne_eq, counts, not_false_eq_true, if_true] at read
        cases read

theorem totalWidth_of_parseFields {fields : List Field} {text : String} {width : Nat}
    {bytes : Bytes} (read : parseFields fields text width = .ok bytes) :
    totalWidth fields = width := by
  obtain ⟨words, -, within⟩ := readWithin_of_parseFields read
  exact totalWidth_of_readWithin within

theorem parseFields_length (fields : List Field) (text : String) (width : Nat) (bytes : Bytes)
    (read : parseFields fields text width = .ok bytes) : bytes.length = width := by
  obtain ⟨words, sameCount, within⟩ := readWithin_of_parseFields read
  obtain rfl := totalWidth_of_readWithin within
  rw [readWithin_totalWidth] at within
  exact readFields_length fields words bytes sameCount within

def fields (layout : List Field) : Codec where
  format := formatFields layout
  parse := parseFields layout
  parse_length := parseFields_length layout

end KernelMaps.Codec
