import KernelMaps.Codec.Basic

/-!
The integer codec: little-endian words of 1, 2, 4 or 8 bytes in decimal, signed ones in two's
complement. Unsigned words are also read from hexadecimal after `0x`.
-/

namespace KernelMaps.Codec

def isWordWidth (width : Nat) : Bool :=
  width = 1 || width = 2 || width = 4 || width = 8

def signedWordValue (bytes : Bytes) : Int :=
  (wordValue bytes : Int).bmod (wordRange bytes.length)

def signedWordBytes (width : Nat) (value : Int) : Bytes :=
  wordBytes width (value % wordRange width).toNat

def integerText (signed : Bool) (bytes : Bytes) : List Char :=
  if signed then Text.signedDecimal (signedWordValue bytes) else Text.decimal (wordValue bytes)

def writeInteger (signed : Bool) (bytes : Bytes) : Except CodecError (List Char) :=
  if isWordWidth bytes.length then .ok (integerText signed bytes)
  else .error (.width 8 bytes.length)

def readUnsignedText (text : List Char) : Except Text.NumeralFault Nat :=
  match text with
  | '0' :: 'x' :: digits => Text.readNatural 16 (bitRange 64 - 1) digits
  | digits => Text.readNatural 10 (bitRange 64 - 1) digits

/-- Reads 64 bits first; only then the value has to be in the range of the width. -/
def readInteger (signed : Bool) (text : String) (width : Nat) : Except CodecError Bytes :=
  if !isWordWidth width then .error (.width 8 width)
  else
    let trimmed := Text.trim text.toList
    let outOfRange := CodecError.parse text (.outOfRange (8 * width))
    if signed then
      match Text.readSigned 64 trimmed with
      | .error fault => .error (.parse text (.numeral fault))
      | .ok value =>
          if value < -bitRange (8 * width - 1) ∨ bitRange (8 * width - 1) ≤ value then
            .error outOfRange
          else .ok (signedWordBytes width value)
    else
      match readUnsignedText trimmed with
      | .error fault => .error (.parse text (.numeral fault))
      | .ok value =>
          if bitRange (8 * width) ≤ value then .error outOfRange else .ok (wordBytes width value)

theorem readInteger_length (signed : Bool) (text : String) (width : Nat) (bytes : Bytes)
    (read : readInteger signed text width = .ok bytes) : bytes.length = width := by
  unfold readInteger signedWordBytes at read
  grind [wordBytes_length]

def integer (signed : Bool) : Codec where
  format bytes limit := do
    let text ← writeInteger signed bytes
    withinLimit text limit
  parse := readInteger signed
  parse_length := readInteger_length signed

end KernelMaps.Codec
