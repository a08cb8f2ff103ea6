import KernelMaps.Codec.Basic
import KernelMaps.Text.Hexadecimal

/-!
The hexadecimal codec: `0x` and two digits for each byte, in memory order. It fits any layout.
-/

namespace KernelMaps.Codec

def writeHexPairs (limit : Nat) : Bytes → List Char → Except CodecError (List Char)
  | [], written => .ok written
  | byte :: bytes, written => do
      let written ← appendWithin limit written (Text.hexPair byte)
      writeHexPairs limit bytes written

def formatHex (bytes : Bytes) (limit : Nat) : Except CodecError Bytes := do
  let opened ← appendWithin limit [] ['0', 'x']
  let filled ← writeHexPairs limit bytes opened
  return Text.utf8 filled

def hexDigits (text : List Char) : List Char :=
  match Text.trim text with
  | '0' :: 'x' :: digits => digits
  | '0' :: 'X' :: digits => digits
  | digits => digits

/-- Lengths are compared before digits are looked at, and they are lengths in bytes. -/
def readHex (text : String) (width : Nat) : Except CodecError Bytes :=
  let digits := hexDigits text.toList
  let size := Text.utf8Length digits
  if size % 2 ≠ 0 then .error (.parse text .oddDigits)
  else if size / 2 ≠ width then .error (.width width (size / 2))
  else match Text.readHexPairs digits with
    | some bytes => if bytes.length = width then .ok bytes else .error (.parse text .notHex)
    | none => .error (.parse text .notHex)

theorem readHex_length (text : String) (width : Nat) (bytes : Bytes)
    (read : readHex text width = .ok bytes) : bytes.length = width := by
  unfold readHex at read
  grind

def hex : Codec where
  format := formatHex
  parse := readHex
  parse_length := readHex_length

end KernelMaps.Codec
