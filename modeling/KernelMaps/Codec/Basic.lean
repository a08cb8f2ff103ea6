import KernelMaps.Bytes
import KernelMaps.Error
import KernelMaps.Text.Utf8

/-!
A codec writes an element's bytes as text and reads them back. Writing is given the room there is
and never truncates; reading is given the wanted width and answers with exactly that many bytes.
-/

namespace KernelMaps

structure Codec where
  /-- The text of some bytes in UTF-8, if it takes at most `limit` bytes. -/
  format : Bytes → (limit : Nat) → Except CodecError Bytes
  parse : String → (width : Nat) → Except CodecError Bytes
  parse_length : ∀ text width bytes, parse text width = .ok bytes → bytes.length = width

namespace Codec

def withinLimit (text : List Char) (limit : Nat) : Except CodecError Bytes :=
  let bytes := Text.utf8 text
  if bytes.length ≤ limit then .ok bytes else .error (.overflow limit)

/-- Adds a piece to what was written so far, if the room is enough for both. -/
def appendWithin (limit : Nat) (written piece : List Char) : Except CodecError (List Char) :=
  if (written ++ piece).length ≤ limit then .ok (written ++ piece) else .error (.overflow limit)

def render (codec : Codec) (bytes : Bytes) (limit : Nat) : Except CodecError String := do
  let written ← codec.format bytes limit
  match Text.decodeUtf8? written with
  | some text => return String.ofList text
  | none => throw .invalidUtf8

end Codec

end KernelMaps
