import KernelMaps.Bytes

/-!
UTF-8: the bytes of a text, and the text of bytes, either exactly or with the replacement
character for every maximal ill-formed part.
-/

namespace KernelMaps.Text

def utf8 (text : List Char) : Bytes :=
  text.flatMap String.utf8EncodeChar

def utf8Length : List Char → Nat
  | [] => 0
  | char :: rest => char.utf8Size + utf8Length rest

inductive Front where
  | char (value : Char) (size : Nat)
  | illFormed (size : Nat)

def isContinuation (byte : UInt8) : Bool :=
  0x80 ≤ byte && byte ≤ 0xBF

def leadShape (lead : UInt8) : Option (Nat × UInt8 × UInt8) :=
  if 0xC2 ≤ lead && lead ≤ 0xDF then some (1, 0x80, 0xBF)
  else if lead == 0xE0 then some (2, 0xA0, 0xBF)
  else if lead == 0xED then some (2, 0x80, 0x9F)
  else if 0xE1 ≤ lead && lead ≤ 0xEF then some (2, 0x80, 0xBF)
  else if lead == 0xF0 then some (3, 0x90, 0xBF)
  else if 0xF1 ≤ lead && lead ≤ 0xF3 then some (3, 0x80, 0xBF)
  else if lead == 0xF4 then some (3, 0x80, 0x8F)
  else none

def sequenceValue (lead : UInt8) (tail : Bytes) : Nat :=
  let leadBits := lead.toNat % bitRange (6 - tail.length)
  tail.foldl (fun value byte => value * 64 + byte.toNat % 64) leadBits

def front (lead : UInt8) (rest : Bytes) : Front :=
  if lead < 0x80 then .char (Char.ofNat lead.toNat) 1
  else match leadShape lead with
    | none => .illFormed 1
    | some (count, low, high) =>
        match rest with
        | [] => .illFormed 1
        | second :: others =>
            if low ≤ second && second ≤ high then
              let more := (others.take (count - 1)).takeWhile isContinuation
              if more.length = count - 1 then
                .char (Char.ofNat (sequenceValue lead (second :: more))) (count + 1)
              else .illFormed (2 + more.length)
            else .illFormed 1

/-- The fronts of a byte string from left to right; `fuel` bounds their number. -/
def frontsWithin : Nat → Bytes → List Front
  | 0, _ => []
  | _, [] => []
  | fuel + 1, lead :: rest =>
      let next := front lead rest
      let size := match next with
        | .char _ size => size
        | .illFormed size => size
      next :: frontsWithin fuel ((lead :: rest).drop size)

def fronts (bytes : Bytes) : List Front :=
  frontsWithin bytes.length bytes

def decodeUtf8? (bytes : Bytes) : Option (List Char) :=
  (fronts bytes).mapM fun
    | .char value _ => some value
    | .illFormed _ => none

def decodeUtf8Lossy (bytes : Bytes) : List Char :=
  (fronts bytes).map fun
    | .char value _ => value
    | .illFormed _ => Char.ofNat 0xFFFD

end KernelMaps.Text
