import KernelMaps.Bytes
import KernelMaps.Text.Numeral

/-!
Bytes as pairs of hexadecimal digits, high digit first, lower case when written and either case
when read.
-/

namespace KernelMaps.Text

def hexDigit (value : Nat) : Char :=
  if value < 10 then Char.ofNat (48 + value) else Char.ofNat (87 + value)

def hexPair (byte : UInt8) : List Char :=
  [hexDigit (byte.toNat / 16), hexDigit (byte.toNat % 16)]

def hexPairs (bytes : Bytes) : List Char :=
  bytes.flatMap hexPair

/-- The bytes that pairs of digits denote; nothing if a digit is odd or not hexadecimal. -/
def readHexPairs : List Char → Option Bytes
  | [] => some []
  | [_] => none
  | high :: low :: rest => do
      let upper ← digitValue? 16 high
      let lower ← digitValue? 16 low
      let bytes ← readHexPairs rest
      return UInt8.ofNat (16 * upper + lower) :: bytes

def hexadecimal (value : Nat) : List Char :=
  Nat.toDigits 16 value

end KernelMaps.Text
