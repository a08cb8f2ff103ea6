import KernelMaps.Bytes
import KernelMaps.Text.Blank

/-!
Integers in text. Reading takes an optional sign and digits of a radix up to 16, and stops at the
first digit that leaves the range or is none; writing is plain decimal.
-/

namespace KernelMaps.Text

inductive NumeralFault where
  | empty
  | invalidDigit
  | tooLarge
  | tooSmall
  deriving DecidableEq

def NumeralFault.message : NumeralFault → String
  | .empty => "cannot parse integer from empty string"
  | .invalidDigit => "invalid digit found in string"
  | .tooLarge => "number too large to fit in target type"
  | .tooSmall => "number too small to fit in target type"

def digitValue? (radix : Nat) (char : Char) : Option Nat :=
  let code := char.toNat
  let value :=
    if 48 ≤ code && code ≤ 57 then code - 48
    else if 97 ≤ code && code ≤ 102 then code - 87
    else if 65 ≤ code && code ≤ 70 then code - 55
    else radix
  if value < radix then some value else none

/-- Reads digits from the left; a partial value above the limit is answered with `overflow`. -/
def readDigits (radix limit : Nat) (overflow : NumeralFault) (value : Nat) :
    List Char → Except NumeralFault Nat
  | [] => .ok value
  | char :: rest =>
      match digitValue? radix char with
      | none => .error .invalidDigit
      | some digit =>
          let next := value * radix + digit
          if limit < next then .error overflow else readDigits radix limit overflow next rest

def readNatural (radix limit : Nat) : List Char → Except NumeralFault Nat
  | [] => .error .empty
  | ['+'] => .error .invalidDigit
  | '+' :: digits => readDigits radix limit .tooLarge 0 digits
  | digits => readDigits radix limit .tooLarge 0 digits

/-- Reads a decimal integer of `bits` bits in two's complement; either sign may stand in front. -/
def readSigned (bits : Nat) : List Char → Except NumeralFault Int
  | [] => .error .empty
  | ['+'] => .error .invalidDigit
  | ['-'] => .error .invalidDigit
  | '-' :: digits =>
      (readDigits 10 (bitRange (bits - 1)) .tooSmall 0 digits).map fun value => -(value : Int)
  | '+' :: digits =>
      (readDigits 10 (bitRange (bits - 1) - 1) .tooLarge 0 digits).map fun value => (value : Int)
  | digits =>
      (readDigits 10 (bitRange (bits - 1) - 1) .tooLarge 0 digits).map fun value => (value : Int)

def decimal (value : Nat) : List Char :=
  Nat.toDigits 10 value

def signedDecimal (value : Int) : List Char :=
  if value < 0 then '-' :: decimal value.natAbs else decimal value.natAbs

end KernelMaps.Text
