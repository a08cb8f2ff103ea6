import KernelMaps.Map.Element
import KernelMaps.Text.Hexadecimal

/-!
Element types that are chosen by name at run time, with the written form of their values: integers
in decimal, byte arrays in hexadecimal.
-/

namespace KernelMaps

inductive ElementType where
  | u8
  | u16
  | u32
  | u64
  | i8
  | i16
  | i32
  | i64
  | block (length : UInt16)
  | cgroupKey
  deriving DecidableEq

namespace ElementType

abbrev Carrier : ElementType → Type
  | u8 => UInt8
  | u16 => UInt16
  | u32 => UInt32
  | u64 => UInt64
  | i8 => Int8
  | i16 => Int16
  | i32 => Int32
  | i64 => Int64
  | block length => Block length.toNat
  | cgroupKey => CgroupKey

instance : (type : ElementType) → Element type.Carrier
  | u8 => (inferInstance : Element UInt8)
  | u16 => (inferInstance : Element UInt16)
  | u32 => (inferInstance : Element UInt32)
  | u64 => (inferInstance : Element UInt64)
  | i8 => (inferInstance : Element Int8)
  | i16 => (inferInstance : Element Int16)
  | i32 => (inferInstance : Element Int32)
  | i64 => (inferInstance : Element Int64)
  | block length =>
      Block.element length.toNat (Nat.le_trans (Nat.le_of_lt length.toNat_lt) (by decide))
  | cgroupKey => (inferInstance : Element CgroupKey)

def ofName? (name : String) : Option ElementType :=
  match name.toList with
  | ['u', '8'] => some u8
  | ['u', '1', '6'] => some u16
  | ['u', '3', '2'] => some u32
  | ['u', '6', '4'] => some u64
  | ['i', '8'] => some i8
  | ['i', '1', '6'] => some i16
  | ['i', '3', '2'] => some i32
  | ['i', '6', '4'] => some i64
  | 'b' :: digits =>
      (Text.readNatural 10 (bitRange 16 - 1) digits).toOption.map fun length =>
        block (UInt16.ofNat length)
  | _ => none

/-- A decimal integer, reduced to the range of the type that takes it. -/
def readInteger (text : String) : Option Int :=
  match Text.readSigned 128 text.toList with
  | .ok value => some value
  | .error _ => none

def readStored (type : ElementType) (text : String) : Option type.Carrier := do
  let bytes ← Text.readHexPairs text.toList
  if bytes.length = Element.size type.Carrier then return Element.decode bytes else failure

def read? : (type : ElementType) → String → Option type.Carrier
  | u8, text => (readInteger text).map fun value => UInt8.ofNat value.toNat
  | u16, text => (readInteger text).map fun value => UInt16.ofNat value.toNat
  | u32, text => (readInteger text).map fun value => UInt32.ofNat value.toNat
  | u64, text => (readInteger text).map fun value => UInt64.ofNat value.toNat
  | i8, text => (readInteger text).map Int8.ofInt
  | i16, text => (readInteger text).map Int16.ofInt
  | i32, text => (readInteger text).map Int32.ofInt
  | i64, text => (readInteger text).map Int64.ofInt
  | block length, text => readStored (block length) text
  | cgroupKey, text => readStored cgroupKey text

def write (type : ElementType) (value : type.Carrier) : String :=
  match type, value with
  | u8, value => String.ofList (Text.decimal value.toNat)
  | u16, value => String.ofList (Text.decimal value.toNat)
  | u32, value => String.ofList (Text.decimal value.toNat)
  | u64, value => String.ofList (Text.decimal value.toNat)
  | i8, value => String.ofList (Text.signedDecimal value.toInt)
  | i16, value => String.ofList (Text.signedDecimal value.toInt)
  | i32, value => String.ofList (Text.signedDecimal value.toInt)
  | i64, value => String.ofList (Text.signedDecimal value.toInt)
  | block _, value => String.ofList (Text.hexPairs value.bytes)
  | cgroupKey, value => String.ofList (Text.hexPairs (Element.encode value))

end ElementType

end KernelMaps
