import KernelMaps.Error
import KernelMaps.Bytes

/-!
Types whose values the kernel stores as a fixed number of bytes: every value has one byte form and
every byte string of that size is one value.
-/

namespace KernelMaps

class Element (α : Type) where
  size : Nat
  encode : α → Bytes
  decode : Bytes → α
  size_le : size ≤ addressSpace
  encode_length : ∀ value, (encode value).length = size
  decode_encode : ∀ value, decode (encode value) = value
  encode_decode : ∀ bytes, bytes.length = size → encode (decode bytes) = bytes

namespace Element

/-- Little-endian words of a type that is in bijection with the numbers that a word can have. -/
@[reducible] def ofWord {α : Type} (width : Nat) (small : width ≤ addressSpace)
    (toNat : α → Nat) (ofNat : Nat → α) (toNat_lt : ∀ value, toNat value < wordRange width)
    (ofNat_toNat : ∀ value, ofNat (toNat value) = value)
    (toNat_ofNat : ∀ number, number < wordRange width → toNat (ofNat number) = number) : Element α where
  size := width
  encode value := wordBytes width (toNat value)
  decode bytes := ofNat (wordValue bytes)
  size_le := small
  encode_length _ := wordBytes_length ..
  decode_encode value := by
    rw [wordValue_wordBytes, Nat.mod_eq_of_lt (toNat_lt value), ofNat_toNat]
  encode_decode bytes exact := by
    have bound := wordValue_lt bytes
    rw [exact] at bound
    rw [toNat_ofNat _ bound, ← exact, wordBytes_wordValue]

@[reducible] def ofBijection {α β : Type} (layout : Element β) (toFun : α → β) (ofFun : β → α)
    (ofFun_toFun : ∀ value, ofFun (toFun value) = value)
    (toFun_ofFun : ∀ value, toFun (ofFun value) = value) : Element α where
  size := layout.size
  encode value := layout.encode (toFun value)
  decode bytes := ofFun (layout.decode bytes)
  size_le := layout.size_le
  encode_length _ := layout.encode_length _
  decode_encode value := by rw [layout.decode_encode, ofFun_toFun]
  encode_decode bytes exact := by rw [toFun_ofFun, layout.encode_decode bytes exact]

instance : Element UInt8 :=
  ofWord 1 (by decide) UInt8.toNat UInt8.ofNat (fun value => value.toNat_lt)
    (fun _ => UInt8.ofNat_toNat)
    (fun number bound => by rw [UInt8.toNat_ofNat']; exact Nat.mod_eq_of_lt bound)

instance : Element UInt16 :=
  ofWord 2 (by decide) UInt16.toNat UInt16.ofNat (fun value => value.toNat_lt)
    (fun _ => UInt16.ofNat_toNat)
    (fun number bound => by rw [UInt16.toNat_ofNat']; exact Nat.mod_eq_of_lt bound)

instance : Element UInt32 :=
  ofWord 4 (by decide) UInt32.toNat UInt32.ofNat (fun value => value.toNat_lt)
    (fun _ => UInt32.ofNat_toNat)
    (fun number bound => by rw [UInt32.toNat_ofNat']; exact Nat.mod_eq_of_lt bound)

instance : Element UInt64 :=
  ofWord 8 (by decide) UInt64.toNat UInt64.ofNat (fun value => value.toNat_lt)
    (fun _ => UInt64.ofNat_toNat)
    (fun number bound => by rw [UInt64.toNat_ofNat']; exact Nat.mod_eq_of_lt bound)

instance : Element Int8 :=
  ofBijection inferInstance Int8.toUInt8 UInt8.toInt8
    (fun value => value.toInt8_toUInt8) (fun value => value.toUInt8_toInt8)

instance : Element Int16 :=
  ofBijection inferInstance Int16.toUInt16 UInt16.toInt16
    (fun value => value.toInt16_toUInt16) (fun value => value.toUInt16_toInt16)

instance : Element Int32 :=
  ofBijection inferInstance Int32.toUInt32 UInt32.toInt32
    (fun value => value.toInt32_toUInt32) (fun value => value.toUInt32_toInt32)

instance : Element Int64 :=
  ofBijection inferInstance Int64.toUInt64 UInt64.toInt64
    (fun value => value.toInt64_toUInt64) (fun value => value.toUInt64_toInt64)

instance : Element Unit where
  size := 0
  encode _ := []
  decode _ := ()
  size_le := Nat.zero_le _
  encode_length _ := rfl
  decode_encode _ := rfl
  encode_decode _ exact := (List.eq_nil_of_length_eq_zero exact).symm

/-- One value behind another, as far as both together are not too large. -/
@[reducible] def pair {α β : Type} (front : Element α) (back : Element β)
    (small : front.size + back.size ≤ addressSpace) : Element (α × β) where
  size := front.size + back.size
  encode value := front.encode value.1 ++ back.encode value.2
  decode bytes := (front.decode (bytes.take front.size), back.decode (bytes.drop front.size))
  size_le := small
  encode_length value := by simp [front.encode_length, back.encode_length]
  decode_encode value := by
    have frontLength := front.encode_length value.1
    simp [← frontLength, front.decode_encode, back.decode_encode]
  encode_decode bytes exact := by
    rw [front.encode_decode _ (by simp; omega), back.encode_decode _ (by simp; omega)]
    exact List.take_append_drop ..

end Element

structure Block (length : Nat) where
  bytes : Bytes
  exact : bytes.length = length
  deriving DecidableEq

namespace Block

def ofBytes (length : Nat) (bytes : Bytes) : Block length :=
  ⟨fitted length bytes, fitted_length ..⟩

@[reducible] def element (length : Nat) (small : length ≤ addressSpace) :
    Element (Block length) where
  size := length
  encode := Block.bytes
  decode := ofBytes length
  size_le := small
  encode_length block := block.exact
  decode_encode block := by
    cases block with
    | mk bytes exact => simp [ofBytes, fitted_of_length length bytes exact]
  encode_decode bytes exact := fitted_of_length length bytes exact

end Block

structure CgroupKey where
  inode : UInt64
  attachType : UInt32
  padding : UInt32
  deriving DecidableEq

instance : Element CgroupKey :=
  Element.ofBijection
    (Element.pair inferInstance (Element.pair inferInstance inferInstance (by decide)) (by decide))
    (fun key => (key.inode, key.attachType, key.padding))
    (fun parts => ⟨parts.1, parts.2.1, parts.2.2⟩) (fun _ => rfl) (fun _ => rfl)

end KernelMaps
