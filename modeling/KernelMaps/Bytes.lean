/-!
Byte strings as the kernel exchanges them: little-endian words, buffers of a fixed room, and
fixed-size slices. The main facts are that a word's bytes give the word back and that a buffer
always has the size it was made with. Sizes are words of 64 bits themselves, so that sums and
products of them wrap around.
-/

namespace KernelMaps

abbrev Bytes := List UInt8

def bitRange (bits : Nat) : Nat :=
  Nat.pow 2 bits

def wordRange (width : Nat) : Nat :=
  Nat.pow 256 width

/-- A sum or product of sizes as the machine has it. -/
def machineSize (size : Nat) : Nat :=
  size % bitRange 64

/-- No value of a type is larger than the memory that can be addressed. -/
def addressSpace : Nat := bitRange 47

/-- The lowest `width` bytes of a number, least significant first. -/
def wordBytes : Nat → Nat → Bytes
  | 0, _ => []
  | width + 1, value => UInt8.ofNat value :: wordBytes width (value / 256)

def wordValue : Bytes → Nat
  | [] => 0
  | byte :: rest => byte.toNat + 256 * wordValue rest

/-- What a buffer of `room` bytes holds after `bytes` were copied to its start. -/
def fitted (room : Nat) (bytes : Bytes) : Bytes :=
  bytes.take room ++ List.replicate (room - bytes.length) 0

/-- The `count` bytes that start at `offset`, zeros standing in for what is missing. -/
def field (bytes : Bytes) (offset count : Nat) : Bytes :=
  fitted count (bytes.drop offset)

def zeroed (room : Nat) : Bytes :=
  List.replicate room 0

def overwrite (buffer : Bytes) (offset : Nat) (bytes : Bytes) : Bytes :=
  buffer.take offset ++ bytes ++ buffer.drop (offset + bytes.length)

theorem machineSize_lt (size : Nat) : machineSize size < bitRange 64 :=
  Nat.mod_lt size (by decide)

theorem machineSize_le (size : Nat) : machineSize size ≤ size :=
  Nat.mod_le size _

theorem machineSize_eq_iff {size : Nat} : machineSize size = size ↔ size < bitRange 64 :=
  Nat.mod_eq_iff_lt (by decide)

/-- A size that wraps around has room for fewer parts. -/
theorem machineSize_div_eq_iff {count size : Nat} (positive : 0 < size) :
    machineSize (count * size) / size = count ↔ count * size < bitRange 64 := by
  constructor
  · intro same
    have room : machineSize (count * size) / size * size ≤ machineSize (count * size) :=
      Nat.div_mul_le_self ..
    rw [same] at room
    exact Nat.lt_of_le_of_lt room (machineSize_lt _)
  · intro small
    rw [machineSize_eq_iff.2 small, Nat.mul_div_cancel _ positive]

theorem machineSize_of_lt {size : Nat} (small : size < bitRange 64) : machineSize size = size :=
  machineSize_eq_iff.2 small

@[simp] theorem wordBytes_length (width value : Nat) : (wordBytes width value).length = width := by
  induction width generalizing value with
  | zero => rfl
  | succ width ih => simp [wordBytes, ih]

theorem wordRange_succ (width : Nat) : wordRange (width + 1) = 256 * wordRange width :=
  Nat.mul_comm ..

theorem bitRange_mul_eight (width : Nat) : bitRange (8 * width) = wordRange width :=
  Nat.pow_mul 2 8 width

theorem two_mul_bitRange_pred (bits : Nat) (positive : 0 < bits) :
    2 * bitRange (bits - 1) = bitRange bits := by
  obtain ⟨bits, rfl⟩ := Nat.exists_eq_succ_of_ne_zero (Nat.ne_of_gt positive)
  exact (Nat.mul_comm 2 _).trans (Nat.pow_succ 2 bits).symm

theorem bitRange_mono {fewer more : Nat} (le : fewer ≤ more) : bitRange fewer ≤ bitRange more :=
  Nat.pow_le_pow_right (by decide) le

theorem wordValue_wordBytes (width value : Nat) :
    wordValue (wordBytes width value) = value % wordRange width := by
  induction width generalizing value with
  | zero => exact (Nat.mod_one value).symm
  | succ width ih =>
      simp only [wordBytes, wordValue, ih]
      rw [wordRange_succ, Nat.mod_mul]
      simp

theorem wordValue_lt (bytes : Bytes) : wordValue bytes < wordRange bytes.length := by
  induction bytes with
  | nil => exact Nat.one_pos
  | cons byte rest ih =>
      have byteBound := byte.toNat_lt
      simp only [wordValue, List.length_cons, wordRange_succ]
      omega

theorem wordBytes_wordValue (bytes : Bytes) :
    wordBytes bytes.length (wordValue bytes) = bytes := by
  induction bytes with
  | nil => rfl
  | cons byte rest ih =>
      have byteBound := byte.toNat_lt
      have quotient : (byte.toNat + 256 * wordValue rest) / 256 = wordValue rest := by omega
      simp only [List.length_cons, wordValue, wordBytes, quotient, ih, List.cons.injEq, and_true]
      rw [← UInt8.toNat_inj, UInt8.toNat_ofNat']
      omega

@[simp] theorem fitted_length (room : Nat) (bytes : Bytes) : (fitted room bytes).length = room := by
  simp only [fitted, List.length_append, List.length_take, List.length_replicate]
  omega

theorem fitted_of_length (room : Nat) (bytes : Bytes) (exact : bytes.length = room) :
    fitted room bytes = bytes := by
  simp [fitted, ← exact]

@[simp] theorem field_length (bytes : Bytes) (offset count : Nat) :
    (field bytes offset count).length = count := by
  simp [field]

@[simp] theorem zeroed_length (room : Nat) : (zeroed room).length = room := by
  simp [zeroed]

end KernelMaps
