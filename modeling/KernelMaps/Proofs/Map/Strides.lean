import KernelMaps.Proofs.Map.PerCpuTexts
import KernelMaps.Proofs.Map.ViewSizes

/-!
Rows of values in slots of equal size. Writing puts each value at the start of its slot and zeros
behind it, in slots as wide as asked for if they take a value. Reading takes a row whose slots are
wide enough and fill it, and looks at nothing behind the values.
-/

namespace KernelMaps

variable {α : Type} [Element α] {count stride : Nat} {row : Bytes}

/-- Whether a row has a slot for each value, with the bytes of the value at its start and zeros in
the rest. -/
structure LaidOut (width : Nat) (values : List α) (row : Bytes) : Prop where
  length : row.length = values.length * width
  value : ∀ index value, values[index]? = some value →
    (row.drop (index * width)).take (Element.size α) = Element.encode value
  padding : ∀ index < values.length, ∀ offset, Element.size α ≤ offset → offset < width →
    row[index * width + offset]? = some 0

structure StandsInSlots (count width : Nat) (row : Bytes) (values : List α) : Prop where
  length : values.length = count
  value : ∀ index value, values[index]? = some value →
    Element.encode value = (row.drop (index * width)).take (Element.size α)

/-- Whether two rows of one length have the same bytes wherever a value stands. -/
def SameValues (α : Type) [Element α] (count width : Nat) (row other : Bytes) : Prop :=
  row.length = other.length ∧ ∀ index < count,
    (row.drop (index * width)).take (Element.size α) =
      (other.drop (index * width)).take (Element.size α)

section

variable (positive : 0 < Element.size α)
include positive

theorem laidOut_writeSlots_iff (stride : Nat) (values : List α) :
    LaidOut (max stride (Element.size α)) values (writeSlots stride values) ↔
      values.length * max stride (Element.size α) < bitRange 64 := by
  constructor
  · intro laid
    exact machineSize_eq_iff.1 ((writeSlots_length stride values).symm.trans laid.length)
  · intro word
    have room : Element.size α ≤ max stride (Element.size α) := Nat.le_max_right ..
    have blocks : writeSlots stride values = (values.map Element.encode).flatMap fun block =>
        fitted (max stride (Element.size α)) block := by
      rw [List.flatMap_map]
      exact writeSlots_of_fits (Nat.lt_of_lt_of_le positive room) word
    have encoded {index : Nat} {value : α} (here : values[index]? = some value) :
        (values.map Element.encode)[index]? = some (Element.encode value) := by
      rw [List.getElem?_map, here, Option.map_some]
    constructor
    case length => exact (writeSlots_length stride values).trans (machineSize_of_lt word)
    case value =>
      intro index value here
      have exact := Element.encode_length value
      rw [← exact] at room
      rw [blocks, ← exact]
      exact start_of_fitted (encoded here) room
    case padding =>
      intro index below offset behind within
      have exact := Element.encode_length values[index]
      rw [blocks]
      exact zero_behind_fitted (encoded (List.getElem?_eq_getElem below)) (exact ▸ behind) within

end

theorem readSlots_succeeds_iff :
    (∃ values, readSlots α count stride row = .ok values) ↔
      Element.size α ≤ stride ∧ row.length = machineSize (count * stride) := by
  constructor
  · rintro ⟨values, read⟩
    by_cases narrow : stride < Element.size α ∨ row.length ≠ machineSize (count * stride)
    · rw [readSlots_refused narrow] at read
      contradiction
    · omega
  · rintro ⟨wide, fills⟩
    exact ⟨_, readSlots_eq_ok wide fills⟩

theorem start_of_slot (row : Bytes) (wide : Element.size α ≤ stride) {index : Nat}
    (below : index < count) :
    (slots count stride row)[index]?.map (List.take (Element.size α)) =
      some ((row.drop (index * stride)).take (Element.size α)) := by
  rw [getElem?_slots below, Option.map_some, List.take_take, Nat.min_eq_left wide]

section

variable (positive : 0 < Element.size α)
include positive

theorem length_of_read_iff {values : List α} (read : readSlots α count stride row = .ok values) :
    values.length = count ↔ count * stride < bitRange 64 := by
  obtain ⟨wide, fills⟩ := readSlots_succeeds_iff.1 ⟨values, read⟩
  rw [readSlots_eq_ok wide fills] at read
  obtain rfl := Except.ok.inj read
  rw [List.length_map, slots_length, fills]
  exact machineSize_div_eq_iff (Nat.lt_of_lt_of_le positive wide)

theorem standsInSlots_of_read_iff {values : List α}
    (read : readSlots α count stride row = .ok values) :
    StandsInSlots count stride row values ↔ count * stride < bitRange 64 := by
  refine ⟨fun stands => (length_of_read_iff positive read).1 stands.length, ?_⟩
  intro word
  refine ⟨(length_of_read_iff positive read).2 word, ?_⟩
  obtain ⟨wide, fills⟩ := readSlots_succeeds_iff.1 ⟨values, read⟩
  rw [machineSize_of_lt word] at fills
  rw [readSlots_of_fits (Nat.lt_of_lt_of_le positive wide) wide word fills] at read
  obtain rfl := Except.ok.inj read
  intro index value here
  rw [List.getElem?_map, Option.map_eq_some_iff] at here
  obtain ⟨slot, found, rfl⟩ := here
  have below : index < count := by
    have inside := (List.getElem?_eq_some_iff.1 found).1
    rwa [slots_length] at inside
  have start := start_of_slot row wide below
  rw [found, Option.map_some, Option.some.injEq] at start
  have exact := length_of_mem_slots fills (List.mem_of_getElem? found)
  rw [Element.encode_decode _ (by rw [List.length_take]; omega), start]

theorem readSlots_writeSlots_iff (stride : Nat) (values : List α) :
    readSlots α values.length (max stride (Element.size α)) (writeSlots stride values) =
        .ok values ↔
      values.length * max stride (Element.size α) < bitRange 64 := by
  constructor
  · intro read
    exact (length_of_read_iff positive read).1 rfl
  · intro word
    obtain ⟨read, success⟩ := (readSlots_succeeds_iff (α := α)).2
      ⟨Nat.le_max_right stride (Element.size α), writeSlots_length stride values⟩
    have stands := (standsInSlots_of_read_iff positive success).2 word
    have written := (laidOut_writeSlots_iff positive stride values).2 word
    rw [success, Except.ok.injEq]
    apply List.ext_getElem stands.length
    intro index inside below
    apply Element.encode_injective
    rw [stands.value index _ (List.getElem?_eq_getElem inside),
      written.value index _ (List.getElem?_eq_getElem below)]

end

theorem SameValues.readSlots_eq {other : Bytes} (same : SameValues α count stride row other) :
    readSlots α count stride row = readSlots α count stride other := by
  obtain ⟨lengths, starts⟩ := same
  by_cases narrow : stride < Element.size α ∨ row.length ≠ machineSize (count * stride)
  · rw [readSlots_refused narrow, readSlots_refused (lengths ▸ narrow), lengths]
  · have wide : Element.size α ≤ stride := by omega
    have fills : row.length = machineSize (count * stride) := by omega
    have asked : row.length / stride ≤ count := by
      rw [fills]
      exact Nat.div_le_of_le_mul (Nat.mul_comm count stride ▸ machineSize_le _)
    rw [readSlots_eq_ok wide fills, readSlots_eq_ok wide (lengths ▸ fills), Except.ok.injEq,
      ← lengths]
    apply List.ext_getElem?
    intro index
    by_cases below : index < row.length / stride
    · have here := start_of_slot row wide below
      have there := start_of_slot other wide below
      rw [starts index (by omega), ← there] at here
      have decoded := congrArg (Option.map (Element.decode (α := α))) here
      simpa only [List.getElem?_map, Option.map_map, Function.comp_def] using decoded
    · rw [List.getElem?_eq_none (by simp; omega), List.getElem?_eq_none (by simp; omega)]

end KernelMaps
