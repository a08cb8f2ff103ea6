import KernelMaps.Map.Strided

/-!
Slots of equal size in a row of bytes: each of them is where its number says, and blocks that were
put back to back are found again one by one.
-/

namespace KernelMaps

variable {count stride : Nat} {bytes : Bytes}

@[simp] theorem slots_length (count stride : Nat) (bytes : Bytes) :
    (slots count stride bytes).length = count := by
  induction count generalizing bytes with
  | zero => rfl
  | succ count ih => rw [slots, List.length_cons, ih]

theorem getElem?_slots {index : Nat} (below : index < count) :
    (slots count stride bytes)[index]? = some ((bytes.drop (index * stride)).take stride) := by
  induction count generalizing bytes index with
  | zero => omega
  | succ count ih =>
      cases index with
      | zero => simp [slots]
      | succ index =>
          have shifted : stride + index * stride = (index + 1) * stride := by
            rw [Nat.succ_mul, Nat.add_comm]
          rw [slots, List.getElem?_cons_succ, ih (by omega), List.drop_drop, shifted]

theorem length_of_mem_slots {slot : Bytes} (exact : bytes.length = count * stride)
    (member : slot ∈ slots count stride bytes) : slot.length = stride := by
  induction count generalizing bytes with
  | zero => simp [slots] at member
  | succ count ih =>
      rw [Nat.succ_mul] at exact
      rw [slots, List.mem_cons] at member
      rcases member with rfl | later
      · rw [List.length_take]
        omega
      · refine ih ?_ later
        rw [List.length_drop]
        omega

theorem flatten_slots (exact : bytes.length = count * stride) :
    (slots count stride bytes).flatten = bytes := by
  induction count generalizing bytes with
  | zero =>
      rw [Nat.zero_mul, List.length_eq_zero_iff] at exact
      rw [exact, slots, List.flatten_nil]
  | succ count ih =>
      have behind : (bytes.drop stride).length = count * stride := by
        rw [List.length_drop, exact, Nat.succ_mul, Nat.add_sub_cancel]
      rw [slots, List.flatten_cons, ih behind, List.take_append_drop]

theorem slots_flatten_append {blocks : List Bytes} (sized : ∀ block ∈ blocks, block.length = stride)
    (others : Nat) (rest : Bytes) :
    slots (blocks.length + others) stride (blocks.flatten ++ rest) =
      blocks ++ slots others stride rest := by
  induction blocks with
  | nil => simp
  | cons block blocks ih =>
      rw [List.forall_mem_cons] at sized
      have enough : (block :: blocks).length + others = blocks.length + others + 1 := by
        rw [List.length_cons]
        omega
      rw [enough, slots, List.flatten_cons, List.append_assoc, List.take_left' sized.1,
        List.drop_left' sized.1, ih sized.2, List.cons_append]

theorem slots_zeroed (count stride : Nat) :
    slots count stride (zeroed (count * stride)) = List.replicate count (zeroed stride) := by
  induction count with
  | zero => rfl
  | succ count ih =>
      rw [slots, Nat.succ_mul, zeroed, List.take_replicate, List.drop_replicate,
        Nat.min_eq_left (Nat.le_add_left ..), Nat.add_sub_cancel]
      exact congrArg _ ih

variable {α : Type} [Element α]

theorem readSlots_refused
    (narrow : stride < Element.size α ∨ bytes.length ≠ machineSize (count * stride)) :
    readSlots α count stride bytes =
      .error (.badValueSize (machineSize (count * stride)) bytes.length) := by
  rw [readSlots, checkSlots, if_pos narrow]
  rfl

/-- A row is read for as many values as it has slots, which are fewer than asked for if the size of
so many slots wraps around. -/
theorem readSlots_eq_ok (wide : Element.size α ≤ stride)
    (fills : bytes.length = machineSize (count * stride)) :
    readSlots α count stride bytes = .ok ((slots (bytes.length / stride) stride bytes).map
      fun slot => Element.decode (slot.take (Element.size α))) := by
  rw [readSlots, checkSlots, if_neg (by omega)]
  rfl

theorem readSlots_of_fits (positive : 0 < stride) (wide : Element.size α ≤ stride)
    (word : count * stride < bitRange 64) (fills : bytes.length = count * stride) :
    readSlots α count stride bytes = .ok ((slots count stride bytes).map fun slot =>
      Element.decode (slot.take (Element.size α))) := by
  have reached : bytes.length / stride = count := by
    rw [fills, Nat.mul_div_cancel _ positive]
  rw [readSlots_eq_ok wide (fills.trans (machineSize_of_lt word).symm), reached]

/-! Rows of blocks that are widened to slots. -/

theorem flatMap_fitted_length (width : Nat) (blocks : List Bytes) :
    (blocks.flatMap fun block => fitted width block).length = blocks.length * width := by
  induction blocks with
  | nil => simp
  | cons block blocks ih =>
      rw [List.flatMap_cons, List.length_append, fitted_length, ih, List.length_cons, Nat.succ_mul]
      omega

theorem take_fitted {room : Nat} {bytes : Bytes} (enough : bytes.length ≤ room) :
    (fitted room bytes).take bytes.length = bytes := by
  rw [fitted, List.take_of_length_le enough, List.take_left]

theorem slot_of_fitted (room : Nat) {blocks : List Bytes} {index : Nat} {block : Bytes}
    (here : blocks[index]? = some block) :
    ((blocks.flatMap fun block => fitted room block).drop (index * room)).take room =
      fitted room block := by
  have sized : ∀ slot ∈ blocks.map (fitted room), slot.length = room := by
    intro slot member
    obtain ⟨_, _, rfl⟩ := List.mem_map.1 member
    exact fitted_length ..
  have inside : index < (blocks.map (fitted room)).length + 0 := by
    obtain ⟨below, _⟩ := List.getElem?_eq_some_iff.1 here
    simpa using below
  have found : (slots _ room ((blocks.map (fitted room)).flatten ++ []))[index]? = _ :=
    getElem?_slots inside
  rw [slots_flatten_append sized, slots, List.append_nil, List.getElem?_map, here,
    List.append_nil] at found
  exact (Option.some.inj found).symm

theorem start_of_fitted {room : Nat} {blocks : List Bytes} {index : Nat} {block : Bytes}
    (here : blocks[index]? = some block) (enough : block.length ≤ room) :
    ((blocks.flatMap fun block => fitted room block).drop (index * room)).take block.length =
      block := by
  have slot := congrArg (List.take block.length) (slot_of_fitted room here)
  rwa [List.take_take, Nat.min_eq_left enough, take_fitted enough] at slot

theorem zero_behind_fitted {room : Nat} {blocks : List Bytes} {index : Nat} {block : Bytes}
    (here : blocks[index]? = some block) {offset : Nat} (behind : block.length ≤ offset)
    (within : offset < room) :
    (blocks.flatMap fun block => fitted room block)[index * room + offset]? = some 0 := by
  have shorter : (block.take room).length = block.length := by
    rw [List.length_take]
    omega
  rw [← List.getElem?_drop, ← List.getElem?_take_of_lt within, slot_of_fitted room here, fitted,
    List.getElem?_append_right (shorter ▸ behind), shorter, List.getElem?_replicate,
    if_pos (by omega)]

theorem writeSlots_length (stride : Nat) (values : List α) :
    (writeSlots stride values).length =
      machineSize (values.length * max stride (Element.size α)) :=
  fitted_length ..

theorem writeSlots_of_fits {values : List α}
    (positive : 0 < max stride (Element.size α))
    (word : values.length * max stride (Element.size α) < bitRange 64) :
    writeSlots stride values = values.flatMap fun value =>
      fitted (max stride (Element.size α)) (Element.encode value) := by
  have room := machineSize_of_lt word
  have filled : ((values.map Element.encode).flatMap fun block =>
      fitted (max stride (Element.size α)) block).length =
        values.length * max stride (Element.size α) := by
    rw [flatMap_fitted_length, List.length_map]
  rw [List.flatMap_map] at filled
  simp only [writeSlots, room, Nat.mul_div_cancel _ positive, List.take_length]
  exact fitted_of_length _ _ filled

end KernelMaps
