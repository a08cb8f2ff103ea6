import KernelMaps.Codec.Hex
import KernelMaps.Map.Sequence
import KernelMaps.Map.Table
import KernelMaps.Proofs.Map.Requests
import KernelMaps.Stack.BuildId
import Mathlib.Order.Bounds.Basic

/-!
The sizes of what goes out to a map. Whatever a handle is asked to do and whatever the map replies,
every call carries a key of the map's key size, or none where the map takes none, and a value or a
buffer of the size that the map exchanges for one element.
-/

namespace KernelMaps

namespace Descriptor

variable (map : Descriptor)

/-- Whether a key suits the calls on one element: a queue or stack is asked without one. -/
def FitsElement : Option Bytes → Prop
  | none => map.kind.isKeyless = true
  | some key => map.kind.isKeyless = false ∧ key.length = map.keySize

/-- Whether a key suits the call for the next one: the first key is asked for without one. -/
def FitsPosition : Option Bytes → Prop
  | none => True
  | some key => key.length = map.keySize

def Fits : Request → Prop
  | .lookup key room | .take key room => map.FitsElement key ∧ room = map.bufferSize
  | .update key value _ => map.FitsElement key ∧ value.length = map.bufferSize
  | .delete key => key.length = map.keySize
  | .nextKey key room => map.FitsPosition key ∧ room = map.keySize

variable {map}

theorem slotSize_pos : 0 < map.slotSize :=
  Nat.lt_of_lt_of_le (by decide) (Nat.le_max_left slotAlignment _)

theorem slotSize_isLeast (fits : map.valueSize + slotAlignment ≤ bitRange 64) :
    IsLeast {size | 0 < size ∧ slotAlignment ∣ size ∧ map.valueSize ≤ size} map.slotSize := by
  have rounded : machineSize ((map.valueSize + 8 - 1) / 8 * 8) =
      (map.valueSize + 8 - 1) / 8 * 8 := by
    refine machineSize_of_lt ?_
    simp only [slotAlignment] at fits
    omega
  have slot : map.slotSize = max 8 ((map.valueSize + 8 - 1) / 8 * 8) := congrArg (max 8) rounded
  rw [slot]
  refine ⟨⟨?_, ?_, ?_⟩, ?_⟩
  · omega
  · show 8 ∣ _
    omega
  · omega
  · rintro size ⟨positive, ⟨count, rfl⟩, covers⟩
    simp only [slotAlignment] at *
    omega

/-- What all CPUs hold is a slot for each of them as long as that many bytes can be counted. -/
theorem bufferSize_eq_slots_iff (perCpu : map.kind.isPerCpu = true) {slot : Nat}
    (least : IsLeast {size | 0 < size ∧ slotAlignment ∣ size ∧ map.valueSize ≤ size} slot) :
    map.bufferSize = map.cpus * slot ↔ map.cpus * slot < bitRange 64 := by
  rw [bufferSize_of_perCpu perCpu]
  constructor
  · intro same
    exact same ▸ machineSize_lt _
  · intro counted
    rcases Nat.eq_zero_or_pos map.cpus with none | some
    · rw [none, Nat.zero_mul, Nat.zero_mul]
      rfl
    · have single : slot < bitRange 64 :=
        Nat.lt_of_le_of_lt (Nat.le_mul_of_pos_left slot some) counted
      have fits : map.valueSize + slotAlignment ≤ bitRange 64 := by
        obtain ⟨⟨-, ⟨count, rfl⟩, covers⟩, -⟩ := least
        have range : bitRange 64 = 8 * bitRange 61 := by decide
        simp only [slotAlignment] at *
        omega
      rw [IsLeast.unique (slotSize_isLeast fits) least, machineSize_of_lt counted]

namespace SlotsFit

variable (fits : map.SlotsFit)
include fits

theorem valueSize_le_slotSize : map.valueSize ≤ map.slotSize :=
  (slotSize_isLeast fits.slot).1.2.2

theorem bufferSize_eq (perCpu : map.kind.isPerCpu = true) :
    map.bufferSize = map.cpus * map.slotSize :=
  (bufferSize_of_perCpu perCpu).trans (machineSize_of_lt fits.buffer)

end SlotsFit

theorem slotsFit_of_le (small : map.valueSize ≤ addressSpace) : map.SlotsFit := by
  have room : addressSpace + slotAlignment ≤ bitRange 48 := by decide
  have fits : map.valueSize + slotAlignment ≤ bitRange 48 :=
    Nat.le_trans (Nat.add_le_add_right small _) room
  have slot : map.valueSize + slotAlignment ≤ bitRange 64 :=
    Nat.le_trans fits (bitRange_mono (by decide))
  have least : map.slotSize ≤ bitRange 48 := by
    refine (slotSize_isLeast slot).2 ⟨by decide, ⟨bitRange 45, by decide⟩, ?_⟩
    exact Nat.le_trans (Nat.le_add_right _ _) fits
  have all : bitRange 16 * bitRange 48 = bitRange 64 := by decide
  refine ⟨slot, all ▸ ?_⟩
  calc map.cpus * map.slotSize ≤ map.cpus * bitRange 48 := Nat.mul_le_mul_left _ least
    _ < bitRange 16 * bitRange 48 := Nat.mul_lt_mul_of_pos_right map.cpuCount.toNat_lt (by decide)

def wrappedShares : Descriptor where
  name := "shares"
  kind := .percpuHash
  keySize := 4
  valueSize := 6148914691236517208
  capacity := 2
  fd := 6
  ownsFd := true
  cpuCount := 3
  keyCodec := .hex
  valueCodec := .hex

theorem keyArgument_fits {key : Bytes} {sent : Option Bytes}
    (accepted : map.keyArgument key = .ok sent) : map.FitsElement sent := by
  rw [keyArgument] at accepted
  split at accepted
  · contradiction
  · next exact =>
      rw [← Except.ok.inj accepted]
      cases keyless : map.kind.isKeyless with
      | true => exact keyless
      | false =>
          refine ⟨keyless, ?_⟩
          rw [Decidable.not_not] at exact
          simpa [callKeySize, keyless] using exact

theorem checkKey_eq_ok {key : Bytes} {result : Unit} :
    map.checkKey key = .ok result ↔ key.length = map.keySize := by
  rw [checkKey]
  split
  · next other => simp [other]
  · next exact => simpa using exact

theorem lookup_asks (map : Descriptor) (key : Bytes) : (map.lookup key).Asks map.Fits := by
  refine Attempt.asks_liftM_bind ?_
  intro sent accepted
  refine Attempt.asks_perform_bind ⟨keyArgument_fits accepted, rfl⟩ ?_
  exact fun _ => Attempt.asks_liftM _

theorem take_asks (map : Descriptor) (key : Bytes) : (map.take key).Asks map.Fits := by
  refine Attempt.asks_liftM_bind ?_
  intro sent accepted
  refine Attempt.asks_perform_bind ⟨keyArgument_fits accepted, rfl⟩ ?_
  exact fun _ => Attempt.asks_liftM _

theorem update_asks (map : Descriptor) (key value : Bytes) (flags : UInt64) :
    (map.update key value flags).Asks map.Fits := by
  refine Attempt.asks_liftM_bind ?_
  intro sent accepted
  by_cases fits : value.length = map.bufferSize
  · simp only [fits, ne_eq, not_true_eq_false, if_false]
    refine Attempt.asks_perform_bind ⟨keyArgument_fits accepted, fits⟩ ?_
    intro reply
    cases reply <;> trivial
  · simp only [fits, ne_eq, not_false_eq_true, if_true]
    exact Attempt.asks_throw _

theorem delete_asks (map : Descriptor) (key : Bytes) : (map.delete key).Asks map.Fits := by
  refine Attempt.asks_liftM_bind ?_
  intro checked accepted
  refine Attempt.asks_perform_bind (checkKey_eq_ok.1 accepted) ?_
  intro reply
  cases reply with
  | ok _ => exact Attempt.asks_pure _
  | error errno =>
      dsimp only
      split <;> exact Attempt.asks_throw _

theorem firstKey_asks (map : Descriptor) :
    map.firstKey.Asks fun request => request = .nextKey none map.keySize := by
  refine Attempt.asks_perform_bind rfl ?_
  exact fun _ => Attempt.asks_liftM _

theorem nextKey_asks (map : Descriptor) (key : Bytes) :
    (map.nextKey key).Asks fun request =>
      key.length = map.keySize ∧ request = .nextKey (some key) map.keySize := by
  refine Attempt.asks_liftM_bind ?_
  intro checked accepted
  refine Attempt.asks_perform_bind ⟨checkKey_eq_ok.1 accepted, rfl⟩ ?_
  exact fun _ => Attempt.asks_liftM _

theorem firstKey_fits (map : Descriptor) : map.firstKey.Asks map.Fits := by
  refine map.firstKey_asks.mono ?_
  rintro request rfl
  exact ⟨trivial, rfl⟩

theorem nextKey_fits (map : Descriptor) (key : Bytes) : (map.nextKey key).Asks map.Fits := by
  refine (map.nextKey_asks key).mono ?_
  rintro request ⟨exact, rfl⟩
  exact ⟨exact, rfl⟩

end Descriptor

/-! Walks and clearing feed keys that the map gave out back into it. -/

theorem KeyWalk.next_every {property : Request → Prop} {map : Descriptor}
    (first : map.firstKey.Asks property) (others : ∀ key, (map.nextKey key).Asks property)
    (walk : KeyWalk) : (walk.next map).Every property := by
  obtain ⟨current, finished⟩ := walk
  cases finished with
  | true => trivial
  | false =>
      cases current with
      | none =>
          refine Access.Every.bind first ?_
          intro found
          rcases found with error | ⟨_ | key⟩ <;> trivial
      | some key =>
          refine Access.Every.bind (others key) ?_
          intro found
          rcases found with error | ⟨_ | key⟩ <;> trivial

theorem KeyWalk.next_fits (map : Descriptor) (walk : KeyWalk) :
    (walk.next map).Every map.Fits :=
  next_every map.firstKey_fits map.nextKey_fits walk

theorem KeyWalk.itemsAfter_fits (map : Descriptor) (before : List (Except MapError Bytes))
    (limit : Nat) (walk : KeyWalk) : (itemsAfter map before limit walk).Every map.Fits := by
  induction limit generalizing before walk with
  | zero => exact (next_fits map walk).bind fun _ => trivial
  | succ limit ih =>
      refine (next_fits map walk).bind ?_
      rintro ⟨_ | item, walk⟩
      · trivial
      · exact ih (item :: before) walk

theorem collectKeys_fits {α : Type} {map : Descriptor} {visit : Bytes → Attempt (Option α)}
    (each : ∀ key, (visit key).Asks map.Fits) (budget : Nat) :
    (collectKeys map visit budget).Asks map.Fits := by
  refine Attempt.asks_loop ?_ budget _
  intro state
  refine Attempt.Asks.bind (Attempt.asks_lift (state.1.next_fits map)) ?_
  rintro ⟨_ | error | key, walk⟩
  · exact Attempt.asks_pure _
  · exact Attempt.asks_throw _
  · refine (each key).bind ?_
    intro result
    cases result <;> exact Attempt.asks_pure _

theorem clearKeys_fits (map : Descriptor) (budget : Nat) : (clearKeys map budget).Asks map.Fits := by
  refine Attempt.asks_loop ?_ budget _
  intro state
  refine map.firstKey_fits.bind ?_
  intro found
  cases found with
  | none => exact Attempt.asks_pure _
  | some key => exact (map.delete_asks key).bind fun _ => Attempt.asks_pure _

theorem clearFrom_fits (map : Descriptor) (first count : Nat) :
    (clearFrom map first count).Asks map.Fits := by
  induction count generalizing first with
  | zero => exact Attempt.asks_pure _
  | succ count ih =>
      refine Attempt.Asks.bind ?_ fun _ => ih (first + 1)
      refine (map.delete_asks (wordBytes 4 first)).tryCatch ?_
      intro error
      cases error <;> trivial

theorem clearIndices_fits (map : Descriptor) : (clearIndices map).Asks map.Fits :=
  clearFrom_fits map 0 map.capacity.toNat

/-! What a handle can be asked to do, for each sort of handle. -/

structure Descriptor.CallsFit (map : Descriptor) : Prop where
  lookup : ∀ key, (map.lookup key).Asks map.Fits
  update : ∀ key value flags, (map.update key value flags).Asks map.Fits
  delete : ∀ key, (map.delete key).Asks map.Fits
  take : ∀ key, (map.take key).Asks map.Fits
  firstKey : map.firstKey.Asks fun request => request = .nextKey none map.keySize
  nextKey : ∀ key, (map.nextKey key).Asks fun request =>
    key.length = map.keySize ∧ request = .nextKey (some key) map.keySize
  walk : ∀ limit walk, (KeyWalk.items map limit walk).Every map.Fits

structure Table.CallsFit (table : Table) : Prop where
  get : ∀ key, (table.get key).Asks table.map.Fits
  getPerCpu : ∀ key, (table.getPerCpu key).Asks table.map.Fits
  update : ∀ key value, (table.update key value).Asks table.map.Fits
  updatePerCpu : ∀ key values, (table.updatePerCpu key values).Asks table.map.Fits
  remove : ∀ key, (table.remove key).Asks table.map.Fits
  dumpBytes : ∀ budget, (table.dumpBytes budget).Asks table.map.Fits
  dump : ∀ budget, (table.dump budget).Asks table.map.Fits
  clear : ∀ budget, (table.clear budget).Asks table.map.Fits

structure TypedMap.CallsFit {κ ν : Type} [Element κ] (view : TypedMap κ ν) : Prop where
  get : ∀ key, (view.get key).Asks view.map.Fits
  update : ∀ key value, (view.update key value).Asks view.map.Fits
  updateWith : ∀ key value flags, (view.updateWith key value flags).Asks view.map.Fits
  remove : ∀ key, (view.remove key).Asks view.map.Fits
  enumerate : ∀ budget, (view.enumerate budget).Asks view.map.Fits
  clear : ∀ budget, (view.clear budget).Asks view.map.Fits

structure SequenceMap.CallsFit {α : Type} [Element α] (container : SequenceMap α) : Prop where
  push : ∀ value flags, (container.push value flags).Asks container.map.Fits
  pop : container.pop.Asks container.map.Fits
  head : container.head.Asks container.map.Fits

structure StackTable.CallsFit {σ χ : Type} (table : StackTable σ χ) : Prop where
  raw : ∀ id, (table.raw id).Asks table.map.Fits
  addresses : ∀ id, (table.addresses id).Asks table.map.Fits
  symbols : ∀ symbolizer id pid, (table.symbols symbolizer id pid).Asks table.map.Fits
  clear : table.clear.Asks table.map.Fits

structure BuildIdTable.CallsFit (table : BuildIdTable) : Prop where
  raw : ∀ id, (table.raw id).Asks table.map.Fits
  frames : ∀ id, (table.frames id).Asks table.map.Fits
  symbols : ∀ (σ : Type) (resolver : FrameResolver σ) (state : σ) (id : StackId),
    (table.symbols resolver state id).Asks table.map.Fits
  clear : table.clear.Asks table.map.Fits

theorem Descriptor.callsFit (map : Descriptor) : map.CallsFit where
  lookup := map.lookup_asks
  update := map.update_asks
  delete := map.delete_asks
  take := map.take_asks
  firstKey := map.firstKey_asks
  nextKey := map.nextKey_asks
  walk := KeyWalk.itemsAfter_fits map []

namespace Table

variable (table : Table)

theorem lookup_fits (key : String) : (table.lookup key).Asks table.map.Fits := by
  refine Attempt.Asks.bind (Attempt.asks_liftM _) ?_
  intro bytes
  refine (table.map.lookup_asks bytes).bind ?_
  intro found
  cases found with
  | none => exact Attempt.asks_throw _
  | some value => exact Attempt.asks_pure _

theorem get_fits (key : String) : (table.get key).Asks table.map.Fits := by
  rw [get]
  split
  · exact Attempt.asks_throw _
  · exact (table.lookup_fits key).bind fun _ => Attempt.asks_liftM _

theorem getPerCpu_fits (key : String) : (table.getPerCpu key).Asks table.map.Fits := by
  rw [getPerCpu]
  split
  · exact Attempt.asks_throw _
  · exact (table.lookup_fits key).bind fun _ => Attempt.asks_liftM _

theorem update_fits (key value : String) : (table.update key value).Asks table.map.Fits := by
  rw [update]
  split
  · exact Attempt.asks_throw _
  · refine Attempt.Asks.bind (Attempt.asks_liftM _) ?_
    intro key
    refine Attempt.Asks.bind (Attempt.asks_liftM _) ?_
    intro value
    exact table.map.update_asks key value 0

theorem updatePerCpu_fits (key : String) (values : List String) :
    (table.updatePerCpu key values).Asks table.map.Fits := by
  rw [updatePerCpu]
  split
  · exact Attempt.asks_throw _
  · by_cases count : values.length = table.map.cpus
    · simp only [count, ne_eq, not_true_eq_false, if_false]
      refine Attempt.Asks.bind (Attempt.asks_mapM (fun _ => Attempt.asks_liftM _) _) ?_
      intro shares
      refine Attempt.Asks.bind (Attempt.asks_liftM _) ?_
      intro key
      exact table.map.update_asks key _ 0
    · simp only [count, ne_eq, not_false_eq_true, if_true]
      exact Attempt.asks_throw _

theorem remove_fits (key : String) : (table.remove key).Asks table.map.Fits :=
  Attempt.Asks.bind (Attempt.asks_liftM _) fun key => table.map.delete_asks key

theorem dumpBytes_fits (budget : Nat) : (table.dumpBytes budget).Asks table.map.Fits := by
  refine collectKeys_fits ?_ budget
  intro key
  refine (table.map.lookup_asks key).bind ?_
  intro found
  cases found <;> exact Attempt.asks_pure _

theorem dump_fits (budget : Nat) : (table.dump budget).Asks table.map.Fits := by
  refine (table.dumpBytes_fits budget).bind ?_
  intro dumped
  cases dumped with
  | none => exact Attempt.asks_pure _
  | some entries => exact Attempt.Asks.bind (Attempt.asks_liftM _) fun _ => Attempt.asks_pure _

theorem clear_fits (budget : Nat) : (table.clear budget).Asks table.map.Fits := by
  have byKey := clearKeys_fits table.map budget
  have byIndex : Attempt.Asks (do clearIndices table.map; return some ()) table.map.Fits :=
    (clearIndices_fits table.map).bind fun _ => Attempt.asks_pure _
  have refused (refusal : Refusal) : (table.refuse refusal : Attempt (Option Unit)).Asks
      table.map.Fits := Attempt.asks_throw _
  rw [clear]
  split <;> simp only [byKey, byIndex, refused]

theorem callsFit : table.CallsFit where
  get := table.get_fits
  getPerCpu := table.getPerCpu_fits
  update := table.update_fits
  updatePerCpu := table.updatePerCpu_fits
  remove := table.remove_fits
  dumpBytes := table.dumpBytes_fits
  dump := table.dump_fits
  clear := table.clear_fits

end Table

namespace TypedMap

variable {κ ν : Type} [Element κ] (view : TypedMap κ ν)

theorem get_fits (key : κ) : (view.get key).Asks view.map.Fits := by
  refine (view.map.lookup_asks (Element.encode key)).bind ?_
  intro found
  cases found with
  | none => exact Attempt.asks_throw _
  | some bytes => exact Attempt.asks_liftM _

theorem updateWith_fits (key : κ) (value : ν) (flags : UInt64) :
    (view.updateWith key value flags).Asks view.map.Fits :=
  Attempt.Asks.bind (Attempt.asks_liftM _) fun _ => view.map.update_asks _ _ flags

theorem visit_fits (key : Bytes) : (view.visit key).Asks view.map.Fits := by
  refine Attempt.Asks.bind (Attempt.asks_liftM _) ?_
  intro key
  refine Attempt.Asks.tryCatch ((view.get_fits key).bind fun _ => Attempt.asks_pure _) ?_
  intro error
  cases error <;> trivial

omit [Element κ] in
theorem clear_fits (budget : Nat) : (view.clear budget).Asks view.map.Fits := by
  rw [clear]
  split
  · exact clearKeys_fits view.map budget
  · exact (clearIndices_fits view.map).bind fun _ => Attempt.asks_pure _

theorem valuesFrom_fits (view : TypedMap UInt32 ν) (before : List ν) (first count : Nat) :
    (view.valuesFrom before first count).Asks view.map.Fits := by
  induction count generalizing before first with
  | zero => exact Attempt.asks_pure _
  | succ count ih => exact (view.get_fits _).bind fun value => ih (value :: before) (first + 1)

theorem callsFit : view.CallsFit where
  get := view.get_fits
  update key value := view.updateWith_fits key value 0
  updateWith := view.updateWith_fits
  remove key := view.map.delete_asks (Element.encode key)
  enumerate := collectKeys_fits view.visit_fits
  clear := view.clear_fits

end TypedMap

namespace SequenceMap

theorem callsFit {α : Type} [Element α] (container : SequenceMap α) : container.CallsFit where
  push value := container.map.update_asks [] (Element.encode value)
  pop := (container.map.take_asks []).bind fun _ => Attempt.asks_liftM _
  head := (container.map.lookup_asks []).bind fun _ => Attempt.asks_liftM _

end SequenceMap

theorem storedFrames_fits {α : Type} [Element α] (empty : α) (map : Descriptor) (id : StackId) :
    (storedFrames α empty map id).Asks map.Fits := by
  rw [storedFrames]
  split
  · exact Attempt.asks_pure _
  · exact (map.lookup_asks _).bind fun _ => Attempt.asks_pure _

namespace StackTable

variable {σ χ : Type} (table : StackTable σ χ)

theorem addresses_fits (id : StackId) :
    (table.addresses id).Asks table.map.Fits := by
  refine Attempt.Asks.bind (storedFrames_fits 0 table.map id) ?_
  intro stored
  cases stored <;> exact Attempt.asks_pure _

theorem callsFit : table.CallsFit where
  raw := storedFrames_fits 0 table.map
  addresses := table.addresses_fits
  symbols _ id _ := (table.addresses_fits id).bind fun _ => Attempt.asks_pure _
  clear := clearIndices_fits table.map

end StackTable

namespace BuildIdTable

theorem frames_fits (table : BuildIdTable) (id : StackId) :
    (table.frames id).Asks table.map.Fits := by
  refine Attempt.Asks.bind (storedFrames_fits BuildIdFrame.empty table.map id) ?_
  intro stored
  cases stored <;> exact Attempt.asks_pure _

theorem callsFit (table : BuildIdTable) : table.CallsFit where
  raw := storedFrames_fits BuildIdFrame.empty table.map
  frames := table.frames_fits
  symbols _ _ _ id := (table.frames_fits id).bind fun _ => Attempt.asks_pure _
  clear := clearIndices_fits table.map

end BuildIdTable

end KernelMaps
