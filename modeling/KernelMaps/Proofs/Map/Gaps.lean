import KernelMaps.Codec.Hex
import KernelMaps.Map.Table
import KernelMaps.Proofs.Map.Walks

/-!
Walks over arrays of references. Such an array hands out every index as a key, also those of empty
slots, and a walk is over at the first of these. So it gives the elements in front of the first
gap, which are all there are only if no element stands behind one.
-/

namespace KernelMaps

def leading (index : Nat) : List (Option Bytes) → List (Bytes × Bytes)
  | some value :: rest => (wordBytes 4 index, value) :: leading (index + 1) rest
  | _ => []

def occupied (index : Nat) : List (Option Bytes) → List (Bytes × Bytes)
  | [] => []
  | some value :: rest => (wordBytes 4 index, value) :: occupied (index + 1) rest
  | none :: rest => occupied (index + 1) rest

/-- Whether no element stands behind an empty slot. -/
def Gapless : List (Option Bytes) → Prop
  | [] => True
  | some _ :: rest => Gapless rest
  | none :: rest => ∀ slot ∈ rest, slot = none

theorem contents_references (slots : Array (Option Bytes)) :
    (Store.references slots).contents 4 = some (occupied 0 slots.toList) := by
  have shifted (index : Nat) (slots : List (Option Bytes)) :
      (slots.zipIdx index).filterMap (fun indexed =>
        indexed.1.map fun value => (wordBytes 4 indexed.2, value)) = occupied index slots := by
    induction slots generalizing index with
    | nil => rfl
    | cons slot rest ih =>
        cases slot with
        | none => simp [occupied, ih]
        | some value => simp [occupied, ih]
  exact congrArg some (shifted 0 slots.toList)

theorem occupied_eq_nil {index : Nat} {slots : List (Option Bytes)} :
    occupied index slots = [] ↔ ∀ slot ∈ slots, slot = none := by
  induction slots generalizing index with
  | nil => simp [occupied]
  | cons slot rest ih =>
      cases slot with
      | none => simp [occupied, ih]
      | some value => simp [occupied]

theorem leading_eq_iff {index : Nat} {slots : List (Option Bytes)} :
    leading index slots = occupied index slots ↔ Gapless slots := by
  induction slots generalizing index with
  | nil => simp [leading, occupied, Gapless]
  | cons slot rest ih =>
      cases slot with
      | none =>
          simp only [leading, occupied, Gapless]
          rw [eq_comm, occupied_eq_nil]
      | some value => simp [leading, occupied, Gapless, ih]

theorem leading_length_eq_iff {index : Nat} {slots : List (Option Bytes)} :
    (leading index slots).length = (occupied index slots).length ↔
      leading index slots = occupied index slots := by
  induction slots generalizing index with
  | nil => simp [leading, occupied]
  | cons slot rest ih =>
      cases slot with
      | none =>
          simp only [leading, occupied, List.length_nil]
          rw [eq_comm, List.length_eq_zero_iff, eq_comm]
      | some value => simp [leading, occupied, ih]

theorem leading_length_le {index : Nat} {slots : List (Option Bytes)} :
    (leading index slots).length ≤ slots.length := by
  induction slots generalizing index with
  | nil => exact Nat.le_refl 0
  | cons slot rest ih =>
      cases slot with
      | none => exact Nat.zero_le _
      | some value => exact Nat.succ_le_succ ih

theorem getElem?_leading {first index : Nat} {slots : List (Option Bytes)}
    (inside : index ≤ (leading first slots).length) :
    (leading first slots)[index]? =
      match slots[index]? with
      | some (some value) => some (wordBytes 4 (first + index), value)
      | _ => none := by
  induction slots generalizing first index with
  | nil => rfl
  | cons slot rest ih =>
      cases slot with
      | none =>
          obtain rfl := Nat.le_zero.1 inside
          rfl
      | some value =>
          cases index with
          | zero => rfl
          | succ index =>
              simp only [leading, List.getElem?_cons_succ]
              rw [ih (Nat.le_of_succ_le_succ inside), Nat.succ_add_eq_add_succ]

def KeyWalk.before : Nat → KeyWalk
  | 0 => .start
  | index + 1 => ⟨some (wordBytes 4 index), false⟩

theorem nextIndex_before {count index : Nat} (bounded : count ≤ wordRange 4)
    (below : index ≤ count) :
    Store.nextIndex count (KeyWalk.before index).current 4 =
      if index < count then .ok (wordBytes 4 index) else .error .noEntry := by
  cases index with
  | zero =>
      simp only [Store.nextIndex, KeyWalk.before, KeyWalk.start, pure_bind]
      split
      · rw [Store.copyTo, if_pos (wordBytes_length ..)]
      · rfl
  | succ index =>
      have found := Store.indexOf_wordBytes (Nat.lt_of_lt_of_le below bounded)
      simp only [Store.nextIndex, KeyWalk.before, found, Except.map, bind, Except.bind]
      split
      · rw [Store.copyTo, if_pos (wordBytes_length ..)]
      · rfl

theorem Descriptor.ask_before {map : Descriptor} (keySize : map.keySize = 4) (simulation : Simulation)
    (index : Nat) :
    simulation.run (match (KeyWalk.before index).current with
      | none => map.firstKey
      | some key => map.nextKey key) =
        simulation.run (map.stepKey (KeyWalk.before index).current) := by
  cases index with
  | zero => rfl
  | succ index =>
      have checked : map.checkKey (wordBytes 4 index) = .ok () := by
        simp [Descriptor.checkKey, keySize]
      simp only [KeyWalk.before, Simulation.run_nextKey, checked]

theorem Simulation.Serves.nextIndex {map : Descriptor} {simulation : Simulation} {store : Store}
    {count index : Nat} (serves : simulation.Serves store)
    (indexed : ∀ key room, store.nextKey key room = Store.nextIndex count key room)
    (keySize : map.keySize = 4) (bounded : count ≤ wordRange 4) (below : index ≤ count) :
    ∃ after, after.Serves store ∧
      ((KeyWalk.before index).next map).run Simulation.answer simulation =
        ((KeyWalk.before index).given (if index < count then some (wordBytes 4 index) else none),
          after) := by
  obtain ⟨after, answered, kept⟩ :=
    serves.answer (.nextKey (KeyWalk.before index).current map.keySize)
  refine ⟨after, kept, ?_⟩
  rw [keySize] at answered
  have stepped : simulation.run (map.stepKey (KeyWalk.before index).current) =
      (.ok (if index < count then some (wordBytes 4 index) else none), after) := by
    rw [Simulation.run_stepKey, keySize]
    simp only [answered, Store.answer, indexed, nextIndex_before bounded below]
    split
    · simp only [Descriptor.handedOut, fitted_of_length _ _ (wordBytes_length 4 index)]
    · rfl
  exact KeyWalk.run_next (by cases index <;> rfl)
    ((Descriptor.ask_before keySize simulation index).trans stepped)

structure ServesSlots (map : Descriptor) (slots : Array (Option Bytes)) (simulation : Simulation) :
    Prop where
  keySize : map.keySize = 4
  keyed : map.kind.isKeyless = false
  shared : map.kind.isPerCpu = false
  bounded : slots.size ≤ wordRange 4
  sized : ∀ value, some value ∈ slots → value.length = map.valueSize
  serves : simulation.Serves (.references slots)

namespace ServesSlots

variable {map : Descriptor} {slots : Array (Option Bytes)} {simulation : Simulation}

theorem lookup (served : ServesSlots map slots simulation) {index : Nat} {slot : Option Bytes}
    (here : slots[index]? = some slot) :
    ∃ after, simulation.run (map.lookup (wordBytes 4 index)) = (.ok slot, after) ∧
      ServesSlots map slots after := by
  obtain ⟨inside, _⟩ := Array.getElem?_eq_some_iff.1 here
  have found := Store.indexOf_wordBytes (Nat.lt_of_lt_of_le inside served.bounded)
  have argument : map.keyArgument (wordBytes 4 index) = .ok (some (wordBytes 4 index)) :=
    Descriptor.keyArgument_of_keyed served.keyed
      ((wordBytes_length 4 index).trans served.keySize.symm)
  have room : map.bufferSize = map.valueSize := Descriptor.bufferSize_of_single served.shared
  obtain ⟨after, answered, kept⟩ :=
    served.serves.answer (.lookup (some (wordBytes 4 index)) map.bufferSize)
  rw [Simulation.run_lookup, argument]
  simp only [answered]
  refine ⟨after, ?_, { served with serves := kept }⟩
  simp only [Store.answer, Store.lookup, found, bind, Except.bind, here]
  cases slot with
  | none => rfl
  | some value =>
      have exact := served.sized value (Array.mem_of_getElem? here)
      simp only [Store.copyTo, room, exact, if_true, Descriptor.handedOut]
      rw [fitted_of_length _ _ exact]

theorem next (served : ServesSlots map slots simulation) {index : Nat}
    (below : index ≤ slots.size) :
    ∃ after, ServesSlots map slots after ∧
      ((KeyWalk.before index).next map).run Simulation.answer simulation =
        ((KeyWalk.before index).given (if index < slots.size then some (wordBytes 4 index)
          else none), after) := by
  obtain ⟨after, kept, walked⟩ := served.serves.nextIndex (fun _ _ => rfl) served.keySize
    served.bounded below
  exact ⟨after, { served with serves := kept }, walked⟩

end ServesSlots

def ReadsSlots {α : Type} (map : Descriptor) (slots : Array (Option Bytes))
    (visit : Bytes → Attempt (Option α)) (reading : Bytes × Bytes → α) : Prop :=
  ∀ simulation index slot, ServesSlots map slots simulation → slots[index]? = some slot →
    ∃ after, simulation.run (visit (wordBytes 4 index)) =
      (.ok (slot.map fun value => reading (wordBytes 4 index, value)), after) ∧
        ServesSlots map slots after

namespace ReadsSlots

variable {α : Type} {map : Descriptor} {slots : Array (Option Bytes)}
  {visit : Bytes → Attempt (Option α)} {reading : Bytes × Bytes → α}

theorem round (reads : ReadsSlots map slots visit reading) {simulation : Simulation}
    (served : ServesSlots map slots simulation) {index : Nat} (before : List α)
    (inside : index ≤ (leading 0 slots.toList).length) :
    ∃ after, ServesSlots map slots after ∧
      simulation.run (collectNext map visit (KeyWalk.before index, before)) =
        (.ok (Round KeyWalk.before ((leading 0 slots.toList).map reading) before index),
          after) := by
  have below : index ≤ slots.size := Nat.le_trans inside leading_length_le
  have result := getElem?_leading inside
  rw [Nat.zero_add] at result
  obtain ⟨between, kept, walked⟩ := served.next below
  by_cases present : index < slots.size
  · rw [if_pos present] at walked
    obtain ⟨after, visited, last⟩ :=
      reads between index slots[index] kept (Array.getElem?_eq_getElem present)
    refine ⟨after, last, ?_⟩
    have here : slots.toList[index]? = some slots[index] := by simp [present]
    rw [here] at result
    simp only [collectNext, Simulation.run_bind, Simulation.run_lift, walked, KeyWalk.given,
      visited, Round, List.getElem?_map, result]
    cases slots[index] with
    | none => rfl
    | some value => cases index <;> rfl
  · rw [if_neg present] at walked
    refine ⟨between, kept, ?_⟩
    have ended : slots.toList[index]? = none := by simpa using present
    rw [ended] at result
    simp only [collectNext, Simulation.run_bind, Simulation.run_lift, walked, KeyWalk.given, Round,
      List.getElem?_map, result]
    rfl

theorem runWalk (reads : ReadsSlots map slots visit reading) {simulation : Simulation}
    (served : ServesSlots map slots simulation) :
    ∃ after, ServesSlots map slots after ∧
      simulation.runWalk (collectKeys map visit) =
        (.ok ((leading 0 slots.toList).map reading), after) := by
  have budget : simulation.store.walkBudget = slots.size + 1 := by
    rw [served.serves.store, Store.walkBudget]
  have enough : ((leading 0 slots.toList).map reading).length < slots.size + 1 := by
    rw [List.length_map]
    exact Nat.lt_succ_of_le leading_length_le
  obtain ⟨after, kept, looped⟩ := Simulation.run_rounds
    (fun _ _ before served inside => reads.round served before (by simpa using inside))
    served enough
  refine ⟨after, kept, ?_⟩
  rw [Simulation.runWalk, budget, collectKeys, show KeyWalk.start = KeyWalk.before 0 from rfl,
    looped]
  rfl

end ReadsSlots

theorem Table.readsSlots (map : Descriptor) (slots : Array (Option Bytes)) :
    ReadsSlots map slots (fun key => do
      match ← map.lookup key with
      | none => return none
      | some value => return some (key, value)) id := by
  intro simulation index slot served here
  obtain ⟨after, found, kept⟩ := served.lookup here
  refine ⟨after, ?_, kept⟩
  rw [Simulation.run_bind, found]
  cases slot <;> rfl

theorem TypedMap.readsSlots {κ α : Type} [Element κ] [Element α] {map : Descriptor}
    (slots : Array (Option Bytes)) (clearing : Clearing) (summary : String)
    (keys : Element.size κ = 4) (values : Element.size α = map.valueSize) :
    ReadsSlots map slots (⟨map, Content.single α, clearing, summary⟩ : TypedMap κ α).visit
      fun entry => (Element.decode entry.1, Element.decode entry.2) := by
  intro simulation index slot served here
  obtain ⟨after, found, kept⟩ := served.lookup here
  refine ⟨after, ?_, kept⟩
  have exact : (wordBytes 4 index).length = Element.size κ := by rw [wordBytes_length, keys]
  have key := readElement_of_length exact
  simp only [TypedMap.visit, TypedMap.get, key, Simulation.run_bind, Simulation.run_liftM,
    Simulation.run_tryCatch, Element.encode_decode _ exact, found]
  cases slot with
  | none => rfl
  | some value =>
      have size : value.length = Element.size α := by
        rw [served.sized value (Array.mem_of_getElem? here), values]
      have read := readElement_of_length size
      simp only [Content.single, Simulation.run_liftM, read]
      rfl

/-- What a walk over slots comes to: it gives the elements in front of the first gap, these are all
elements exactly if there is nothing behind a gap, and the slots stay as they are. -/
structure StopsAtGap {α : Type} (slots : Array (Option Bytes)) (reading : Bytes × Bytes → α)
    (walk : Except MapError (List α) × Simulation) : Prop where
  gives : walk.1 = .ok ((leading 0 slots.toList).map reading)
  complete : walk.1 = .ok ((occupied 0 slots.toList).map reading) ↔ Gapless slots.toList
  kept : walk.2.store = .references slots

theorem ReadsSlots.stopsAtGap {α : Type} {map : Descriptor} {slots : Array (Option Bytes)}
    {visit : Bytes → Attempt (Option α)} {reading : Bytes × Bytes → α}
    (reads : ReadsSlots map slots visit reading) {simulation : Simulation}
    (served : ServesSlots map slots simulation) :
    StopsAtGap slots reading (simulation.runWalk (collectKeys map visit)) := by
  obtain ⟨after, kept, walked⟩ := reads.runWalk served
  rw [walked]
  refine ⟨rfl, ?_, kept.serves.store⟩
  rw [← leading_eq_iff]
  constructor
  · intro same
    have lengths := congrArg List.length (Except.ok.inj same)
    rw [List.length_map, List.length_map] at lengths
    exact leading_length_eq_iff.1 lengths
  · intro same
    rw [same]

/-- Over an array of references that nothing fails on and nobody else writes, the dump of its bytes
and the walk of every typed handle stop at the first gap. They lose every element behind it. -/
theorem walks_stop_at_gap {map : Descriptor} {slots : Array (Option Bytes)}
    {simulation : Simulation} (listed : map.kind ∈ [Kind.progArray, Kind.cgroupArray, Kind.devmap,
      Kind.xskmap, Kind.sockmap, Kind.arrayOfMaps]) (keySize : map.keySize = 4)
    (filled : slots.size = map.capacity.toNat)
    (sized : ∀ value, some value ∈ slots → value.length = map.valueSize)
    (serves : simulation.Serves (.references slots)) :
    simulation.store.contents 4 = some (occupied 0 slots.toList) ∧
      (∀ factor, StopsAtGap slots id (simulation.runWalk (Table.mk map factor).dumpBytes)) ∧
      (∀ family view, TypedMap.references family map = .ok view →
        StopsAtGap slots (fun entry => (Element.decode entry.1, Element.decode entry.2))
          (simulation.runWalk view.enumerate)) ∧
      ∀ (κ : Type) [Element κ] (view : TypedMap κ Int32), TypedMap.mapInMap κ map = .ok view →
        StopsAtGap slots (fun entry => (Element.decode entry.1, Element.decode entry.2))
          (simulation.runWalk view.enumerate) := by
  have plain : ∀ kind ∈ [Kind.progArray, Kind.cgroupArray, Kind.devmap, Kind.xskmap, Kind.sockmap,
      Kind.arrayOfMaps], kind.isKeyless = false ∧ kind.isPerCpu = false := by decide
  obtain ⟨keyed, shared⟩ := plain map.kind listed
  have bounded : slots.size ≤ wordRange 4 := filled ▸ Nat.le_of_lt map.capacity.toNat_lt
  have served : ServesSlots map slots simulation :=
    ⟨keySize, keyed, shared, bounded, sized, serves⟩
  refine ⟨?_, ?_, ?_, ?_⟩
  · rw [serves.store, contents_references]
  · intro factor
    exact (Table.readsSlots map slots).stopsAtGap served
  · intro family view made
    obtain ⟨⟨_, keys, values⟩, rfl⟩ := TypedMap.single_eq_ok.1 made
    exact (TypedMap.readsSlots slots _ _ (keys.symm.trans keySize) values.symm).stopsAtGap served
  · intro κ _ view made
    obtain ⟨⟨_, keys, values⟩, rfl⟩ := TypedMap.single_eq_ok.1 made
    exact (TypedMap.readsSlots slots _ _ (keys.symm.trans keySize) values.symm).stopsAtGap served

def programMap : Descriptor where
  name := "programs"
  kind := .progArray
  keySize := 4
  valueSize := 4
  capacity := 3
  fd := 5
  ownsFd := true
  cpuCount := 1
  keyCodec := .hex
  valueCodec := .hex

theorem full_slots_walked :
    programMap.kind ∈ [Kind.progArray, Kind.cgroupArray, Kind.devmap, Kind.xskmap, Kind.sockmap,
        Kind.arrayOfMaps] ∧
      StopsAtGap #[some [7, 0, 0, 0], some [8, 0, 0, 0], none] id
        ((Simulation.ofStore (.references #[some [7, 0, 0, 0], some [8, 0, 0, 0], none])).runWalk
          (Table.mk programMap 8).dumpBytes) := by
  have sized : ∀ value : Bytes, some value ∈ #[some [7, 0, 0, 0], some [8, 0, 0, 0], none] →
      value.length = programMap.valueSize := by
    intro value member
    simp only [List.mem_toArray, List.mem_cons, Option.some.injEq, List.not_mem_nil,
      reduceCtorEq, or_false] at member
    rcases member with rfl | rfl <;> rfl
  have listed : programMap.kind ∈ [Kind.progArray, Kind.cgroupArray, Kind.devmap, Kind.xskmap,
      Kind.sockmap, Kind.arrayOfMaps] := by decide
  exact ⟨listed, (walks_stop_at_gap listed rfl rfl sized ⟨rfl, rfl, rfl⟩).2.1 8⟩

theorem first_slot_empty_loses_element :
    (Store.references #[none, some [7, 0, 0, 0], none]).contents 4 =
        some [(wordBytes 4 1, [7, 0, 0, 0])] ∧
      ((Simulation.ofStore (.references #[none, some [7, 0, 0, 0], none])).runWalk
        (Table.mk programMap 8).dumpBytes).1 = .ok [] ∧
      (TypedMap.references .progArray programMap).map (fun view =>
        ((Simulation.ofStore (.references #[none, some [7, 0, 0, 0], none])).runWalk
          view.enumerate).1) = .ok (.ok []) := by
  exact ⟨rfl, rfl, rfl⟩

end KernelMaps
