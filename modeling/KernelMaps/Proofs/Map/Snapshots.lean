import KernelMaps.Proofs.Map.Enumeration

/-!
Snapshots of arrays. They count the indices up to the capacity, while an enumeration asks for one
key after the other and takes a missing element for the end. An array that no call fails on has no
missing elements, so that both come upon the same slots and stop at the first one that is refused.
-/

namespace KernelMaps

variable {ν α : Type} [Element α]

structure ServesArray (map : Descriptor) (slots : Array (Option Bytes)) (simulation : Simulation) :
    Prop where
  keySize : map.keySize = 4
  keyed : map.kind.isKeyless = false
  filled : slots.size = map.capacity.toNat
  serves : simulation.Serves (.array slots)

namespace TypedMap

/-- What a read of one slot comes to. An unset slot holds zeros, and bytes that do not fill the
buffer are refused. -/
def readSlot (view : TypedMap UInt32 ν) (slot : Option Bytes) : Except MapError ν :=
  let bytes := slot.getD (zeroed view.map.bufferSize)
  if bytes.length = view.map.bufferSize then view.content.unpack bytes
  else .error (.call .gettingValue (.system .invalid))

def numbered (first : Nat) (values : List ν) : List (UInt32 × ν) :=
  (values.zipIdx first).map fun (value, index) => (UInt32.ofNat index, value)

theorem numbered_cons (first : Nat) (value : ν) (values : List ν) :
    numbered first (value :: values) =
      (UInt32.ofNat first, value) :: numbered (first + 1) values := by
  simp [numbered]

theorem values_numbered (first : Nat) (values : List ν) :
    (numbered first values).map Prod.snd = values := by
  induction values generalizing first with
  | nil => rfl
  | cons value values ih => rw [numbered_cons, List.map_cons, ih]

theorem keys_numbered (first : Nat) (values : List ν) :
    (numbered first values).map Prod.fst =
      (List.range' first values.length).map UInt32.ofNat := by
  induction values generalizing first with
  | nil => rfl
  | cons value values ih =>
      rw [numbered_cons, List.map_cons, ih, List.length_cons, List.range'_succ, List.map_cons]

end TypedMap

theorem Store.handedOut_array {slots : Array (Option Bytes)} {index : Nat} {slot : Option Bytes}
    (room : Nat) (number : index < wordRange 4) (here : slots[index]? = some slot) :
    Descriptor.handedOut .gettingValue room
        ((array slots).lookup (some (wordBytes 4 index)) room) =
      if (slot.getD (zeroed room)).length = room then .ok (some (slot.getD (zeroed room)))
      else .error (.call .gettingValue (.system .invalid)) := by
  simp only [lookup, indexOf_wordBytes number, bind, Except.bind, here]
  cases slot with
  | none =>
      simp only [Option.getD_none, zeroed_length, if_true, pure, Except.pure, Descriptor.handedOut,
        fitted_of_length _ _ (zeroed_length room)]
  | some value =>
      simp only [Option.getD_some, copyTo]
      split
      · next fits => simp only [Descriptor.handedOut, fitted_of_length _ _ fits]
      · rfl

namespace ServesArray

variable {view : TypedMap UInt32 ν} {slots : Array (Option Bytes)} {simulation : Simulation}
  (served : ServesArray view.map slots simulation)
include served

theorem below_wordRange {index : Nat} (inside : index < slots.size) : index < wordRange 4 :=
  Nat.lt_trans (served.filled ▸ inside) view.map.capacity.toNat_lt

theorem encode_index {index : Nat} (inside : index < slots.size) :
    Element.encode (UInt32.ofNat index) = wordBytes 4 index :=
  congrArg (wordBytes 4) (UInt32.toNat_ofNat_of_lt' (served.below_wordRange inside))

theorem run_get {index : Nat} {slot : Option Bytes} (here : slots[index]? = some slot) :
    ∃ after, ServesArray view.map slots after ∧
      simulation.run (view.get (UInt32.ofNat index)) = (view.readSlot slot, after) := by
  have inside := (Array.getElem?_eq_some_iff.1 here).1
  have argument : view.map.keyArgument (wordBytes 4 index) = .ok (some (wordBytes 4 index)) :=
    Descriptor.keyArgument_of_keyed served.keyed
      ((wordBytes_length 4 index).trans served.keySize.symm)
  obtain ⟨after, answered, kept⟩ :=
    served.serves.answer (.lookup (some (wordBytes 4 index)) view.map.bufferSize)
  refine ⟨after, { served with serves := kept }, ?_⟩
  rw [TypedMap.get, served.encode_index inside, Simulation.run_bind, Simulation.run_lookup,
    argument]
  have handed := Store.handedOut_array view.map.bufferSize (served.below_wordRange inside) here
  simp only [answered, Store.answer, handed, TypedMap.readSlot]
  by_cases fits : (slot.getD (zeroed view.map.bufferSize)).length = view.map.bufferSize
  · simp only [fits, if_true, Simulation.run_liftM]
  · simp only [fits, if_false]

theorem run_valuesFrom {first : Nat} {rest : List (Option Bytes)}
    (remaining : slots.toList.drop first = rest) (before : List ν) :
    ∃ after, ServesArray view.map slots after ∧
      simulation.run (view.valuesFrom before first rest.length) =
        ((rest.mapM view.readSlot).map (before.reverse ++ ·), after) := by
  induction rest generalizing simulation first before with
  | nil =>
      refine ⟨simulation, served, ?_⟩
      have nothing : before.reverse ++ [] = before.reverse := List.append_nil _
      rw [List.mapM_nil, List.length_nil, TypedMap.valuesFrom, Simulation.run_pure]
      exact congrArg (fun values => (Except.ok values, simulation)) nothing.symm
  | cons slot rest ih =>
      obtain ⟨here, others⟩ := uncons_drop remaining
      rw [Array.getElem?_toList] at here
      obtain ⟨between, kept, got⟩ := served.run_get here
      simp only [List.length_cons, TypedMap.valuesFrom, Simulation.run_bind, got, List.mapM_cons]
      cases view.readSlot slot with
      | error error => exact ⟨between, kept, rfl⟩
      | ok value =>
          obtain ⟨after, last, ran⟩ := ih kept others (value :: before)
          refine ⟨after, last, ?_⟩
          simp only [ran]
          cases rest.mapM view.readSlot with
          | error error => rfl
          | ok values => simp [Except.map, bind, Except.bind, pure, Except.pure]

theorem run_visit (spares : ∀ bytes, view.content.unpack bytes ≠ .error .keyNotFound)
    {index : Nat} {slot : Option Bytes} (here : slots[index]? = some slot) :
    ∃ after, ServesArray view.map slots after ∧
      simulation.run (view.visit (wordBytes 4 index)) =
        ((view.readSlot slot).map fun value => some (UInt32.ofNat index, value), after) := by
  have inside := (Array.getElem?_eq_some_iff.1 here).1
  have number := ServesRows.decode_index (served.below_wordRange inside)
  obtain ⟨after, kept, got⟩ := served.run_get here
  refine ⟨after, kept, ?_⟩
  have key := readElement_of_length (α := UInt32) (wordBytes_length 4 index)
  simp only [TypedMap.visit, key, number, Simulation.run_bind, Simulation.run_liftM,
    Simulation.run_tryCatch, got]
  cases read : view.readSlot slot with
  | ok value => rfl
  | error error =>
      have present : error ≠ .keyNotFound := by
        rintro rfl
        simp only [TypedMap.readSlot] at read
        split at read
        · exact spares _ read
        · cases read
      cases error <;> first | rfl | contradiction

theorem next {index : Nat} (inside : index ≤ slots.size) :
    ∃ after, ServesArray view.map slots after ∧
      ((KeyWalk.before index).next view.map).run Simulation.answer simulation =
        ((KeyWalk.before index).given (if index < slots.size then some (wordBytes 4 index)
          else none), after) := by
  have bounded : slots.size ≤ wordRange 4 :=
    served.filled ▸ Nat.le_of_lt view.map.capacity.toNat_lt
  obtain ⟨after, kept, walked⟩ := served.serves.nextIndex (fun _ _ => rfl) served.keySize bounded
    inside
  exact ⟨after, { served with serves := kept }, walked⟩

theorem run_round (spares : ∀ bytes, view.content.unpack bytes ≠ .error .keyNotFound)
    {first : Nat} (inside : first ≤ slots.size) (before : List (UInt32 × ν)) :
    ∃ after, ServesArray view.map slots after ∧
      simulation.run (collectNext view.map view.visit (KeyWalk.before first, before)) =
        (match slots[first]? with
          | some slot => (view.readSlot slot).map fun value =>
              .inl (KeyWalk.before (first + 1), (UInt32.ofNat first, value) :: before)
          | none => .ok (.inr before.reverse), after) := by
  obtain ⟨between, going, walked⟩ := served.next inside
  cases here : slots[first]? with
  | none =>
      rw [if_neg (Nat.not_lt.2 (Array.getElem?_eq_none_iff.1 here))] at walked
      refine ⟨between, going, ?_⟩
      simp only [collectNext, Simulation.run_bind, Simulation.run_lift, walked, KeyWalk.given,
        Simulation.run_pure]
  | some slot =>
      rw [if_pos (Array.getElem?_eq_some_iff.1 here).1] at walked
      obtain ⟨after, kept, visited⟩ := going.run_visit spares here
      refine ⟨after, kept, ?_⟩
      simp only [collectNext, Simulation.run_bind, Simulation.run_lift, walked, KeyWalk.given,
        visited]
      cases view.readSlot slot with
      | error error => rfl
      | ok value => cases first <;> rfl

theorem run_rounds (spares : ∀ bytes, view.content.unpack bytes ≠ .error .keyNotFound)
    {first : Nat} {rest : List (Option Bytes)} (remaining : slots.toList.drop first = rest)
    (inside : first ≤ slots.size) (before : List (UInt32 × ν)) {budget : Nat}
    (enough : rest.length < budget) :
    ∃ after, ServesArray view.map slots after ∧
      simulation.run (Attempt.loop (collectNext view.map view.visit) budget
          (KeyWalk.before first, before)) =
        ((rest.mapM view.readSlot).map fun values =>
          some (before.reverse ++ TypedMap.numbered first values), after) := by
  induction rest generalizing simulation first before budget with
  | nil =>
      obtain ⟨budget, rfl⟩ := Nat.exists_eq_succ_of_ne_zero (Nat.ne_zero_of_lt enough)
      obtain ⟨after, kept, ran⟩ := served.run_round spares inside before
      have ended : slots[first]? = none := by
        rw [← Array.getElem?_toList]
        exact List.getElem?_eq_none (List.drop_eq_nil_iff.1 remaining)
      refine ⟨after, kept, ?_⟩
      rw [Simulation.run_loop_succ, ran, ended, List.mapM_nil]
      exact congrArg (fun values => (Except.ok (some values), after)) (List.append_nil _).symm
  | cons slot rest ih =>
      obtain ⟨budget, rfl⟩ := Nat.exists_eq_succ_of_ne_zero (Nat.ne_zero_of_lt enough)
      obtain ⟨here, others⟩ := uncons_drop remaining
      rw [Array.getElem?_toList] at here
      obtain ⟨between, going, ran⟩ := served.run_round spares inside before
      rw [Simulation.run_loop_succ, ran, here, List.mapM_cons]
      dsimp only
      cases view.readSlot slot with
      | error error => exact ⟨between, going, rfl⟩
      | ok value =>
          obtain ⟨after, last, looped⟩ := ih going others (Array.getElem?_eq_some_iff.1 here).1
            ((UInt32.ofNat first, value) :: before) (Nat.lt_of_succ_lt_succ enough)
          refine ⟨after, last, ?_⟩
          simp only [Except.map, looped, bind, Except.bind]
          cases rest.mapM view.readSlot with
          | error error => rfl
          | ok values =>
              simp [pure, Except.pure, TypedMap.numbered_cons]

theorem run_snapshot :
    ∃ after, ServesArray view.map slots after ∧
      simulation.run view.snapshot = (slots.toList.mapM view.readSlot, after) := by
  obtain ⟨after, kept, ran⟩ := served.run_valuesFrom List.drop_zero []
  refine ⟨after, kept, ?_⟩
  rw [TypedMap.snapshot, TypedMap.capacity, ← served.filled, ← Array.length_toList, ran]
  cases slots.toList.mapM view.readSlot <;> rfl

theorem run_enumerate (spares : ∀ bytes, view.content.unpack bytes ≠ .error .keyNotFound)
    {budget : Nat} (enough : view.capacity < budget) :
    ∃ after, ServesArray view.map slots after ∧
      simulation.run (view.enumerate budget) =
        ((slots.toList.mapM view.readSlot).map fun values =>
          some (TypedMap.numbered 0 values), after) := by
  rw [TypedMap.capacity, ← served.filled, ← Array.length_toList] at enough
  exact served.run_rounds spares List.drop_zero (Nat.zero_le _) [] enough

end ServesArray

/-- Whether a snapshot and an enumeration of an array come to the same: both read its slots in turn,
and they give the same values or fail alike. Neither changes the store. -/
structure SnapshotAgrees (view : TypedMap UInt32 ν) (slots : Array (Option Bytes))
    (simulation : Simulation) (budget : Nat) : Prop where
  succeeds : (∃ values, (simulation.run view.snapshot).1 = .ok values) ↔
    ∃ pairs, (simulation.run (view.enumerate budget)).1 = .ok (some pairs)
  elements : ∀ values pairs, (simulation.run view.snapshot).1 = .ok values →
    (simulation.run (view.enumerate budget)).1 = .ok (some pairs) →
      pairs.map Prod.snd = values ∧
        pairs.map Prod.fst = (List.range view.capacity).map UInt32.ofNat
  fails : ∀ error, (simulation.run view.snapshot).1 = .error error ↔
    (simulation.run (view.enumerate budget)).1 = .error error
  reads : (simulation.run view.snapshot).1 = slots.toList.mapM view.readSlot
  kept : (simulation.run view.snapshot).2.store = simulation.store ∧
    (simulation.run (view.enumerate budget)).2.store = simulation.store

theorem ServesArray.snapshotAgrees {view : TypedMap UInt32 ν} {slots : Array (Option Bytes)}
    {simulation : Simulation} (served : ServesArray view.map slots simulation)
    (spares : ∀ bytes, view.content.unpack bytes ≠ .error .keyNotFound) {budget : Nat}
    (enough : view.capacity < budget) : SnapshotAgrees view slots simulation budget := by
  obtain ⟨shot, shotKept, shown⟩ := served.run_snapshot
  obtain ⟨walked, walkKept, listed⟩ := served.run_enumerate spares enough
  constructor
  case succeeds =>
    rw [shown, listed]
    cases slots.toList.mapM view.readSlot with
    | error error => simp [Except.map]
    | ok values => simp [Except.map]
  case elements =>
    rw [shown, listed]
    intro values pairs read numbered
    dsimp only at read numbered
    rw [read] at numbered
    obtain rfl := Option.some.inj (Except.ok.inj numbered)
    have count : values.length = view.map.capacity.toNat :=
      (mapM_length read).trans (Array.length_toList.trans served.filled)
    refine ⟨TypedMap.values_numbered 0 values, ?_⟩
    rw [TypedMap.keys_numbered, count, ← List.range_eq_range', TypedMap.capacity]
  case fails =>
    rw [shown, listed]
    cases slots.toList.mapM view.readSlot with
    | error error => simp [Except.map]
    | ok values => simp [Except.map]
  case reads => rw [shown]
  case kept =>
    rw [shown, listed]
    exact ⟨shotKept.serves.store.trans served.serves.store.symm,
      walkKept.serves.store.trans served.serves.store.symm⟩

theorem readElement_spares (bytes : Bytes) : readElement α bytes ≠ .error .keyNotFound := by
  rw [readElement, checkLength]
  split
  · simp [Except.map]
  · simp [Except.map]

/-- Over an array that no call fails on, whatever is stored in it, a snapshot gives the values that
an enumeration gives, under all indices up to the capacity, or fails with the same error. -/
theorem snapshot_agrees_with_enumeration {map : Descriptor} {view : TypedMap UInt32 α}
    (made : TypedMap.array α map = .ok view) {slots : Array (Option Bytes)}
    (filled : slots.size = map.capacity.toNat) {simulation : Simulation}
    (serves : simulation.Serves (.array slots)) {budget : Nat} (enough : view.capacity < budget) :
    SnapshotAgrees view slots simulation budget := by
  obtain ⟨⟨kind, keySize, -⟩, rfl⟩ := TypedMap.single_eq_ok.1 made
  have keyed : ∀ kind ∈ Family.array.kinds, kind.isKeyless = false := by decide
  have served : ServesArray map slots simulation := ⟨keySize, keyed _ kind, filled, serves⟩
  exact ServesArray.snapshotAgrees served readElement_spares enough

def levelMap : Descriptor where
  name := "levels"
  kind := .array
  keySize := 4
  valueSize := 2
  capacity := 3
  fd := 6
  ownsFd := true
  cpuCount := 2
  keyCodec := .hex
  valueCodec := .hex

def tornLevels : Array (Option Bytes) :=
  #[some [7, 0], some [8, 0, 0], none]

theorem torn_levels_fail_alike :
    ∃ view : TypedMap UInt32 UInt16, TypedMap.array UInt16 levelMap = .ok view ∧
      tornLevels.size = levelMap.capacity.toNat ∧ view.capacity < 4 ∧
      SnapshotAgrees view tornLevels (.ofStore (.array tornLevels)) 4 ∧
      ((Simulation.ofStore (.array tornLevels)).run (view.enumerate 4)).1 =
        .error (.call .gettingValue (.system .invalid)) := by
  have made : TypedMap.array UInt16 levelMap = .ok
      ⟨levelMap, Content.single UInt16, .byFirstKey, _⟩ := rfl
  have agrees : SnapshotAgrees _ tornLevels (.ofStore (.array tornLevels)) 4 :=
    snapshot_agrees_with_enumeration made rfl ⟨rfl, rfl, rfl⟩ (by decide)
  exact ⟨_, made, rfl, by decide, agrees, (agrees.fails _).1 rfl⟩

end KernelMaps
