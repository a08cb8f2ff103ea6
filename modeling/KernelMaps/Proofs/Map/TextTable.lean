import KernelMaps.Proofs.Codec.Room
import KernelMaps.Proofs.Map.OneCall
import KernelMaps.Proofs.Map.Walks

/-!
Text access to a hash in memory. Many texts can stand for one key; what is stored under one of them
is found under all of them, and under no other text.
-/

namespace KernelMaps

/-- A hash that no call fails on, under a table of single values with keys. Nothing is said of the
sizes of its entries. -/
structure ServesTexts (table : Table) (entries : OrderedMap) (simulation : Simulation) : Prop where
  keyed : table.map.kind.isKeyless = false
  single : table.map.kind.isPerCpu = false
  serves : simulation.Serves (.hash table.map.capacity.toNat entries)

namespace Table

variable {table : Table} {key : String} {simulation : Simulation}

theorem run_get_of_unread {error : MapError} (single : table.map.kind.isPerCpu = false)
    (unread : table.map.keyOfText key = .error error) :
    simulation.run (table.get key) = (.error error, simulation) := by
  rw [get, single, lookup, unread]
  rfl

theorem update_of_unread {value : String}
    (unread : ¬((∃ bytes, table.map.keyOfText key = .ok bytes) ∧
      ∃ data, table.map.valueOfText value = .ok data)) :
    ∃ error, (table.update key value).run = .done (.error error) := by
  rw [update]
  split
  · exact ⟨_, rfl⟩
  · cases readKey : table.map.keyOfText key with
    | error error => exact ⟨error, rfl⟩
    | ok bytes =>
        cases readValue : table.map.valueOfText value with
        | error error => exact ⟨error, rfl⟩
        | ok data => exact absurd ⟨⟨bytes, readKey⟩, data, readValue⟩ unread

end Table

namespace ServesTexts

variable {table : Table} {entries changed : OrderedMap} {simulation after : Simulation}
  {key value other : String} {bytes data : Bytes}

theorem keyArgument (served : ServesTexts table entries simulation)
    (read : table.map.keyOfText key = .ok bytes) :
    table.map.keyArgument bytes = .ok (some bytes) :=
  Descriptor.keyArgument_of_keyed served.keyed (Descriptor.keyOfText_length read)

theorem bufferSize (served : ServesTexts table entries simulation) :
    table.map.bufferSize = table.map.valueSize :=
  Descriptor.bufferSize_of_single served.single

theorem run_get (served : ServesTexts table entries simulation)
    (read : table.map.keyOfText key = .ok bytes) :
    (simulation.run (table.get key)).1 =
      match entries.get? bytes with
      | none => .error .keyNotFound
      | some value =>
          if value.length = table.map.valueSize then table.map.valueText table.factor value
          else .error (.call .gettingValue (.system .invalid)) := by
  obtain ⟨after, answered, -⟩ := served.serves.answer (.lookup (some bytes) table.map.valueSize)
  simp only [Table.get, served.single, Table.lookup, read, Bool.false_eq_true, if_false,
    Simulation.run_bind, Simulation.run_liftM, Simulation.run_lookup, served.keyArgument read,
    answered, Store.answer, Store.lookup, served.bufferSize, Store.copyTo]
  cases entries.get? bytes with
  | none => rfl
  | some value =>
      by_cases sized : value.length = table.map.valueSize
      · simp only [sized, if_true, Descriptor.handedOut, fitted_of_length _ _ sized]
        rfl
      · simp only [sized, if_false]
        rfl

theorem get_congr (served : ServesTexts table entries simulation)
    (later : ServesTexts table changed after)
    (same : ∀ found, found ≠ bytes → changed.get? found = entries.get? found)
    (differs : table.map.keyOfText other ≠ .ok bytes) :
    (after.run (table.get other)).1 = (simulation.run (table.get other)).1 := by
  cases read : table.map.keyOfText other with
  | error error =>
      rw [Table.run_get_of_unread served.single read, Table.run_get_of_unread served.single read]
  | ok found =>
      have apart : found ≠ bytes := by
        rintro rfl
        exact differs read
      rw [served.run_get read, later.run_get read, same found apart]

theorem update (served : ServesTexts table entries simulation)
    (room : entries.size < table.map.capacity.toNat) (readKey : table.map.keyOfText key = .ok bytes)
    (readValue : table.map.valueOfText value = .ok data) :
    ∃ after, ServesTexts table (entries.insert bytes data) after ∧
      simulation.run (table.update key value) = (.ok (), after) := by
  obtain ⟨after, answered, kept⟩ := served.serves.answer (.update (some bytes) data 0)
  have sized := Descriptor.valueOfText_length readValue
  have inserted : Store.updateHash table.map.capacity.toNat entries bytes data 0 =
      .ok (entries.insert bytes data) := by
    have plain : (0 : UInt64) ≠ Store.createOnly ∧ (0 : UInt64) ≠ Store.replaceOnly := by decide
    have notFull : ¬table.map.capacity.toNat ≤ entries.size := by omega
    simp only [Store.updateHash, plain.1, plain.2, notFull, false_and, and_false, if_false]
  have stored : Store.answer (.update (some bytes) data 0)
      (.hash table.map.capacity.toNat entries) =
        (.ok [], .hash table.map.capacity.toNat (entries.insert bytes data)) := by
    simp only [Store.answer, Store.update, inserted]
    rfl
  rw [stored] at answered kept
  refine ⟨after, ⟨served.keyed, served.single, kept⟩, ?_⟩
  simp only [Table.update, served.single, readKey, readValue, Bool.false_eq_true, if_false,
    Simulation.run_bind, Simulation.run_liftM, Simulation.run_update, served.keyArgument readKey,
    served.bufferSize, sized, ne_eq, not_true_eq_false, answered]

theorem remove (served : ServesTexts table entries simulation)
    (read : table.map.keyOfText key = .ok bytes) :
    ∃ after, if (entries.get? bytes).isSome then
        ServesTexts table (entries.erase bytes) after ∧
          simulation.run (table.remove key) = (.ok (), after)
      else simulation.run (table.remove key) = (.error .keyNotFound, after) := by
  obtain ⟨after, answered, kept⟩ := served.serves.answer (.delete bytes)
  refine ⟨after, ?_⟩
  have checked : table.map.checkKey bytes = .ok () :=
    Descriptor.checkKey_eq_ok.2 (Descriptor.keyOfText_length read)
  have run : simulation.run (table.remove key) = simulation.run (table.map.delete bytes) := by
    rw [Table.remove, read, Simulation.run_bind, Simulation.run_liftM]
  rw [run, Simulation.run_delete, checked]
  simp only [answered]
  simp only [Store.answer, Store.delete] at kept ⊢
  split
  · next present =>
      rw [if_pos present] at kept
      exact ⟨⟨served.keyed, served.single, kept⟩, rfl⟩
  · rfl

theorem get_after_update (served : ServesTexts table entries simulation)
    (factor : table.factor = Descriptor.textFactor)
    (values : Codec.Faithful table.map.valueCodec table.map.valueSize)
    (room : entries.size < table.map.capacity.toNat) (readKey : table.map.keyOfText key = .ok bytes)
    (readValue : table.map.valueOfText value = .ok data)
    (updated : simulation.run (table.update key value) = (.ok (), after)) :
    ∃ text, table.map.valueCodec.Writes data text ∧
      (Descriptor.RoomFits table.map.valueSize table.factor →
        table.map.valueText table.factor data = .ok text) ∧
      ∀ other,
        (table.map.keyOfText other = .ok bytes →
          (after.run (table.get other)).1 = table.map.valueText table.factor data) ∧
        (table.map.keyOfText other ≠ .ok bytes →
          (after.run (table.get other)).1 = (simulation.run (table.get other)).1) := by
  have sized := Descriptor.valueOfText_length readValue
  obtain ⟨text, written, -⟩ := values.restores data sized
  obtain ⟨last, later, ran⟩ := served.update room readKey readValue
  rw [updated] at ran
  obtain rfl := (Prod.mk.inj ran).2
  refine ⟨text, written, ?_, ?_⟩
  · intro fits
    exact Descriptor.valueText_of_writes (Nat.le_of_eq factor.symm) fits values sized written
  intro other
  constructor
  · intro same
    rw [later.run_get same, OrderedMap.get?_insert, if_pos rfl]
    exact if_pos sized
  · refine served.get_congr later ?_
    intro found apart
    rw [OrderedMap.get?_insert, if_neg apart.symm]

theorem get_after_remove (served : ServesTexts table entries simulation)
    (read : table.map.keyOfText key = .ok bytes)
    (removed : simulation.run (table.remove key) = (.ok (), after)) (other : String) :
    (table.map.keyOfText other = .ok bytes →
      (after.run (table.get other)).1 = .error .keyNotFound) ∧
    (table.map.keyOfText other ≠ .ok bytes →
      (after.run (table.get other)).1 = (simulation.run (table.get other)).1) := by
  obtain ⟨last, ran⟩ := served.remove read
  rw [removed] at ran
  split at ran
  · obtain ⟨later, ran⟩ := ran
    obtain rfl := (Prod.mk.inj ran).2
    constructor
    · intro same
      rw [later.run_get same, OrderedMap.get?_erase, if_pos rfl]
    · refine served.get_congr later ?_
      intro found apart
      rw [OrderedMap.get?_erase, if_neg apart.symm]
  · simp at ran

end ServesTexts

def gaugeMap : Descriptor where
  name := "gauges"
  kind := .hash
  keySize := 4
  valueSize := 2
  capacity := 2
  fd := 6
  ownsFd := true
  cpuCount := 1
  keyCodec := .integer false
  valueCodec := .integer true

def gauges : Table := ⟨gaugeMap, Descriptor.textFactor⟩

def oneGauge : OrderedMap :=
  OrderedMap.empty.insert [7, 0, 0, 0] [1, 0]

end KernelMaps
