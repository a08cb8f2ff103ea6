import KernelMaps.Perf.Buffer
import KernelMaps.Proofs.Map.Attempts
import KernelMaps.Proofs.Map.Calls

/-!
The slots of a perf event array under stores and removals that can fail. A store that succeeds sets
the one slot of its CPU, a removal that succeeds leaves that slot empty, and a failure of either
leaves all slots as they were.
-/

namespace KernelMaps

theorem Store.update_references (slots : Array (Option Bytes)) (key : Option Bytes)
    (value : Bytes) (flags : UInt64) :
    (∃ errno, (references slots).update key value flags = .error errno) ∨
      ∃ index, indexOf key = .ok index ∧ index < slots.size ∧
        (references slots).update key value flags =
          .ok (references (slots.setIfInBounds index (some value))) := by
  simp only [update]
  cases found : indexOf key with
  | error errno => exact .inl ⟨errno, rfl⟩
  | ok index =>
      by_cases outside : slots.size ≤ index
      · left
        refine ⟨.tooBig, ?_⟩
        simp only [bind, Except.bind, outside, if_true]
        rfl
      · right
        refine ⟨index, rfl, by omega, ?_⟩
        simp only [bind, Except.bind, outside, if_false]
        rfl

theorem Descriptor.checkEvents_eq_ok {map : Descriptor} :
    map.checkEvents = .ok () ↔
      map.kind ∈ Family.perfEventArray.kinds ∧ map.keySize = 4 ∧ map.valueSize = 4 := by
  simp only [checkEvents, bind_eq_ok, checkFamily_eq_ok, checkSize_eq_ok, exists_and_left,
    exists_const]

theorem PerfBuffer.ofMap_eq_ok {ρ : Type} {map : Descriptor} {host : PerfHost ρ}
    {buffer : PerfBuffer ρ} :
    PerfBuffer.ofMap map host = .ok buffer ↔ map.checkEvents = .ok () ∧ { map, host } = buffer := by
  rw [ofMap, bind_eq_ok]
  constructor
  · rintro ⟨_, checked, same⟩
    exact ⟨checked, Except.ok.inj same⟩
  · rintro ⟨checked, same⟩
    exact ⟨(), checked, congrArg _ same⟩

namespace Simulation

variable {simulation after : Simulation} {map : Descriptor} {cpu : Cpu} {fd : Nat}
  {result : Except MapError Unit}

theorem storeEvent_slots {slots : Array (Option Bytes)}
    (store : simulation.store = .references slots)
    (ran : simulation.run (map.storeEvent cpu fd) = (result, after)) :
    (∃ error, result = .error error ∧ after.store = .references slots) ∨
      result = .ok () ∧ cpu.toNat < slots.size ∧
        after.store = .references (slots.setIfInBounds cpu.toNat (some (wordBytes 4 fd))) := by
  rw [Descriptor.storeEvent, run_update, Descriptor.keyArgument] at ran
  split at ran
  · next error _ =>
      obtain ⟨rfl, rfl⟩ := Prod.mk.inj ran
      exact .inl ⟨error, rfl, store⟩
  · next sent argument =>
      split at ran
      · obtain ⟨rfl, rfl⟩ := Prod.mk.inj ran
        exact .inl ⟨_, rfl, store⟩
      · rcases simulation.answer_cases (.update sent (wordBytes 4 fd) 0) with
          ⟨errno, last, refused, kept⟩ | ⟨last, answered, changed⟩
        · rw [refused] at ran
          obtain ⟨rfl, rfl⟩ := Prod.mk.inj ran
          exact .inl ⟨_, rfl, kept.trans store⟩
        · rw [store] at answered changed
          rcases Store.update_references slots sent (wordBytes 4 fd) 0 with
            ⟨errno, failed⟩ | ⟨index, found, inside, set⟩
          · simp only [Store.answer, failed, Store.settle] at answered changed
            rw [answered] at ran
            obtain ⟨rfl, rfl⟩ := Prod.mk.inj ran
            exact .inl ⟨_, rfl, changed⟩
          · simp only [Store.answer, set, Store.settle] at answered changed
            rw [answered] at ran
            obtain ⟨rfl, rfl⟩ := Prod.mk.inj ran
            obtain rfl : index = cpu.toNat := by
              split at argument
              · contradiction
              · obtain rfl := Except.ok.inj argument
                split at found
                · exact absurd found (by simp [Store.indexOf])
                · rw [Store.indexOf_wordBytes cpu.toNat_lt] at found
                  exact (Except.ok.inj found).symm
            exact .inr ⟨rfl, inside, changed⟩

theorem storeEvent_asks (ran : simulation.run (map.storeEvent cpu fd) = (result, after)) :
    after = simulation ∨ ∃ request reply, simulation.answer request = (reply, after) := by
  rw [Descriptor.storeEvent, run_update] at ran
  split at ran
  · exact .inl (Prod.mk.inj ran).2.symm
  · next sent _ =>
      split at ran
      · exact .inl (Prod.mk.inj ran).2.symm
      · right
        rcases answered : simulation.answer (.update sent (wordBytes 4 fd) 0) with ⟨reply, last⟩
        rw [answered] at ran
        refine ⟨_, reply, answered.trans ?_⟩
        cases reply <;> rw [(Prod.mk.inj ran).2]

end Simulation

/-- An array of references with these slots. What makes its removals fail never passes for a slot
that is empty already. -/
structure Simulation.HoldsSlots (simulation : Simulation) (slots : Array (Option Bytes)) :
    Prop where
  store : simulation.store = .references slots
  truthful : ∀ fault ∈ simulation.faults, fault.primitive = .delete → fault.errno ≠ .noEntry

namespace Simulation.HoldsSlots

variable {simulation : Simulation} {slots : Array (Option Bytes)}

theorem record (holds : simulation.HoldsSlots slots) (request : Request) (reply : Reply)
    (after : Array (Option Bytes)) :
    (simulation.record request reply (.references after)).2.HoldsSlots after := by
  refine ⟨rfl, ?_⟩
  intro fault member removes
  obtain ⟨before, held, primitive, errno⟩ := exists_scheduled member
  rw [← errno]
  exact holds.truthful before held (primitive.trans removes)

theorem answer_cases (holds : simulation.HoldsSlots slots) (request : Request) :
    (∃ errno after, simulation.answer request = (.error errno, after) ∧ after.HoldsSlots slots ∧
        (request.primitive = .delete → errno ≠ .noEntry)) ∨
      simulation.answer request = simulation.record request
        ((Store.references slots).answer request).1 ((Store.references slots).answer request).2 := by
  rw [answer, holds.store]
  split
  · exact .inl ⟨.badFile, simulation, rfl, holds, fun _ => by decide⟩
  · split
    · next fault found =>
        have refused := List.find?_some found
        simp only [Fault.refuses, Bool.and_eq_true, decide_eq_true_eq] at refused
        refine .inl ⟨fault.errno, _, rfl, holds.record .., fun removes => ?_⟩
        exact holds.truthful fault (List.mem_of_find?_eq_some found) (refused.1.1.trans removes)
    · exact .inr rfl

theorem answer_truthful (holds : simulation.HoldsSlots slots) (request : Request) :
    ∀ fault ∈ (simulation.answer request).2.faults, fault.primitive = .delete →
      fault.errno ≠ .noEntry := by
  rw [answer]
  split
  · exact holds.truthful
  · split
    · next fault _ => exact (holds.record request (.error fault.errno) slots).truthful
    · exact (holds.record request (simulation.store.answer request).1 slots).truthful

theorem storeEvent (holds : simulation.HoldsSlots slots) (map : Descriptor) (cpu : Cpu)
    (fd : Nat) :
    (∃ error after, simulation.run (map.storeEvent cpu fd) = (.error error, after) ∧
        after.HoldsSlots slots) ∨
      ∃ after, simulation.run (map.storeEvent cpu fd) = (.ok (), after) ∧
        cpu.toNat < slots.size ∧
        after.HoldsSlots (slots.setIfInBounds cpu.toNat (some (wordBytes 4 fd))) := by
  rcases ran : simulation.run (map.storeEvent cpu fd) with ⟨result, after⟩
  have truthful : ∀ fault ∈ after.faults, fault.primitive = .delete → fault.errno ≠ .noEntry := by
    rcases storeEvent_asks ran with rfl | ⟨request, reply, answered⟩
    · exact holds.truthful
    · have kept := holds.answer_truthful request
      rwa [answered] at kept
  rcases storeEvent_slots holds.store ran with ⟨error, rfl, kept⟩ | ⟨rfl, inside, set⟩
  · exact .inl ⟨error, after, rfl, kept, truthful⟩
  · exact .inr ⟨after, rfl, inside, set, truthful⟩

theorem eraseEvent (holds : simulation.HoldsSlots slots) {map : Descriptor}
    (keySize : map.keySize = 4) (cpu : Cpu) :
    (∃ errno after, simulation.run (map.eraseEvent cpu) =
          (.error (.call .deletingValue (.system errno)), after) ∧ after.HoldsSlots slots) ∨
      ∃ after, simulation.run (map.eraseEvent cpu) = (.ok (), after) ∧ cpu.toNat < slots.size ∧
        after.HoldsSlots (slots.setIfInBounds cpu.toNat none) := by
  have index : Store.indexOf (some (wordBytes 4 cpu.toNat)) = .ok cpu.toNat :=
    Store.indexOf_wordBytes cpu.toNat_lt
  have checked : map.checkKey (wordBytes 4 cpu.toNat) = .ok () := by
    simp [Descriptor.checkKey, keySize]
  rw [Descriptor.eraseEvent, run_tryCatch, run_delete, checked]
  rcases holds.answer_cases (.delete (wordBytes 4 cpu.toNat)) with
    ⟨errno, after, refused, kept, truthful⟩ | answered
  · refine .inl ⟨errno, after, ?_, kept⟩
    simp only [refused, if_neg (truthful rfl)]
    rfl
  · rcases Store.delete_references slots (wordBytes 4 cpu.toNat) with
      ⟨errno, failed, absent⟩ | ⟨other, found, inside, removed⟩
    · simp only [Store.answer, failed, Store.settle] at answered
      have kept := holds.record (.delete (wordBytes 4 cpu.toNat)) (.error errno) slots
      by_cases gone : errno = .noEntry
      · obtain ⟨other, found, slot⟩ := absent gone
        obtain rfl := Except.ok.inj (index.symm.trans found)
        obtain ⟨inside, entry⟩ := Array.getElem?_eq_some_iff.1 slot
        have same : slots.setIfInBounds cpu.toNat none = slots := by
          rw [Array.setIfInBounds_def, dif_pos inside, ← entry, Array.set_getElem_self]
        rw [same]
        refine .inr ⟨_, ?_, inside, kept⟩
        rw [answered]
        simp only [Simulation.record, if_pos gone]
        rfl
      · refine .inl ⟨errno, _, ?_, kept⟩
        rw [answered]
        simp only [Simulation.record, if_neg gone]
        rfl
    · simp only [Store.answer, removed, Store.settle] at answered
      obtain rfl := Except.ok.inj (index.symm.trans found)
      exact .inr ⟨_, by rw [answered]; rfl, inside, holds.record ..⟩

end Simulation.HoldsSlots

end KernelMaps
