import KernelMaps.Map.Raw
import KernelMaps.Map.Simulation

/-!
What the calls of byte access come to on a map in memory: what is refused before anything is asked,
and what is made of a reply.
-/

namespace KernelMaps

@[simp] theorem Fault.pass_primitive (fault : Fault) (primitive : Primitive) :
    (fault.pass primitive).primitive = fault.primitive := by
  simp only [Fault.pass]
  split
  · rfl
  · split <;> rfl

@[simp] theorem Fault.pass_errno (fault : Fault) (primitive : Primitive) :
    (fault.pass primitive).errno = fault.errno := by
  simp only [Fault.pass]
  split
  · rfl
  · split <;> rfl

theorem Store.indexOf_eq_ok {key : Bytes} {index : Nat} :
    indexOf (some key) = .ok index ↔ key.length = 4 ∧ wordValue key = index := by
  simp only [indexOf]
  split
  · next word => simp only [word, true_and, Except.ok.injEq]
  · next other => simp only [other, false_and, reduceCtorEq]

theorem Store.delete_references (slots : Array (Option Bytes)) (key : Bytes) :
    (∃ errno, (references slots).delete key = .error errno ∧ (errno = .noEntry →
        ∃ index, indexOf (some key) = .ok index ∧ slots[index]? = some none)) ∨
      ∃ index, indexOf (some key) = .ok index ∧ index < slots.size ∧
        (references slots).delete key = .ok (references (slots.setIfInBounds index none)) := by
  simp only [delete]
  cases found : indexOf (some key) with
  | error errno =>
      left
      refine ⟨errno, rfl, ?_⟩
      rintro rfl
      rw [indexOf] at found
      split at found
      · contradiction
      · exact absurd (Except.error.inj found) (by decide)
  | ok index =>
      cases slot : slots[index]? with
      | none =>
          refine .inl ⟨.tooBig, ?_, fun absent => absurd absent (by decide)⟩
          simp only [bind, Except.bind, slot]
          rfl
      | some entry =>
          cases entry with
          | none =>
              refine .inl ⟨.noEntry, ?_, fun _ => ⟨index, rfl, slot⟩⟩
              simp only [bind, Except.bind, slot]
              rfl
          | some value =>
              obtain ⟨inside, _⟩ := Array.getElem?_eq_some_iff.1 slot
              refine .inr ⟨index, rfl, inside, ?_⟩
              simp only [bind, Except.bind, slot]
              rfl

def Request.operation : Request → Operation
  | lookup .. => .gettingValue
  | update .. => .updatingValue
  | delete .. => .deletingValue
  | take .. => .poppingValue
  | nextKey .. => .gettingNextKey

/-- What a call failed with. A missing element is a failure only where one was to be deleted or
written, and the end of the keys is none. -/
def Exchange.failure? : Exchange → Option MapError
  | ⟨_, .ok _⟩ => none
  | ⟨request, .error errno⟩ =>
      if errno ≠ .noEntry then some (.call request.operation (.system errno))
      else match request with
        | .lookup .. | .take .. | .nextKey .. => none
        | .update .. => some (.call .updatingValue (.system errno))
        | .delete .. => some .keyNotFound

@[simp] theorem Exchange.failure?_ok (request : Request) (bytes : Bytes) :
    (Exchange.mk request (.ok bytes)).failure? = none := rfl

@[simp] theorem Exchange.failure?_nextKey (key : Option Bytes) (room : Nat) (errno : Errno) :
    (Exchange.mk (.nextKey key room) (.error errno)).failure? =
      if errno = .noEntry then none else some (.call .gettingNextKey (.system errno)) := by
  simp only [failure?, Request.operation, ne_eq, ite_not]

@[simp] theorem Exchange.failure?_delete (key : Bytes) (errno : Errno) :
    (Exchange.mk (.delete key) (.error errno)).failure? =
      some (if errno = .noEntry then .keyNotFound
        else .call .deletingValue (.system errno)) := by
  simp only [failure?, Request.operation, ne_eq, ite_not]
  split <;> rfl

namespace Simulation

theorem run_lookup (simulation : Simulation) (map : Descriptor) (key : Bytes) :
    simulation.run (map.lookup key) =
      match map.keyArgument key with
      | .error error => (.error error, simulation)
      | .ok sent =>
          let (reply, after) := simulation.answer (.lookup sent map.bufferSize)
          (Descriptor.handedOut .gettingValue map.bufferSize reply, after) := by
  rw [Descriptor.lookup, run_bind, run_liftM]
  cases map.keyArgument key with
  | error error => rfl
  | ok sent => simp only [run_bind, run_perform, run_liftM]

theorem run_take (simulation : Simulation) (map : Descriptor) (key : Bytes) :
    simulation.run (map.take key) =
      match map.keyArgument key with
      | .error error => (.error error, simulation)
      | .ok sent =>
          let (reply, after) := simulation.answer (.take sent map.bufferSize)
          (Descriptor.handedOut .poppingValue map.bufferSize reply, after) := by
  rw [Descriptor.take, run_bind, run_liftM]
  cases map.keyArgument key with
  | error error => rfl
  | ok sent => simp only [run_bind, run_perform, run_liftM]

theorem run_stepKey (simulation : Simulation) (map : Descriptor) (key : Option Bytes) :
    simulation.run (map.stepKey key) =
      let (reply, after) := simulation.answer (.nextKey key map.keySize)
      (Descriptor.handedOut .gettingNextKey map.keySize reply, after) := by
  simp only [Descriptor.stepKey, run_bind, run_perform, run_liftM]

theorem run_nextKey (simulation : Simulation) (map : Descriptor) (key : Bytes) :
    simulation.run (map.nextKey key) =
      match map.checkKey key with
      | .error error => (.error error, simulation)
      | .ok _ => simulation.run (map.stepKey (some key)) := by
  rw [Descriptor.nextKey, run_bind, run_liftM]
  cases map.checkKey key <;> rfl

theorem run_update (simulation : Simulation) (map : Descriptor) (key value : Bytes)
    (flags : UInt64) :
    simulation.run (map.update key value flags) =
      match map.keyArgument key with
      | .error error => (.error error, simulation)
      | .ok sent =>
          if value.length ≠ map.bufferSize then
            (.error (.badValueSize map.bufferSize value.length), simulation)
          else
            match simulation.answer (.update sent value flags) with
            | (.ok _, after) => (.ok (), after)
            | (.error errno, after) => (.error (.call .updatingValue (.system errno)), after) := by
  rw [Descriptor.update, run_bind, run_liftM]
  cases map.keyArgument key with
  | error error => rfl
  | ok sent =>
      dsimp only
      by_cases fits : value.length = map.bufferSize
      · simp only [fits, ne_eq, not_true_eq_false, if_false, run_bind, run_perform]
        cases simulation.answer (.update sent value flags) with
        | mk reply after => cases reply <;> rfl
      · simp only [fits, ne_eq, not_false_eq_true, if_true]
        rfl

theorem run_delete (simulation : Simulation) (map : Descriptor) (key : Bytes) :
    simulation.run (map.delete key) =
      match map.checkKey key with
      | .error error => (.error error, simulation)
      | .ok _ =>
          match simulation.answer (.delete key) with
          | (.ok _, after) => (.ok (), after)
          | (.error errno, after) =>
              (.error (if errno = .noEntry then .keyNotFound
                else .call .deletingValue (.system errno)), after) := by
  rw [Descriptor.delete, run_bind, run_liftM]
  cases map.checkKey key with
  | error error => rfl
  | ok _ =>
      simp only [run_bind, run_perform]
      cases simulation.answer (.delete key) with
      | mk reply after =>
          cases reply with
          | ok _ => rfl
          | error errno =>
              dsimp only
              split <;> rfl

theorem exists_scheduled {simulation : Simulation} {request : Request} {reply : Reply}
    {store : Store} {fault : Fault}
    (member : fault ∈ (simulation.record request reply store).2.faults) :
    ∃ scheduled ∈ simulation.faults,
      scheduled.primitive = fault.primitive ∧ scheduled.errno = fault.errno := by
  obtain ⟨scheduled, present, rfl⟩ := List.mem_map.1 member
  exact ⟨scheduled, present, (Fault.pass_primitive ..).symm, (Fault.pass_errno ..).symm⟩

/-- What stands behind a descriptor that no call fails on. -/
structure Serves (simulation : Simulation) (store : Store) : Prop where
  store : simulation.store = store
  faults : simulation.faults = []
  mapped : simulation.mapped = true

theorem Serves.answer {simulation : Simulation} {store : Store}
    (serves : simulation.Serves store) (request : Request) :
    ∃ after, simulation.answer request = ((store.answer request).1, after) ∧
      after.Serves (store.answer request).2 := by
  obtain ⟨rfl, faults, mapped⟩ := serves
  simp only [Simulation.answer, mapped, faults, Bool.not_true, Bool.false_eq_true, if_false,
    List.find?_nil]
  exact ⟨_, rfl, rfl, by simp [faults], mapped⟩

theorem Serves.run_update {simulation : Simulation} {store : Store}
    (serves : simulation.Serves store) {map : Descriptor} {key value : Bytes}
    {sent : Option Bytes} (accepted : map.keyArgument key = .ok sent)
    (fills : value.length = map.bufferSize) (flags : UInt64) :
    ∃ after, match store.update sent value flags with
      | .ok changed => after.Serves changed ∧
          simulation.run (map.update key value flags) = (.ok (), after)
      | .error errno => after.Serves store ∧ simulation.run (map.update key value flags) =
          (.error (.call .updatingValue (.system errno)), after) := by
  obtain ⟨after, answered, kept⟩ := serves.answer (.update sent value flags)
  refine ⟨after, ?_⟩
  simp only [Simulation.run_update, accepted, fills, ne_eq, not_true_eq_false, if_false, answered]
  simp only [Store.answer] at kept ⊢
  cases updated : store.update sent value flags with
  | ok changed =>
      rw [updated] at kept
      exact ⟨kept, rfl⟩
  | error errno =>
      rw [updated] at kept
      exact ⟨kept, rfl⟩

theorem answer_of_mapped {simulation : Simulation} (mapped : simulation.mapped = true)
    (request : Request) :
    ∃ reply store, simulation.answer request = simulation.record request reply store ∧
      ((∃ fault ∈ simulation.faults, fault.primitive = request.primitive ∧
          reply = .error fault.errno ∧ store = simulation.store) ∨
        simulation.store.answer request = (reply, store)) := by
  simp only [answer, mapped, Bool.not_true, Bool.false_eq_true, if_false]
  split
  · next fault scheduled =>
      have refused := List.find?_some scheduled
      simp only [Fault.refuses, Bool.and_eq_true, decide_eq_true_eq] at refused
      exact ⟨_, _, rfl, .inl ⟨fault, List.mem_of_find?_eq_some scheduled, refused.1.1, rfl, rfl⟩⟩
  · exact ⟨_, _, rfl, .inr rfl⟩

end Simulation

end KernelMaps
