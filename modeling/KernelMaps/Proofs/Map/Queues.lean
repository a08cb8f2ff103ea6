import KernelMaps.Codec.Hex
import KernelMaps.Map.Sequence
import KernelMaps.Proofs.Map.Calls
import KernelMaps.Proofs.Refinement
import Mathlib.Data.List.Basic

/-!
Queues and stacks as sequences of at most so many elements. A push appends, and on a full sequence
it is refused or takes the place of the oldest element; which end the elements leave from is the
only difference between the two. What was there or came in is afterwards handed out, displaced or
still there, each once.
-/

namespace KernelMaps

inductive QueueCall (α : Type) where
  | push (value : α) (flags : UInt64)
  | pop
  | head

inductive QueueAnswer (α : Type) where
  | pushed
  | value (value : α)

namespace QueueCall

variable {α : Type}

def ask [Element α] (container : SequenceMap α) (call : QueueCall α) (simulation : Simulation) :
    Except MapError (QueueAnswer α) × Simulation :=
  match call with
  | push value flags =>
      Prod.map (Except.map fun _ => .pushed) id (simulation.run (container.push value flags))
  | pop => Prod.map (Except.map .value) id (simulation.run container.pop)
  | head => Prod.map (Except.map .value) id (simulation.run container.head)

def upcoming (newestFirst : Bool) (items : List α) : Option α :=
  if newestFirst then items.getLast? else items.head?

def remaining (newestFirst : Bool) (items : List α) : List α :=
  if newestFirst then items.dropLast else items.tail

def overwriting : UInt64 := 2

def answer (newestFirst : Bool) (limit : Nat) (call : QueueCall α) (items : List α) :
    Except MapError (QueueAnswer α) × List α :=
  match call with
  | push value flags =>
      if items.length < limit then (.ok .pushed, items ++ [value])
      else if flags &&& overwriting = 0 then
        (.error (.call .updatingValue (.system ⟨7⟩)), items)
      else (.ok .pushed, items.tail ++ [value])
  | pop =>
      match upcoming newestFirst items with
      | some value => (.ok (.value value), remaining newestFirst items)
      | none => (.error .empty, items)
  | head =>
      match upcoming newestFirst items with
      | some value => (.ok (.value value), items)
      | none => (.error .empty, items)

def entered (call : QueueCall α) (result : Except MapError (QueueAnswer α)) : List α :=
  match call, result with
  | push value _, .ok _ => [value]
  | _, _ => []

def handedOut (call : QueueCall α) (result : Except MapError (QueueAnswer α)) : List α :=
  match call, result with
  | pop, .ok (.value value) => [value]
  | _, _ => []

/-- The elements that make room: the oldest one, if a push overwrites. -/
def displaced (limit : Nat) (call : QueueCall α) (items : List α) : List α :=
  match call with
  | push _ flags =>
      if items.length < limit then []
      else if flags &&& overwriting = 0 then []
      else items.take 1
  | _ => []

def accepted (calls : List (QueueCall α)) (results : List (Except MapError (QueueAnswer α))) :
    List α :=
  (List.zipWith entered calls results).flatten

def released (calls : List (QueueCall α)) (results : List (Except MapError (QueueAnswer α))) :
    List α :=
  (List.zipWith handedOut calls results).flatten

def displacedBy (newestFirst : Bool) (limit : Nat) : List (QueueCall α) → List α → List α
  | [], _ => []
  | call :: calls, items =>
      call.displaced limit items ++
        displacedBy newestFirst limit calls (call.answer newestFirst limit items).2

theorem upcoming_eq_none (newestFirst : Bool) (items : List α) :
    upcoming newestFirst items = none ↔ items = [] := by
  cases newestFirst with
  | true => exact List.getLast?_eq_none_iff
  | false => exact List.head?_eq_none_iff

theorem answer_head_eq_pop (newestFirst : Bool) (limit : Nat) (items : List α) :
    (head.answer newestFirst limit items).1 = (pop.answer newestFirst limit items).1 := by
  rw [answer, answer]
  cases upcoming newestFirst items <;> rfl

theorem answer_pop_eq_empty {newestFirst : Bool} {limit : Nat} {items : List α} :
    (pop.answer newestFirst limit items).1 = .error .empty ↔ items = [] := by
  rw [← upcoming_eq_none newestFirst items, answer]
  cases upcoming newestFirst items with
  | none => simp
  | some value => simp

theorem perm_of_upcoming {newestFirst : Bool} {items : List α} {value : α}
    (next : upcoming newestFirst items = some value) :
    items.Perm (value :: remaining newestFirst items) := by
  cases newestFirst with
  | true =>
      have split : items.dropLast ++ [value] = items := List.dropLast_append_getLast? value next
      have swapped : (items.dropLast ++ [value]).Perm ([value] ++ items.dropLast) :=
        List.perm_append_comm
      rwa [split] at swapped
  | false =>
      cases items with
      | nil => contradiction
      | cons first rest =>
          obtain rfl := Option.some.inj next
          exact List.Perm.refl _

theorem answer_within {newestFirst : Bool} {limit : Nat} {items : List α} (positive : 1 ≤ limit)
    (within : items.length ≤ limit) (call : QueueCall α) :
    (call.answer newestFirst limit items).2.length ≤ limit := by
  cases call with
  | push value flags =>
      rw [answer]
      split
      · next room => rwa [List.length_append, List.length_singleton]
      · split
        · exact within
        · rw [List.length_append, List.length_singleton, List.length_tail]
          omega
  | pop =>
      rw [answer]
      split
      · next value next =>
          have lengths := (perm_of_upcoming next).length_eq
          rw [List.length_cons] at lengths
          dsimp only
          omega
      · exact within
  | head =>
      rw [answer]
      split <;> exact within

/-- One call: every element there was or that came in is handed out, displaced or still there. -/
theorem answer_perm (newestFirst : Bool) {limit : Nat} (positive : 1 ≤ limit)
    (call : QueueCall α) (items : List α) :
    (items ++ call.entered (call.answer newestFirst limit items).1).Perm
      (call.handedOut (call.answer newestFirst limit items).1 ++ call.displaced limit items ++
        (call.answer newestFirst limit items).2) := by
  cases call with
  | push value flags =>
      simp only [answer, displaced]
      split
      · exact List.Perm.refl _
      · next full =>
          split
          · exact List.Perm.of_eq (List.append_nil items)
          · cases items with
            | nil => exact absurd positive full
            | cons first rest => exact List.Perm.refl _
  | pop =>
      rw [answer]
      split
      · next value next =>
          simp only [entered, handedOut, displaced, List.append_nil]
          exact perm_of_upcoming next
      · exact List.Perm.of_eq (List.append_nil items)
  | head =>
      rw [answer]
      split <;> exact List.Perm.of_eq (List.append_nil items)

open scoped List in
theorem perm_trans {items arriving leaving lost between : List α}
    (first : (items ++ arriving).Perm (leaving ++ lost ++ between))
    {later leavingLater lostLater last : List α}
    (rest : (between ++ later).Perm (leavingLater ++ lostLater ++ last)) :
    (items ++ (arriving ++ later)).Perm
      (leaving ++ leavingLater ++ (lost ++ lostLater) ++ last) := by
  calc items ++ (arriving ++ later)
    _ = items ++ arriving ++ later := (List.append_assoc ..).symm
    _ ~ leaving ++ lost ++ between ++ later := first.append_right later
    _ = leaving ++ lost ++ (between ++ later) := List.append_assoc ..
    _ ~ leaving ++ lost ++ (leavingLater ++ lostLater ++ last) := rest.append_left _
    _ = leaving ++ (lost ++ (leavingLater ++ (lostLater ++ last))) := by
      simp only [List.append_assoc]
    _ ~ leaving ++ (leavingLater ++ (lost ++ (lostLater ++ last))) :=
      (List.perm_append_comm_assoc ..).append_left leaving
    _ = leaving ++ leavingLater ++ (lost ++ lostLater) ++ last := by
      simp only [List.append_assoc]

theorem runCalls_perm (newestFirst : Bool) {limit : Nat} (positive : 1 ≤ limit)
    (calls : List (QueueCall α)) (items : List α) :
    (items ++ accepted calls (runCalls (answer newestFirst limit) calls items).1).Perm
      (released calls (runCalls (answer newestFirst limit) calls items).1 ++
        displacedBy newestFirst limit calls items ++
          (runCalls (answer newestFirst limit) calls items).2) := by
  induction calls generalizing items with
  | nil => exact List.Perm.of_eq (List.append_nil items)
  | cons call calls ih =>
      exact perm_trans (answer_perm newestFirst positive call items)
        (ih (call.answer newestFirst limit items).2)

theorem upcoming_map [Element α] (newestFirst : Bool) (items : List α) :
    Store.next? newestFirst (items.map Element.encode) =
      (upcoming newestFirst items).map Element.encode := by
  cases newestFirst with
  | true => exact List.getLast?_map
  | false => exact List.head?_map

theorem remaining_map [Element α] (newestFirst : Bool) (items : List α) :
    Store.withoutNext newestFirst (items.map Element.encode) =
      (remaining newestFirst items).map Element.encode := by
  cases newestFirst with
  | true => exact (List.map_dropLast ..).symm
  | false => exact (List.map_tail ..).symm

end QueueCall

structure ServesSequence {α : Type} [Element α] (container : SequenceMap α) (items : List α)
    (simulation : Simulation) : Prop where
  keyless : container.map.kind.isKeyless = true
  room : container.map.bufferSize = Element.size α
  serves : simulation.Serves
    (.sequence container.isStack container.capacity (items.map Element.encode))

namespace ServesSequence

variable {α : Type} [Element α] {container : SequenceMap α} {items : List α}
  {simulation : Simulation}

theorem keyArgument (served : ServesSequence container items simulation) :
    container.map.keyArgument [] = .ok none :=
  Descriptor.keyArgument_of_keyless served.keyless

theorem handedOut_eq (served : ServesSequence container items simulation) (operation : Operation)
    (value : α) :
    Descriptor.handedOut operation container.map.bufferSize
      (Store.copyTo container.map.bufferSize (Element.encode value)) =
        .ok (some (Element.encode value)) := by
  have exact : (Element.encode value).length = container.map.bufferSize := by
    rw [Element.encode_length, served.room]
  rw [Store.copyTo, if_pos exact, Descriptor.handedOut, fitted_of_length _ _ exact]

theorem present_eq (value : α) :
    SequenceMap.present (some (Element.encode value)) = .ok value := by
  rw [SequenceMap.present, readElement_of_length (Element.encode_length value),
    Element.decode_encode]

theorem push (served : ServesSequence container items simulation) (value : α) (flags : UInt64) :
    let expected := (QueueCall.push value flags).answer container.isStack container.capacity items
    ((QueueCall.push value flags).ask container simulation).1 = expected.1 ∧
      ServesSequence container expected.2
        ((QueueCall.push value flags).ask container simulation).2 := by
  obtain ⟨after, answered, kept⟩ :=
    served.serves.answer (.update none (Element.encode value) flags)
  have exact : (Element.encode value).length = container.map.bufferSize := by
    rw [Element.encode_length, served.room]
  rw [QueueCall.ask, SequenceMap.push, Simulation.run_update, served.keyArgument]
  simp only [exact, ne_eq, not_true_eq_false, if_false, answered, QueueCall.answer]
  simp only [Store.answer, Store.update, Option.isSome_none, Bool.false_eq_true, if_false,
    Store.append, List.length_map] at kept ⊢
  by_cases room : items.length < container.capacity
  · simp only [if_pos room] at kept ⊢
    refine ⟨rfl, { served with serves := ?_ }⟩
    rw [List.map_append]
    exact kept
  · by_cases refused : flags &&& QueueCall.overwriting = 0
    · have same : flags &&& Store.replaceOnly = 0 := refused
      simp only [if_neg room, if_pos refused, if_pos same] at kept ⊢
      exact ⟨rfl, { served with serves := kept }⟩
    · have same : ¬flags &&& Store.replaceOnly = 0 := refused
      simp only [if_neg room, if_neg refused, if_neg same] at kept ⊢
      refine ⟨rfl, { served with serves := ?_ }⟩
      rw [List.map_append, List.map_tail]
      exact kept

theorem pop (served : ServesSequence container items simulation) :
    let expected := QueueCall.pop.answer container.isStack container.capacity items
    (QueueCall.pop.ask container simulation).1 = expected.1 ∧
      ServesSequence container expected.2 (QueueCall.pop.ask container simulation).2 := by
  obtain ⟨after, answered, kept⟩ := served.serves.answer (.take none container.map.bufferSize)
  rw [QueueCall.ask, SequenceMap.pop, Simulation.run_bind, Simulation.run_take, served.keyArgument]
  simp only [answered, QueueCall.answer]
  simp only [Store.answer, Store.take, QueueCall.upcoming_map, QueueCall.remaining_map] at kept ⊢
  cases next : QueueCall.upcoming container.isStack items with
  | none =>
      rw [next] at kept
      exact ⟨rfl, { served with serves := kept }⟩
  | some value =>
      rw [next] at kept
      simp only [Option.map_some, served.handedOut_eq, present_eq, Simulation.run_liftM]
      exact ⟨rfl, { served with serves := kept }⟩

theorem head (served : ServesSequence container items simulation) :
    let expected := QueueCall.head.answer container.isStack container.capacity items
    (QueueCall.head.ask container simulation).1 = expected.1 ∧
      ServesSequence container expected.2 (QueueCall.head.ask container simulation).2 := by
  obtain ⟨after, answered, kept⟩ := served.serves.answer (.lookup none container.map.bufferSize)
  rw [QueueCall.ask, SequenceMap.head, Simulation.run_bind, Simulation.run_lookup,
    served.keyArgument]
  simp only [answered, QueueCall.answer]
  simp only [Store.answer, Store.lookup, QueueCall.upcoming_map] at kept ⊢
  cases QueueCall.upcoming container.isStack items with
  | none => exact ⟨rfl, { served with serves := kept }⟩
  | some value =>
      simp only [Option.map_some, served.handedOut_eq, present_eq, Simulation.run_liftM]
      exact ⟨rfl, { served with serves := kept }⟩

theorem ask_agrees (served : ServesSequence container items simulation) (call : QueueCall α) :
    (call.ask container simulation).1 =
        (call.answer container.isStack container.capacity items).1 ∧
      ServesSequence container (call.answer container.isStack container.capacity items).2
        (call.ask container simulation).2 := by
  cases call with
  | push value flags => exact served.push value flags
  | pop => exact served.pop
  | head => exact served.head

end ServesSequence

theorem SequenceMap.ofMap_eq_ok {α : Type} [Element α] {map : Descriptor}
    {container : SequenceMap α} (made : SequenceMap.ofMap α map = .ok container) :
    container.map = map ∧ map.kind ∈ Family.queueStack.kinds ∧
      map.valueSize = Element.size α := by
  simp only [ofMap, bind_eq_ok, Descriptor.checkSingle_eq_ok, exists_and_left, exists_const] at made
  obtain ⟨⟨kind, _, value⟩, same⟩ := made
  exact ⟨congrArg SequenceMap.map (Except.ok.inj same).symm, kind, value⟩

/-- On every run over a sequence in memory, a queue or stack answers what a list of at most so many
elements answers that started alike. Its head is what the next pop gives, and both report that it
is empty exactly when it is. Every element that was there or was accepted is released, displaced by
an overwriting push or still there. -/
theorem queue_refines_bounded_sequence {α : Type} [Element α] {map : Descriptor}
    {container : SequenceMap α} {items : List Bytes} {simulation : Simulation}
    (made : SequenceMap.ofMap α map = .ok container) (positive : 1 ≤ map.capacity.toNat)
    (sized : ∀ item ∈ items, item.length = map.valueSize)
    (within : items.length ≤ map.capacity.toNat)
    (serves : simulation.Serves
      (.sequence (decide (map.kind = .stack)) map.capacity.toNat items)) :
    ∃ initial : List α, items = initial.map Element.encode ∧
      ∀ calls : List (QueueCall α),
        let limit := map.capacity.toNat
        let newestFirst := decide (map.kind = .stack)
        let run := runCalls (QueueCall.ask container) calls simulation
        let expected := runCalls (QueueCall.answer newestFirst limit) calls initial
        run.1 = expected.1 ∧ expected.2.length ≤ limit ∧
          run.2.Serves (.sequence newestFirst limit (expected.2.map Element.encode)) ∧
          (QueueCall.head.ask container run.2).1 = (QueueCall.pop.ask container run.2).1 ∧
          ((QueueCall.pop.ask container run.2).1 = .error .empty ↔ expected.2 = []) ∧
          (initial ++ QueueCall.accepted calls run.1).Perm
            (QueueCall.released calls run.1 ++
              QueueCall.displacedBy newestFirst limit calls initial ++ expected.2) := by
  obtain ⟨rfl, kind, values⟩ := SequenceMap.ofMap_eq_ok made
  have plain : ∀ kind ∈ Family.queueStack.kinds,
      kind.isKeyless = true ∧ kind.isPerCpu = false := by decide
  obtain ⟨keyless, shared⟩ := plain container.map.kind kind
  have room : container.map.bufferSize = Element.size α :=
    (Descriptor.bufferSize_of_single shared).trans values
  have read : items = (items.map (Element.decode (α := α))).map Element.encode := by
    rw [List.map_map]
    refine ((List.map_congr_left ?_).trans (List.map_id items)).symm
    intro item member
    exact Element.encode_decode item ((sized item member).trans values)
  refine ⟨items.map Element.decode, read, ?_⟩
  intro calls
  rw [read] at serves
  have start : (items.map (Element.decode (α := α))).length ≤ container.capacity := by
    rwa [List.length_map]
  obtain ⟨same, served, bound⟩ := runCalls_simulate
    (fun simulation items =>
      ServesSequence container items simulation ∧ items.length ≤ container.capacity)
    (fun call simulation items related =>
      have step := related.1.ask_agrees call
      ⟨step.1, step.2, QueueCall.answer_within positive related.2 call⟩)
    calls ⟨⟨keyless, room, serves⟩, start⟩
  refine ⟨same, bound, served.serves, ?_, ?_, ?_⟩
  · rw [served.head.1, served.pop.1, QueueCall.answer_head_eq_pop]
  · rw [served.pop.1, QueueCall.answer_pop_eq_empty]
    rfl
  · rw [same]
    exact QueueCall.runCalls_perm _ positive calls _

def returnStack : Descriptor where
  name := "returns"
  kind := .stack
  keySize := 0
  valueSize := 2
  capacity := 2
  fd := 4
  ownsFd := true
  cpuCount := 1
  keyCodec := .hex
  valueCodec := .hex

theorem full_stack_refines :
    1 ≤ returnStack.capacity.toNat ∧
    (∀ item ∈ [[1, 0], [2, 0]], (item : Bytes).length = returnStack.valueSize) ∧
    ∃ container : SequenceMap UInt16, SequenceMap.ofMap UInt16 returnStack = .ok container ∧
      ∃ initial : List UInt16, [[1, 0], [2, 0]] = initial.map Element.encode ∧
        (runCalls (QueueCall.ask container) [.push 3 0, .push 4 2, .head, .pop, .pop, .pop]
          (.ofStore (.sequence true 2 [[1, 0], [2, 0]]))).1 =
        (runCalls (QueueCall.answer true 2) [.push 3 0, .push 4 2, .head, .pop, .pop, .pop]
          initial).1 := by
  have positive : 1 ≤ returnStack.capacity.toNat := by decide
  have sized : ∀ item ∈ [[1, 0], [2, 0]], (item : Bytes).length = returnStack.valueSize := by
    decide
  have made : SequenceMap.ofMap UInt16 returnStack = .ok ⟨returnStack, _⟩ := rfl
  have serves : (Simulation.ofStore (.sequence true 2 [[1, 0], [2, 0]])).Serves
      (.sequence (decide (returnStack.kind = .stack)) returnStack.capacity.toNat
        [[1, 0], [2, 0]]) := ⟨rfl, rfl, rfl⟩
  obtain ⟨initial, shows, runs⟩ :=
    queue_refines_bounded_sequence made positive sized (Nat.le_refl 2) serves
  exact ⟨positive, sized, _, made, initial, shows, (runs _).1⟩

end KernelMaps
