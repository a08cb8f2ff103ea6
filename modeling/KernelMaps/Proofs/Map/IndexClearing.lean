import KernelMaps.Map.Table
import KernelMaps.Map.Typed
import KernelMaps.Proofs.Map.FirstKeyClearing
import KernelMaps.Stack.BuildId

/-!
Emptying a map by index. Every index below the capacity is deleted in turn, and one under which
nothing is found is passed over. Any other failure ends it, with everything from that index on as it
was; nothing else in the map is touched.
-/

namespace KernelMaps

theorem wordBytes_ne {width first second : Nat} (firstBelow : first < wordRange width)
    (secondBelow : second < wordRange width) (differ : first ≠ second) :
    wordBytes width first ≠ wordBytes width second := by
  intro same
  have values := congrArg wordValue same
  rw [wordValue_wordBytes, wordValue_wordBytes, Nat.mod_eq_of_lt firstBelow,
    Nat.mod_eq_of_lt secondBelow] at values
  exact differ values

namespace Store

def held? : Store → Bytes → Option Bytes
  | array slots, key | references slots, key =>
      if key.length = 4 then slots[wordValue key]?.join else none
  | hash _ entries, key => entries.get? key
  | sequence .., _ => none

theorem held?_setIfInBounds {slots : Array (Option Bytes)} {key : Bytes} (word : key.length = 4)
    (other : Bytes) :
    (references (slots.setIfInBounds (wordValue key) none)).held? other =
      if other = key then none else (references slots).held? other := by
  simp only [held?]
  by_cases same : other = key
  · subst same
    simp only [word, if_true, Array.getElem?_setIfInBounds_self]
    split <;> rfl
  · simp only [same, if_false]
    split
    · next size =>
        have differs : wordValue key ≠ wordValue other := by
          intro equal
          apply same
          rw [← wordBytes_wordValue other, ← wordBytes_wordValue key, size, word, equal]
        rw [Array.getElem?_setIfInBounds_ne differs]
    · rfl

theorem delete_cases (store : Store) (key : Bytes) :
    (∃ errno, store.delete key = .error errno ∧ (errno = .noEntry → store.held? key = none)) ∨
      ∃ changed, store.delete key = .ok changed ∧
        ∀ other, changed.held? other = if other = key then none else store.held? other := by
  cases store with
  | array slots => exact .inl ⟨.invalid, rfl, fun absent => absurd absent (by decide)⟩
  | sequence newestFirst capacity items =>
      exact .inl ⟨.invalid, rfl, fun absent => absurd absent (by decide)⟩
  | references slots =>
      rcases delete_references slots key with
        ⟨errno, refused, free⟩ | ⟨index, found, _, deleted⟩
      · refine .inl ⟨errno, refused, fun absent => ?_⟩
        obtain ⟨index, found, slot⟩ := free absent
        obtain ⟨word, rfl⟩ := indexOf_eq_ok.mp found
        simp only [held?, word, if_true, slot, Option.join_some]
      · obtain ⟨word, rfl⟩ := indexOf_eq_ok.mp found
        exact .inr ⟨_, deleted, held?_setIfInBounds word⟩
  | hash capacity entries =>
      rw [delete]
      split
      · refine .inr ⟨_, rfl, fun other => ?_⟩
        simp only [held?, OrderedMap.get?_erase, eq_comm]
      · next absent =>
          refine .inl ⟨.noEntry, rfl, fun _ => ?_⟩
          simpa [held?] using absent

end Store

/-- Whether a call ends a clearing by index. It does not if it only found nothing to delete. -/
def Exchange.Stops (exchange : Exchange) (error : MapError) : Prop :=
  exchange.failure? = some error ∧ error ≠ .keyNotFound

/-- Whether a schedule refuses deletions as if there was nothing to delete. -/
def FakesMissing (faults : List Fault) : Prop :=
  ∃ fault ∈ faults, fault.primitive = .delete ∧ fault.errno = .noEntry

/-- Deletions of a number of indices, from the first one on and up to a failure. -/
inductive Deletions (faked : Prop) : (first count : Nat) → Store → List Exchange →
    Except MapError Unit → Store → Prop where
  | finished (first : Nat) (store : Store) : Deletions faked first 0 store [] (.ok ()) store
  | stuck {first count : Nat} {store : Store} {errno : Errno} (failed : errno ≠ .noEntry) :
      Deletions faked first (count + 1) store [⟨.delete (wordBytes 4 first), .error errno⟩]
        (.error (.call .deletingValue (.system errno))) store
  | missed {first count : Nat} {store after : Store} {calls : List Exchange}
      {outcome : Except MapError Unit} (free : store.held? (wordBytes 4 first) = none ∨ faked)
      (others : Deletions faked (first + 1) count store calls outcome after) :
      Deletions faked first (count + 1) store
        (⟨.delete (wordBytes 4 first), .error .noEntry⟩ :: calls) outcome after
  | deleted {first count : Nat} {store changed after : Store} {calls : List Exchange}
      {outcome : Except MapError Unit} (gone : ∀ other, changed.held? other =
        if other = wordBytes 4 first then none else store.held? other)
      (others : Deletions faked (first + 1) count changed calls outcome after) :
      Deletions faked first (count + 1) store
        (⟨.delete (wordBytes 4 first), .ok []⟩ :: calls) outcome after

theorem Exchange.stops_iff {key : Bytes} {reply : Reply} {error : MapError} :
    (Exchange.mk (.delete key) reply).Stops error ↔
      ∃ errno, reply = .error errno ∧ errno ≠ .noEntry ∧
        error = .call .deletingValue (.system errno) := by
  cases reply with
  | ok bytes => simp [Stops]
  | error errno =>
      simp only [Stops, failure?_delete, Option.some.injEq, Except.error.injEq]
      constructor
      · rintro ⟨rfl, other⟩
        split at other
        · contradiction
        · next failed => exact ⟨errno, rfl, failed, if_neg failed⟩
      · rintro ⟨_, rfl, failed, rfl⟩
        exact ⟨if_neg failed, MapError.noConfusion⟩

def Exchange.Passes (exchange : Exchange) : Prop :=
  ∀ error, ¬exchange.Stops error

inductive Concluded (count : Nat) : List Exchange → Except MapError Unit → Prop where
  | all {calls : List Exchange} (whole : calls.length = count)
      (passes : ∀ call ∈ calls, call.Passes) : Concluded count calls (.ok ())
  | stopped {passed : List Exchange} {last : Exchange} {error : MapError}
      (passes : ∀ call ∈ passed, call.Passes) (stops : last.Stops error) :
      Concluded count (passed ++ [last]) (.error error)

theorem Concluded.cons {count : Nat} {call : Exchange} {calls : List Exchange}
    {outcome : Except MapError Unit} (concluded : Concluded count calls outcome)
    (passes : call.Passes) : Concluded (count + 1) (call :: calls) outcome := by
  cases concluded with
  | all whole others => exact .all (congrArg (· + 1) whole) (List.forall_mem_cons.mpr ⟨passes, others⟩)
  | stopped others stops => exact .stopped (List.forall_mem_cons.mpr ⟨passes, others⟩) stops

namespace Deletions

variable {faked : Prop} {first count : Nat} {store after : Store} {calls : List Exchange}
  {outcome : Except MapError Unit}

theorem asked (deletions : Deletions faked first count store calls outcome after) :
    calls.length ≤ count ∧ calls.map Exchange.request =
      (List.range' first calls.length).map fun index => .delete (wordBytes 4 index) := by
  induction deletions with
  | finished first store => exact ⟨Nat.le_refl 0, rfl⟩
  | stuck _ => exact ⟨by simp, rfl⟩
  | missed _ _ ih =>
      simp only [List.length_cons, List.map_cons, List.range'_succ, ih.2, and_true]
      omega
  | deleted _ _ ih =>
      simp only [List.length_cons, List.map_cons, List.range'_succ, ih.2, and_true]
      omega

theorem unaltered (deletions : Deletions faked first count store calls outcome after)
    {key value : Bytes} (held : after.held? key = some value) : store.held? key = some value := by
  induction deletions with
  | finished first store => exact held
  | stuck _ => exact held
  | missed _ _ ih => exact ih held
  | deleted gone _ ih =>
      have kept := ih held
      rw [gone] at kept
      split at kept
      · contradiction
      · exact kept

theorem stays_free (deletions : Deletions faked first count store calls outcome after)
    {key : Bytes} (free : store.held? key = none) : after.held? key = none := by
  cases held : after.held? key with
  | none => rfl
  | some value =>
      rw [deletions.unaltered held] at free
      contradiction

theorem kept (deletions : Deletions faked first count store calls outcome after) {key : Bytes}
    (spared : ∀ reply, ⟨.delete key, .ok reply⟩ ∉ calls) : after.held? key = store.held? key := by
  induction deletions with
  | finished first store => rfl
  | stuck _ => rfl
  | missed _ _ ih => exact ih fun reply member => spared reply (List.mem_cons_of_mem _ member)
  | @deleted first count store changed after calls outcome gone others ih =>
      have differs : key ≠ wordBytes 4 first := by
        rintro rfl
        exact spared [] List.mem_cons_self
      rw [ih fun reply member => spared reply (List.mem_cons_of_mem _ member), gone,
        if_neg differs]

theorem emptied (deletions : Deletions faked first count store calls outcome after)
    (ok : outcome = .ok ())
    (honest : ∀ key, ⟨.delete key, .error .noEntry⟩ ∈ calls → store.held? key = none)
    {index : Nat} (lower : first ≤ index) (upper : index < first + count) :
    after.held? (wordBytes 4 index) = none := by
  induction deletions with
  | finished first store => omega
  | stuck _ => contradiction
  | @missed first count store after calls outcome _ others ih =>
      by_cases here : index = first
      · subst here
        exact others.stays_free (honest _ List.mem_cons_self)
      · exact ih ok (fun key member => honest key (List.mem_cons_of_mem _ member)) (by omega)
          (by omega)
  | @deleted first count store changed after calls outcome gone others ih =>
      by_cases here : index = first
      · subst here
        exact others.stays_free (by rw [gone, if_pos rfl])
      · refine ih ok (fun key member => ?_) (by omega) (by omega)
        rw [gone, honest key (List.mem_cons_of_mem _ member), ite_self]

theorem concluded (deletions : Deletions faked first count store calls outcome after) :
    Concluded count calls outcome := by
  induction deletions with
  | finished first store => exact .all rfl (List.forall_mem_nil _)
  | @stuck first count store errno failed =>
      have stops : (Exchange.mk (.delete (wordBytes 4 first)) (.error errno)).Stops
          (.call .deletingValue (.system errno)) :=
        Exchange.stops_iff.mpr ⟨errno, rfl, failed, rfl⟩
      have alone : Concluded (count + 1) ([] ++ [_]) _ := .stopped (List.forall_mem_nil _) stops
      exact alone
  | missed _ _ ih =>
      refine ih.cons fun error stops => ?_
      obtain ⟨_, ⟨⟩, failed, _⟩ := Exchange.stops_iff.mp stops
      exact failed rfl
  | deleted _ _ ih =>
      refine ih.cons fun error stops => ?_
      obtain ⟨_, ⟨⟩, _⟩ := Exchange.stops_iff.mp stops

theorem honest (deletions : Deletions faked first count store calls outcome after)
    (truthful : ¬faked) (within : first + count ≤ wordRange 4) {key : Bytes}
    (missing : ⟨.delete key, .error .noEntry⟩ ∈ calls) : store.held? key = none := by
  induction deletions with
  | finished first store => cases missing
  | stuck failed =>
      rw [List.mem_singleton, Exchange.mk.injEq, Except.error.injEq] at missing
      exact absurd missing.2.symm failed
  | missed free _ ih =>
      rcases List.mem_cons.mp missing with same | later
      · obtain ⟨rfl⟩ := Request.delete.inj (Exchange.mk.inj same).1
        exact free.resolve_right truthful
      · exact ih (by omega) later
  | @deleted first count store changed after calls outcome gone others ih =>
      rcases List.mem_cons.mp missing with same | later
      · cases (Exchange.mk.inj same).2
      · have free := ih (by omega) later
        have named := List.mem_map_of_mem (f := Exchange.request) later
        rw [others.asked.2, List.mem_map] at named
        obtain ⟨index, inside, same⟩ := named
        obtain rfl := Request.delete.inj same
        rw [List.mem_range'_1] at inside
        have few := others.asked.1
        rw [gone, if_neg (wordBytes_ne (by omega) (by omega) (by omega))] at free
        exact free

end Deletions

def indexDeletions (count : Nat) : List Request :=
  (List.range count).map fun index => .delete (wordBytes 4 index)

/-- What the calls of a clearing by index say of its outcome, and what becomes of the map. -/
structure ClearedByIndex (capacity : Nat) (faults : List Fault) (before after : Store)
    (calls : List Exchange) (outcome : Except MapError Unit) : Prop where
  within : calls.length ≤ capacity
  asked : calls.map Exchange.request = indexDeletions calls.length
  concluded : Concluded capacity calls outcome
  emptied : outcome = .ok () →
    (∀ key, ⟨.delete key, .error .noEntry⟩ ∈ calls → before.held? key = none) →
      ∀ index < capacity, after.held? (wordBytes 4 index) = none
  honest : ¬FakesMissing faults →
    ∀ key, ⟨.delete key, .error .noEntry⟩ ∈ calls → before.held? key = none
  stopped : ∀ error, outcome = .error error → ∃ failing, calls.length = failing + 1 ∧
    ∀ index, failing ≤ index → index < wordRange 4 →
      after.held? (wordBytes 4 index) = before.held? (wordBytes 4 index)
  untouched : ∀ key, (∀ index < capacity, key ≠ wordBytes 4 index) →
    after.held? key = before.held? key
  unaltered : ∀ key value, after.held? key = some value → before.held? key = some value

theorem index_of_mem {calls : List Exchange} {count : Nat}
    (asked : calls.map Exchange.request = indexDeletions count) {key : Bytes} {reply : Reply}
    (member : ⟨.delete key, reply⟩ ∈ calls) : ∃ index < count, key = wordBytes 4 index := by
  have requested := List.mem_map_of_mem (f := Exchange.request) member
  rw [asked, indexDeletions, List.mem_map] at requested
  obtain ⟨index, inside, same⟩ := requested
  exact ⟨index, List.mem_range.mp inside, (Request.delete.inj same).symm⟩

theorem asked_of_concat {passed : List Exchange} {last : Exchange}
    (asked : (passed ++ [last]).map Exchange.request = indexDeletions (passed.length + 1)) :
    passed.map Exchange.request = indexDeletions passed.length := by
  rw [indexDeletions, List.map_append, List.range_succ, List.map_append] at asked
  exact (List.append_inj asked (by simp)).1

theorem Deletions.clearedByIndex {faults : List Fault} {capacity : Nat} {before after : Store}
    {calls : List Exchange} {outcome : Except MapError Unit}
    (deletions : Deletions (FakesMissing faults) 0 capacity before calls outcome after)
    (words : capacity ≤ wordRange 4) :
    ClearedByIndex capacity faults before after calls outcome := by
  obtain ⟨few, asked⟩ := deletions.asked
  rw [← List.range_eq_range', ← indexDeletions] at asked
  refine ⟨few, asked, deletions.concluded, ?_, ?_, ?_, ?_, fun _ _ => deletions.unaltered⟩
  · intro ok honest index below
    exact deletions.emptied ok honest (Nat.zero_le index) (by omega)
  · intro truthful key missing
    exact deletions.honest truthful (by omega) missing
  · rintro error rfl
    cases deletions.concluded with
    | @stopped passed last _ _ stops =>
        rw [List.length_append, List.length_singleton] at few asked ⊢
        refine ⟨passed.length, rfl, fun index above below => deletions.kept fun reply member => ?_⟩
        rcases List.mem_append.mp member with early | here
        · obtain ⟨other, inside, same⟩ := index_of_mem (asked_of_concat asked) early
          exact wordBytes_ne below (by omega) (by omega) same
        · obtain rfl := List.mem_singleton.mp here
          obtain ⟨_, ⟨⟩, _⟩ := Exchange.stops_iff.mp stops
  · intro key outside
    refine deletions.kept fun reply member => ?_
    obtain ⟨index, below, same⟩ := index_of_mem asked member
    exact outside index (by omega) same

namespace Simulation

variable {map : Descriptor} {simulation : Simulation}

theorem run_deletePresent (keys : map.keySize = 4) (index : Nat) :
    simulation.run (deletePresent map (wordBytes 4 index)) =
      match simulation.answer (.delete (wordBytes 4 index)) with
      | (.ok _, after) => (.ok (), after)
      | (.error errno, after) => (if errno = .noEntry then .ok ()
          else .error (.call .deletingValue (.system errno)), after) := by
  have checked : map.checkKey (wordBytes 4 index) = .ok () :=
    Descriptor.checkKey_eq_ok.2 ((wordBytes_length ..).trans keys.symm)
  rw [deletePresent, run_tryCatch, run_delete, checked]
  cases simulation.answer (.delete (wordBytes 4 index)) with
  | mk reply after =>
      cases reply with
      | ok bytes => rfl
      | error errno =>
          by_cases missing : errno = .noEntry
          · simp only [missing, if_true]
            rfl
          · simp only [missing, if_false]
            rfl

theorem fakesMissing_record {request : Request} {reply : Reply} {store : Store}
    (fakes : FakesMissing (simulation.record request reply store).2.faults) :
    FakesMissing simulation.faults := by
  obtain ⟨fault, member, deletes, missing⟩ := fakes
  obtain ⟨scheduled, present, primitive, errno⟩ := exists_scheduled member
  exact ⟨scheduled, present, primitive.trans deletes, errno.trans missing⟩

theorem answer_delete (mapped : simulation.mapped = true) (key : Bytes) :
    ∃ reply store, simulation.answer (.delete key) =
        simulation.record (.delete key) reply store ∧
      ((∃ errno, reply = .error errno ∧ store = simulation.store ∧ (errno = .noEntry →
          simulation.store.held? key = none ∨ FakesMissing simulation.faults)) ∨
        (reply = .ok [] ∧ ∀ other, store.held? other =
          if other = key then none else simulation.store.held? other)) := by
  obtain ⟨reply, store, answered, replied⟩ := answer_of_mapped mapped (.delete key)
  refine ⟨reply, store, answered, ?_⟩
  rcases replied with ⟨fault, scheduled, deletes, rfl, kept⟩ | replied
  · exact .inl ⟨fault.errno, rfl, kept, fun missing => .inr ⟨fault, scheduled, deletes, missing⟩⟩
  · rcases simulation.store.delete_cases key with ⟨errno, refused, free⟩ | ⟨changed, deleted, gone⟩
    · rw [Store.answer, refused] at replied
      obtain ⟨rfl, rfl⟩ := Prod.mk.inj replied
      exact .inl ⟨errno, rfl, rfl, fun missing => .inl (free missing)⟩
    · rw [Store.answer, deleted] at replied
      obtain ⟨rfl, rfl⟩ := Prod.mk.inj replied
      exact .inr ⟨rfl, gone⟩

theorem run_clearFrom (keys : map.keySize = 4) {faked : Prop} (first count : Nat)
    (mapped : simulation.mapped = true) (fakes : FakesMissing simulation.faults → faked) :
    ∃ calls outcome after, simulation.run (clearFrom map first count) = (outcome, after) ∧
      after.journal = calls.reverse ++ simulation.journal ∧
      Deletions faked first count simulation.store calls outcome after.store := by
  induction count generalizing first simulation with
  | zero => exact ⟨[], .ok (), simulation, rfl, rfl, .finished first simulation.store⟩
  | succ count ih =>
      obtain ⟨reply, store, answered, replied⟩ := answer_delete mapped (wordBytes 4 first)
      have facing : (simulation.record (.delete (wordBytes 4 first)) reply store).2.mapped = true :=
        mapped
      obtain ⟨calls, outcome, after, run, written, deletions⟩ :=
        ih (first + 1) facing fun later => fakes (fakesMissing_record later)
      have journal {exchange : Exchange} (same : exchange = ⟨.delete (wordBytes 4 first), reply⟩) :
          after.journal = (exchange :: calls).reverse ++ simulation.journal := by
        rw [written, same, List.reverse_cons, List.append_assoc]
        rfl
      rw [clearFrom, run_bind, run_deletePresent keys, answered]
      rcases replied with ⟨errno, rfl, rfl, free⟩ | ⟨rfl, gone⟩
      · by_cases missing : errno = .noEntry
        · subst missing
          exact ⟨_, outcome, after, run, journal rfl, .missed ((free rfl).imp_right fakes) deletions⟩
        · refine ⟨_, _, (simulation.record (.delete (wordBytes 4 first)) (.error errno)
            simulation.store).2, ?_, rfl, .stuck missing⟩
          simp only [missing, if_false, record]
      · exact ⟨_, outcome, after, run, journal rfl, .deleted gone deletions⟩

end Simulation

def ClearsByIndex (map : Descriptor) (simulation : Simulation)
    (result : Except MapError Unit × Simulation) : Prop :=
  ∃ calls, result.2.journal = calls.reverse ++ simulation.journal ∧
    ClearedByIndex map.capacity.toNat simulation.faults simulation.store result.2.store calls
      result.1

theorem clearIndices_clears {map : Descriptor} (keys : map.keySize = 4) {simulation : Simulation}
    (mapped : simulation.mapped = true) :
    ClearsByIndex map simulation (simulation.run (clearIndices map)) := by
  obtain ⟨calls, outcome, after, run, written, deletions⟩ :=
    Simulation.run_clearFrom keys 0 map.capacity.toNat mapped id
  have words : map.capacity.toNat ≤ wordRange 4 := Nat.le_of_lt map.capacity.toNat_lt
  rw [clearIndices, run]
  exact ⟨calls, written, deletions.clearedByIndex words⟩

def ViewClears (map : Descriptor) (simulation : Simulation)
    (clear : Nat → Attempt (Option Unit)) : Prop :=
  ∃ result, ClearsByIndex map simulation result ∧
    ∀ budget, simulation.run (clear budget) = (result.1.map some, result.2)

structure IndicesCleared (map : Descriptor) (simulation : Simulation) : Prop where
  references : ∀ (family : Family) (view : TypedMap UInt32 Int32),
    family ∈ [Family.progArray, .cgroupArray, .devmap, .xskmap, .sockmap] →
      TypedMap.references family map = .ok view → ViewClears map simulation view.clear
  mapInMap : ∀ (κ : Type) [Element κ] (view : TypedMap κ Int32), map.kind = .arrayOfMaps →
    TypedMap.mapInMap κ map = .ok view → ViewClears map simulation view.clear
  stackTraces : ∀ (σ χ : Type) (options : SymbolOptions) (symbolizer : Symbolizer σ χ)
    (table : StackTable σ χ), StackTable.ofMap map options symbolizer = .ok table →
      ClearsByIndex map simulation (simulation.run table.clear)
  buildIds : ∀ table : BuildIdTable, BuildIdTable.ofMap map = .ok table →
    ClearsByIndex map simulation (simulation.run table.clear)
  table : ∀ factor, map.kind ∈ Table.indexKinds →
    ViewClears map simulation (Table.clear ⟨map, factor⟩)

section

variable {map : Descriptor} (keys : map.keySize = 4) {simulation : Simulation}
  (mapped : simulation.mapped = true)
include keys mapped

theorem viewClears {clear : Nat → Attempt (Option Unit)}
    (byIndex : ∀ budget, clear budget = do clearIndices map; return some ()) :
    ViewClears map simulation clear := by
  refine ⟨_, clearIndices_clears keys mapped, fun budget => ?_⟩
  rw [byIndex, Simulation.run_bind]
  cases simulation.run (clearIndices map) with
  | mk outcome after => cases outcome <;> rfl

theorem viewClears_of_single {κ α : Type} [Element κ] [Element α] {family : Family}
    {clearing : Clearing} {summary : Descriptor → String} {view : TypedMap κ α}
    (byIndex : clearing = .byIndex)
    (made : TypedMap.single κ α family clearing summary map = .ok view) :
    ViewClears map simulation view.clear := by
  obtain ⟨_, rfl⟩ := TypedMap.single_eq_ok.1 made
  subst byIndex
  exact viewClears keys mapped fun _ => rfl

theorem Table.viewClears (factor : Nat) (listed : map.kind ∈ indexKinds) :
    ViewClears map simulation (Table.clear ⟨map, factor⟩) := by
  refine KernelMaps.viewClears keys mapped fun budget => ?_
  simp only [indexKinds, List.mem_cons, List.not_mem_nil, or_false] at listed
  rcases listed with kind | kind | kind | kind <;> simp only [clear, kind]

end

/-- A clearing by index deletes the indices below the capacity in turn. Nothing found is passed over,
and any other failure is the last call, with all from its index on as it was. What is left when it
succeeds stands under none of these indices, and nothing else is touched. -/
theorem clearing_deletes_indices (map : Descriptor) (simulation : Simulation)
    (keys : map.keySize = 4) (mapped : simulation.mapped = true) :
    IndicesCleared map simulation := by
  constructor
  case references =>
    intro family view _ made
    exact viewClears_of_single keys mapped rfl made
  case mapInMap =>
    intro κ _ view kind made
    exact viewClears_of_single keys mapped (if_pos kind) made
  case stackTraces =>
    intro σ χ options symbolizer table made
    rw [StackTable.ofMap, bind_eq_ok] at made
    obtain ⟨_, _, same⟩ := made
    obtain rfl := Except.ok.inj same
    exact clearIndices_clears keys mapped
  case buildIds =>
    intro table made
    rw [BuildIdTable.ofMap, bind_eq_ok] at made
    obtain ⟨_, _, same⟩ := made
    obtain rfl := Except.ok.inj same
    exact clearIndices_clears keys mapped
  case table =>
    intro factor listed
    exact Table.viewClears keys mapped factor listed

def crashStacks : Descriptor where
  name := "crashes"
  kind := .stackTrace
  keySize := 4
  valueSize := 32
  capacity := 4
  fd := 5
  ownsFd := true
  cpuCount := 2
  keyCodec := .hex
  valueCodec := .hex

def guardedStacks : Simulation where
  store := .hash 4 (((OrderedMap.empty.insert [0, 0, 0, 0] [7]).insert [2, 0, 0, 0] [8]).insert
    [9, 0, 0, 0] [6])
  faults := [.ofCalls .delete 3 1 .notPermitted]
  mapped := true
  journal := []

theorem guarded_stacks_stay :
    crashStacks.keySize = 4 ∧ guardedStacks.mapped = true ∧
    ∃ (table : BuildIdTable) (after : Simulation), BuildIdTable.ofMap crashStacks = .ok table ∧
      guardedStacks.run table.clear =
        (.error (.call .deletingValue (.system .notPermitted)), after) ∧
      after.store.held? [0, 0, 0, 0] = none ∧
      (∀ index, 2 ≤ index → index < wordRange 4 → after.store.held? (wordBytes 4 index) =
        guardedStacks.store.held? (wordBytes 4 index)) ∧
      after.store.held? [9, 0, 0, 0] = some [6] := by
  have made : BuildIdTable.ofMap crashStacks = .ok ⟨crashStacks, _⟩ := rfl
  have ran : guardedStacks.run (clearIndices crashStacks) =
      (.error (.call .deletingValue (.system .notPermitted)), _) := rfl
  obtain ⟨calls, written, cleared⟩ :=
    (clearing_deletes_indices crashStacks guardedStacks rfl rfl).buildIds _ made
  obtain ⟨failing, count, kept⟩ := cleared.stopped _ (congrArg Prod.fst ran)
  have three : calls.length = 3 := by
    have lengths := congrArg List.length written
    rw [List.length_append, List.length_reverse] at lengths
    exact lengths.symm
  have outside : ∀ index < crashStacks.capacity.toNat, [9, 0, 0, 0] ≠ wordBytes 4 index := by decide
  refine ⟨rfl, rfl, _, _, made, ran, rfl, fun index above below => kept index (by omega) below, ?_⟩
  exact cleared.untouched [9, 0, 0, 0] outside

end KernelMaps
