import KernelMaps.Proofs.Codec.Rendering
import KernelMaps.Proofs.Map.OneCall
import KernelMaps.Proofs.Map.SharedWalks
import KernelMaps.Proofs.Map.Slots

/-!
What a dump shows, a lookup confirms. The walk behind a dump never goes back, whichever store it is
over, so that it comes to no key twice. A key's text is read as the key again, and under that stands
what the dump came upon.
-/

namespace KernelMaps

namespace Store

/-- Whether every slot has an index of 32 bits. A capacity has no more bits than that, and no call
adds a slot. -/
def Addressable : Store → Prop
  | array slots | references slots => slots.size ≤ wordRange 4
  | hash .. | sequence .. => True

theorem addressable_empty (kind : Kind) (capacity : UInt32) :
    (empty kind capacity.toNat).Addressable := by
  have few : capacity.toNat ≤ wordRange 4 := Nat.le_of_lt capacity.toNat_lt
  cases kind <;> simp only [empty, Addressable, Array.size_replicate, few]

/-- The order in which a walk comes to keys. -/
def Precedes : Store → Bytes → Bytes → Prop
  | hash .., first, second => precedes first second = true
  | _, first, second => wordValue first < wordValue second

variable {store : Store}

theorem Addressable.seed (addressable : store.Addressable) (key value : Bytes) :
    (store.seed key value).Addressable := by
  cases store with
  | array slots => exact (Array.size_setIfInBounds ..).trans_le addressable
  | references slots => exact (Array.size_setIfInBounds ..).trans_le addressable
  | hash capacity entries => trivial
  | sequence newestFirst capacity items => trivial

theorem Addressable.update (addressable : store.Addressable) {key : Option Bytes} {value : Bytes}
    {flags : UInt64} {changed : Store} (updated : store.update key value flags = .ok changed) :
    changed.Addressable := by
  rcases update_cases updated with ⟨slots, index, -, -, ⟨rfl, rfl⟩ | ⟨rfl, rfl⟩⟩ |
    ⟨capacity, entries, here, -, rfl, rfl⟩ | ⟨newestFirst, capacity, items, longer, -, rfl, rfl⟩
  · exact (Array.size_setIfInBounds ..).trans_le addressable
  · exact (Array.size_setIfInBounds ..).trans_le addressable
  · trivial
  · trivial

theorem Addressable.delete (addressable : store.Addressable) {key : Bytes} {changed : Store}
    (deleted : store.delete key = .ok changed) : changed.Addressable := by
  cases store with
  | array slots => cases deleted
  | sequence newestFirst capacity items => cases deleted
  | references slots =>
      rcases delete_references slots key with ⟨errno, refused, _⟩ | ⟨index, _, _, removed⟩
      · rw [refused] at deleted
        contradiction
      · obtain rfl := Except.ok.inj (removed.symm.trans deleted)
        exact (Array.size_setIfInBounds ..).trans_le addressable
  | hash capacity entries =>
      rw [Store.delete] at deleted
      split at deleted
      · obtain rfl := Except.ok.inj deleted
        trivial
      · contradiction

theorem Addressable.answer (addressable : store.Addressable) (request : Request) :
    (store.answer request).2.Addressable := by
  have settled {result : Except Errno Store} (kept : ∀ changed, result = .ok changed →
      changed.Addressable) : (store.settle result).2.Addressable := by
    cases result with
    | ok changed => exact kept changed rfl
    | error errno => exact addressable
  cases request with
  | lookup key room => exact addressable
  | nextKey key room => exact addressable
  | update key value flags => exact settled fun _ updated => addressable.update updated
  | delete key => exact settled fun _ deleted => addressable.delete deleted
  | take key room =>
      cases store with
      | array slots => exact addressable
      | references slots => exact addressable
      | hash capacity entries =>
          simp only [Store.answer, take]
          repeat' split
          all_goals trivial
      | sequence newestFirst capacity items =>
          simp only [Store.answer, take]
          split <;> trivial

theorem Precedes.trans {first second third : Bytes} (lower : store.Precedes first second)
    (upper : store.Precedes second third) : store.Precedes first third := by
  cases store with
  | hash => exact precedes_trans lower upper
  | array => exact Nat.lt_trans lower upper
  | references => exact Nat.lt_trans lower upper
  | sequence => exact Nat.lt_trans lower upper

theorem Precedes.ne {first second : Bytes} (before : store.Precedes first second) :
    first ≠ second := by
  rintro rfl
  cases store with
  | hash => exact Bool.false_ne_true ((precedes_irrefl first).symm.trans before)
  | array => exact Nat.lt_irrefl _ before
  | references => exact Nat.lt_irrefl _ before
  | sequence => exact Nat.lt_irrefl _ before

theorem copyTo_eq_ok {room : Nat} {stored copied : Bytes} :
    copyTo room stored = .ok copied ↔ stored.length = room ∧ stored = copied := by
  rw [copyTo]
  split
  · next fits => simp only [fits, true_and, Except.ok.injEq]
  · next other => simp only [other, false_and, reduceCtorEq]

theorem nextIndex_eq_ok {count room : Nat} {current : Option Bytes} {next : Bytes}
    (found : nextIndex count current room = .ok next) :
    ∃ index < count, next = wordBytes 4 index ∧ next.length = room ∧
      ∀ key, current = some key → index = wordValue key + 1 := by
  have ends {index : Nat} (copied : (if index < count then copyTo room (wordBytes 4 index)
      else .error .noEntry) = .ok next) :
      index < count ∧ next = wordBytes 4 index ∧ next.length = room := by
    split at copied
    · next below =>
        obtain ⟨exact, rfl⟩ := copyTo_eq_ok.mp copied
        exact ⟨below, rfl, exact⟩
    · contradiction
  cases current with
  | none =>
      obtain ⟨below, same, exact⟩ := ends found
      exact ⟨0, below, same, exact, fun _ none => nomatch none⟩
  | some key =>
      cases read : indexOf (some key) with
      | error errno =>
          simp only [nextIndex, read] at found
          contradiction
      | ok index =>
          obtain ⟨_, rfl⟩ := indexOf_eq_ok.mp read
          simp only [nextIndex, read, Except.map, bind, Except.bind] at found
          obtain ⟨below, same, exact⟩ := ends found
          refine ⟨_, below, same, exact, ?_⟩
          rintro _ ⟨⟩
          rfl

theorem nextKey_length {current : Option Bytes} {next : Bytes} {room : Nat}
    (found : store.nextKey current room = .ok next) : next.length = room := by
  have indexed {count : Nat} (found : nextIndex count current room = .ok next) :
      next.length = room := by
    obtain ⟨_, _, _, exact, _⟩ := nextIndex_eq_ok found
    exact exact
  cases store with
  | array slots => exact indexed found
  | references slots => exact indexed found
  | sequence newestFirst capacity items => cases found
  | hash capacity entries =>
      rw [nextKey_hash] at found
      split at found
      · obtain ⟨exact, rfl⟩ := copyTo_eq_ok.mp found
        exact exact
      · contradiction

theorem nextKey_precedes (addressable : store.Addressable) {key next : Bytes} {room : Nat}
    (found : store.nextKey (some key) room = .ok next) : store.Precedes key next := by
  have indexed {count : Nat} (bounded : count ≤ wordRange 4)
      (found : nextIndex count (some key) room = .ok next) : wordValue key < wordValue next := by
    obtain ⟨index, below, rfl, _, behind⟩ := nextIndex_eq_ok found
    have after := behind key rfl
    rw [wordValue_wordBytes, Nat.mod_eq_of_lt (by omega)]
    omega
  cases store with
  | array slots => exact indexed addressable found
  | references slots => exact indexed addressable found
  | sequence newestFirst capacity items => cases found
  | hash capacity entries =>
      rw [nextKey_hash] at found
      split at found
      · next behind after =>
          obtain ⟨_, rfl⟩ := copyTo_eq_ok.mp found
          exact (OrderedMap.keyFrom?_eq_some after).1
      · contradiction

end Store

def Descriptor.lookupIn (map : Descriptor) (store : Store) (key : Bytes) :
    Except MapError (Option Bytes) :=
  match map.keyArgument key with
  | .error error => .error error
  | .ok sent => handedOut .gettingValue map.bufferSize (store.lookup sent map.bufferSize)

namespace Simulation

variable {simulation after : Simulation} {store : Store}

theorem Serves.run_lookup (serves : simulation.Serves store) (map : Descriptor) (key : Bytes) :
    ∃ after, after.Serves store ∧
      simulation.run (map.lookup key) = (map.lookupIn store key, after) := by
  rw [Simulation.run_lookup, Descriptor.lookupIn]
  cases map.keyArgument key with
  | error error => exact ⟨simulation, serves, rfl⟩
  | ok sent =>
      obtain ⟨after, answered, kept⟩ := serves.answer (.lookup sent map.bufferSize)
      refine ⟨after, kept, ?_⟩
      simp only [answered]
      rfl

theorem run_loop_keeps {σ α : Type} {step : σ → Attempt (σ ⊕ α)} {kept : Simulation → σ → Prop}
    {ends : Simulation → α → Prop}
    (goesOn : ∀ simulation state next after, kept simulation state →
      simulation.run (step state) = (.ok (.inl next), after) → kept after next)
    (stops : ∀ simulation state result after, kept simulation state →
      simulation.run (step state) = (.ok (.inr result), after) → ends after result)
    {state : σ} (holds : kept simulation state) {budget : Nat} {result : α}
    (ran : simulation.run (Attempt.loop step budget state) = (.ok (some result), after)) :
    ends after result := by
  induction budget generalizing simulation state with
  | zero => simp [Attempt.loop] at ran
  | succ budget ih =>
      rw [run_loop_succ] at ran
      split at ran
      · next next between round => exact ih (goesOn _ _ _ _ holds round) ran
      · next last between round =>
          simp only [Prod.mk.injEq, Except.ok.injEq, Option.some.injEq] at ran
          obtain ⟨rfl, rfl⟩ := ran
          exact stops _ _ _ _ holds round
      · simp at ran

end Simulation

/-- Where a dump stands: the elements that it came upon, the last one first, with the walk behind
that one. -/
structure Dumping (map : Descriptor) (store : Store) (simulation : Simulation)
    (state : KeyWalk × List (Bytes × Bytes)) : Prop where
  serves : simulation.Serves store
  going : state.1.finished = false
  current : state.1.current = state.2.head?.map Prod.fst
  stored : ∀ entry ∈ state.2, entry.1.length = map.keySize ∧
    map.lookupIn store entry.1 = .ok (some entry.2)
  descending : state.2.Pairwise fun later earlier => store.Precedes earlier.1 later.1

structure Dumped (map : Descriptor) (store : Store) (simulation : Simulation)
    (entries : List (Bytes × Bytes)) : Prop where
  serves : simulation.Serves store
  stored : ∀ entry ∈ entries, entry.1.length = map.keySize ∧
    map.lookupIn store entry.1 = .ok (some entry.2)
  ascending : entries.Pairwise fun earlier later => store.Precedes earlier.1 later.1

def Descriptor.element (map : Descriptor) (key : Bytes) : Attempt (Option (Bytes × Bytes)) := do
  match ← map.lookup key with
  | none => return none
  | some value => return some (key, value)

namespace Dumping

variable {map : Descriptor} {store : Store} {simulation after : Simulation}
  {state : KeyWalk × List (Bytes × Bytes)}

theorem start (map : Descriptor) (serves : simulation.Serves store) :
    Dumping map store simulation (.start, []) :=
  ⟨serves, rfl, rfl, List.forall_mem_nil _, List.Pairwise.nil⟩

theorem run_next (dumping : Dumping map store simulation state) :
    ∃ between, between.Serves store ∧
      (state.1.next map).run Simulation.answer simulation =
        (state.1.told (Descriptor.handedOut .gettingNextKey map.keySize
          (store.nextKey state.1.current map.keySize)), between) := by
  obtain ⟨between, answered, kept⟩ :=
    dumping.serves.answer (.nextKey state.1.current map.keySize)
  refine ⟨between, kept, ?_⟩
  have sized : ∀ key, state.1.current = some key → key.length = map.keySize := by
    intro key here
    rw [dumping.current, Option.map_eq_some_iff] at here
    obtain ⟨entry, last, rfl⟩ := here
    exact (dumping.stored entry (List.mem_of_head? last)).1
  have walked := KeyWalk.run_next_of_going dumping.going sized simulation
  have replied : Backend.answer (.nextKey state.1.current map.keySize) simulation =
      (store.nextKey state.1.current map.keySize, between) := answered
  rw [replied] at walked
  exact walked

theorem run_round (dumping : Dumping map store simulation state) :
    ∃ outcome after, simulation.run (collectNext map map.element state) = (outcome, after) ∧
      after.Serves store ∧
      ((∃ error, outcome = .error error) ∨ outcome = .ok (.inr state.2.reverse) ∨
        ∃ next value, store.nextKey state.1.current map.keySize = .ok next ∧
          map.lookupIn store next = .ok (some value) ∧
          outcome = .ok (.inl (⟨some next, false⟩, (next, value) :: state.2))) := by
  obtain ⟨between, kept, walked⟩ := dumping.run_next
  rw [collectNext, Simulation.run_bind, Simulation.run_lift, walked]
  cases found : store.nextKey state.1.current map.keySize with
  | error errno =>
      by_cases ended : errno = .noEntry
      · refine ⟨_, between, ?_, kept, .inr (.inl rfl)⟩
        simp only [Descriptor.handedOut, ended, if_true, KeyWalk.told, KeyWalk.given]
        rfl
      · refine ⟨_, between, ?_, kept, .inl ⟨.call .gettingNextKey (.system errno), rfl⟩⟩
        simp only [Descriptor.handedOut, ended, if_false, KeyWalk.told]
        rfl
  | ok next =>
      have exact := Store.nextKey_length found
      obtain ⟨after, served, looked⟩ := kept.run_lookup map next
      simp only [Descriptor.handedOut, fitted_of_length _ _ exact, KeyWalk.told, KeyWalk.given,
        Simulation.run_bind, Descriptor.element, looked]
      cases stored : map.lookupIn store next with
      | error error => exact ⟨_, after, rfl, served, .inl ⟨error, rfl⟩⟩
      | ok value =>
          cases value with
          | none => exact ⟨_, after, rfl, served, .inr (.inl rfl)⟩
          | some value =>
              refine ⟨_, after, rfl, served, .inr (.inr ⟨next, value, rfl, stored, ?_⟩)⟩
              rw [dumping.going]

theorem goesOn (addressable : store.Addressable) (dumping : Dumping map store simulation state)
    {next : KeyWalk × List (Bytes × Bytes)}
    (ran : simulation.run (collectNext map map.element state) = (.ok (.inl next), after)) :
    Dumping map store after next := by
  obtain ⟨outcome, last, round, served,
    ⟨error, rfl⟩ | rfl | ⟨key, value, found, stored, rfl⟩⟩ := dumping.run_round
  · simp [round] at ran
  · simp [round] at ran
  · simp only [round, Prod.mk.injEq, Except.ok.injEq, Sum.inl.injEq] at ran
    obtain ⟨rfl, rfl⟩ := ran
    refine ⟨served, rfl, rfl, ?_, ?_⟩
    · exact List.forall_mem_cons.mpr ⟨⟨Store.nextKey_length found, stored⟩, dumping.stored⟩
    · refine List.pairwise_cons.mpr ⟨?_, dumping.descending⟩
      intro earlier member
      obtain ⟨_, results⟩ := state
      cases results with
      | nil => cases member
      | cons last rest =>
          have current := dumping.current
          simp only [List.head?_cons, Option.map_some] at current found
          rw [current] at found
          have behind := Store.nextKey_precedes addressable found
          rcases List.mem_cons.mp member with rfl | older
          · exact behind
          · exact ((List.pairwise_cons.mp dumping.descending).1 earlier older).trans behind

theorem stops (dumping : Dumping map store simulation state) {entries : List (Bytes × Bytes)}
    (ran : simulation.run (collectNext map map.element state) = (.ok (.inr entries), after)) :
    Dumped map store after entries := by
  obtain ⟨outcome, last, round, served,
    ⟨error, rfl⟩ | rfl | ⟨key, value, found, stored, rfl⟩⟩ := dumping.run_round
  · simp [round] at ran
  · simp only [round, Prod.mk.injEq, Except.ok.injEq, Sum.inr.injEq] at ran
    obtain ⟨rfl, rfl⟩ := ran
    refine ⟨served, fun entry member => dumping.stored entry (List.mem_reverse.mp member), ?_⟩
    rw [List.pairwise_reverse]
    exact dumping.descending
  · simp [round] at ran

end Dumping

theorem Table.dumped_of_dumpBytes {table : Table} {store : Store} {simulation after : Simulation}
    (addressable : store.Addressable) (serves : simulation.Serves store) {budget : Nat}
    {entries : List (Bytes × Bytes)}
    (ran : simulation.run (table.dumpBytes budget) = (.ok (some entries), after)) :
    Dumped table.map store after entries :=
  Simulation.run_loop_keeps (fun _ _ _ _ dumping => dumping.goesOn addressable)
    (fun _ _ _ _ dumping => dumping.stops) (Dumping.start table.map serves) ran

theorem Dumped.nodup_keys {map : Descriptor} {store : Store} {simulation : Simulation}
    {entries : List (Bytes × Bytes)} (dumped : Dumped map store simulation entries) :
    (entries.map Prod.fst).Nodup := by
  rw [List.Nodup, List.pairwise_map]
  exact dumped.ascending.imp fun before => before.ne

namespace Descriptor

variable {map : Descriptor} {store : Store} {key value : Bytes}

theorem keyOfText_of_keyText (builtIn : Codec.BuiltIn map.keyCodec) {factor : Nat} {text : String}
    (shown : map.keyText factor key = .ok text) : map.keyOfText text = .ok key := by
  simp only [keyText, bind_eq_ok] at shown
  obtain ⟨_, checked, rendered⟩ := shown
  rw [keyOfText_eq_ok, ← checkKey_eq_ok.mp checked]
  rw [renderWith] at rendered
  cases written : map.keyCodec.render key (textRoom key.length factor) with
  | error error =>
      rw [written] at rendered
      contradiction
  | ok whole =>
      rw [written] at rendered
      obtain rfl := Except.ok.inj rendered
      exact Codec.parse_of_render builtIn written

theorem length_of_lookupIn (found : map.lookupIn store key = .ok (some value)) :
    value.length = map.bufferSize := by
  rw [lookupIn] at found
  split at found
  · contradiction
  · next sent _ =>
      cases reply : store.lookup sent map.bufferSize with
      | ok bytes =>
          simp only [reply, handedOut, Except.ok.injEq, Option.some.injEq] at found
          rw [← found, fitted_length]
      | error errno =>
          simp only [reply, handedOut] at found
          split at found <;> simp at found

end Descriptor

namespace Table

variable {table : Table} {store : Store} {simulation : Simulation} {key value : Bytes}
  {text : String}

theorem entryTexts_eq_ok {entry : Bytes × Bytes} {shown : String × String} :
    table.entryTexts entry = .ok shown ↔
      table.map.keyText table.factor entry.1 = .ok shown.1 ∧
        table.valueText entry.2 = .ok shown.2 := by
  simp only [entryTexts, bind_eq_ok, pure, Except.pure, Except.ok.injEq]
  constructor
  · rintro ⟨keyShown, key, valueShown, value, rfl⟩
    exact ⟨key, value⟩
  · rintro ⟨key, value⟩
    exact ⟨_, key, _, value, rfl⟩

theorem run_lookup (serves : simulation.Serves store) (read : table.map.keyOfText text = .ok key)
    (stored : table.map.lookupIn store key = .ok (some value)) :
    ∃ after, after.Serves store ∧ simulation.run (table.lookup text) = (.ok value, after) := by
  obtain ⟨after, kept, looked⟩ := serves.run_lookup table.map key
  refine ⟨after, kept, ?_⟩
  rw [lookup, read, Simulation.run_bind, Simulation.run_liftM]
  simp only [Simulation.run_bind, looked, stored]
  rfl

/-- One share for each CPU, in a value that a lookup came upon, as long as so many have room. -/
theorem length_shareTexts_iff (perCpu : table.map.kind.isPerCpu = true)
    (stored : table.map.lookupIn store key = .ok (some value)) {texts : List String}
    (shown : table.shareTexts value = .ok texts) :
    texts.length = table.map.cpus ↔ table.map.cpus * table.map.slotSize < bitRange 64 := by
  have size := (Descriptor.length_of_lookupIn stored).trans
    (Descriptor.bufferSize_of_perCpu perCpu)
  have count : texts.length = value.length / table.map.slotSize := by
    rw [shareTexts] at shown
    rw [mapM_length shown, shares, List.length_map, slots_length]
  rw [count, size]
  exact machineSize_div_eq_iff Descriptor.slotSize_pos

/-- What a lookup under a text shows of a value that stands under the text's key. -/
def Confirms (table : Table) (later : Simulation) (store : Store) (key shown : String) : Prop :=
  ∃ after, after.Serves store ∧
    if table.map.kind.isPerCpu then
      ∃ texts, later.run (table.getPerCpu key) = (.ok texts, after) ∧
        (texts.length = table.map.cpus ↔ table.map.cpus * table.map.slotSize < bitRange 64) ∧
        shown = "[ " ++ " ".intercalate texts ++ " ]"
    else later.run (table.get key) = (.ok shown, after)

theorem confirms_of_shown (serves : simulation.Serves store)
    (read : table.map.keyOfText text = .ok key)
    (stored : table.map.lookupIn store key = .ok (some value)) {shown : String}
    (showing : table.valueText value = .ok shown) :
    table.Confirms simulation store text shown := by
  obtain ⟨after, kept, looked⟩ := run_lookup serves read stored
  refine ⟨after, kept, ?_⟩
  by_cases perCpu : table.map.kind.isPerCpu = true
  · simp only [perCpu, if_true]
    simp only [valueText, perCpu, Bool.not_true, Bool.false_eq_true, if_false, bind_eq_ok] at showing
    obtain ⟨texts, shares, row⟩ := showing
    refine ⟨texts, ?_, length_shareTexts_iff perCpu stored shares, (Except.ok.inj row).symm⟩
    simp only [getPerCpu, perCpu, Bool.not_true, Bool.false_eq_true, if_false, Simulation.run_bind,
      looked, Simulation.run_liftM, shares]
  · rw [Bool.not_eq_true] at perCpu
    simp only [perCpu, Bool.false_eq_true, if_false]
    simp only [valueText, perCpu, Bool.not_false, if_true] at showing
    simp only [get, perCpu, Bool.false_eq_true, if_false, Simulation.run_bind, looked,
      Simulation.run_liftM, showing]

end Table

namespace Dumped

variable {table : Table} {store : Store} {simulation : Simulation}
  {stored : List (Bytes × Bytes)} {texts : List (String × String)}
  (dumped : Dumped table.map store simulation stored)
  (builtIn : Codec.BuiltIn table.map.keyCodec)
  (shown : List.Forall₂ (fun entry text => table.entryTexts entry = .ok text) stored texts)
include dumped builtIn shown

theorem nodup_texts : (texts.map Prod.fst).Nodup := by
  have keys : (stored.map Prod.fst).map Except.ok =
      (texts.map Prod.fst).map table.map.keyOfText := by
    rw [List.map_map, List.map_map, ← List.forall₂_eq_eq_eq, List.forall₂_map_left_iff,
      List.forall₂_map_right_iff]
    refine shown.imp fun entry text written => ?_
    exact (Descriptor.keyOfText_of_keyText builtIn (Table.entryTexts_eq_ok.mp written).1).symm
  apply List.Nodup.of_map table.map.keyOfText
  rw [← keys]
  exact dumped.nodup_keys.map fun _ _ same => Except.ok.inj same

theorem confirms {later : Simulation} (serves : later.Serves store) {text : String × String}
    (member : text ∈ texts) : table.Confirms later store text.1 text.2 := by
  obtain ⟨index, inside, rfl⟩ := List.getElem_of_mem member
  have below : index < stored.length := by rwa [shown.length_eq]
  obtain ⟨key, value⟩ := Table.entryTexts_eq_ok.mp (shown.get below inside)
  exact Table.confirms_of_shown serves (Descriptor.keyOfText_of_keyText builtIn key)
    (dumped.stored _ (List.getElem_mem below)).2 value

end Dumped

def queueLengths : Descriptor where
  name := "queue_lengths"
  kind := .percpuHash
  keySize := 2
  valueSize := 4
  capacity := 4
  fd := 3
  ownsFd := true
  cpuCount := 2
  keyCodec := .integer false
  valueCodec := .fields [⟨true, 2⟩, ⟨false, 2⟩]

def lengthTable : Table := ⟨queueLengths, Descriptor.textFactor⟩

def twoQueues : Store :=
  ((Store.empty queueLengths.kind queueLengths.capacity.toNat).seed [0, 1]
    [1, 0, 2, 0, 0, 0, 0, 0, 255, 255, 3, 0, 0, 0, 0, 0]).seed [7, 0] (zeroed 16)

def wrappedStore : Store :=
  (Store.empty .percpuHash 2).seed [1, 0, 0, 0] [7, 0, 0, 0, 0, 0, 0, 0]

def wrappedTable : Table := ⟨Descriptor.wrappedShares, Descriptor.textFactor⟩

end KernelMaps
