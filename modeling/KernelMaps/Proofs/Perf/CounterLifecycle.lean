import KernelMaps.Proofs.Perf.CounterCustody
import KernelMaps.Proofs.Perf.Lifecycle

/-!
Whole lives of counter arrays. Whatever is opened, closed or dropped in whatever order, and whatever
fails meanwhile, the counters stay in step with the slots of the event array and with the
descriptors that were granted, each of which is closed exactly once.
-/

namespace KernelMaps.CounterLife

def array (map : Descriptor) : CounterLife → CounterArray
  | alive array => array
  | ended host => { map, host }

/-- Whether an event on an array makes an error known: closing answers it, and dropping logs it. -/
def Announces (array : CounterArray) (error : MapError) : CounterEvent → Prop
  | .close => ((alive array).step .close).1 = some (.error error)
  | .drop => ((alive array).step .drop).2.host.lines.head? =
      some (.warn s!"closing perf event array '{array.map.name}': {error.message}")
  | _ => False

def Reported (start : CounterLife) (events : List CounterEvent) (index : Nat) (entry : Bytes) :
    Prop :=
  ∃ before event after array counter errno failures,
    events = before ++ event :: after ∧ (start.run before).2 = alive array ∧
      counter ∈ array.counters ∧ counter.cpu.toNat = index ∧ wordBytes 4 counter.fd = entry ∧
      counter.holder.removalFailure errno ∈ failures ∧
      Announces array (.closeFailed failures.length ("; ".intercalate failures)) event

theorem Reported.append {start : CounterLife} {events : List CounterEvent} {index : Nat}
    {entry : Bytes} (reported : start.Reported events index entry) (event : CounterEvent) :
    start.Reported (events ++ [event]) index entry := by
  obtain ⟨before, last, after, array, counter, errno, failures, rfl, facts⟩ := reported
  exact ⟨before, last, after ++ [event], array, counter, errno, failures, by simp, facts⟩

theorem run_append_singleton (life : CounterLife) (events : List CounterEvent)
    (event : CounterEvent) :
    (life.run (events ++ [event])).2 = ((life.run events).2.step event).2 := by
  induction events generalizing life with
  | nil => rfl
  | cons first rest ih => exact ih (life.step first).2

variable {map : Descriptor} {initial : Array (Option Bytes)}
  {reported extended : Nat → Bytes → Prop}

theorem ended_sound {array : CounterArray} (keys : map.keySize = 4)
    (sound : array.Sound initial reported) (none : array.counters = []) :
    ((ended array.host).array map).Sound initial reported := by
  obtain ⟨-, -, accounted, slots, holds, entries⟩ := sound
  rw [CounterArray.holders, none] at entries
  exact ⟨keys, .nil, accounted.congr none.symm rfl rfl rfl, slots, holds, entries⟩

theorem drop_sound {array : CounterArray} (keys : map.keySize = 4)
    (sound : array.Sound initial reported)
    (kept : ∀ index entry, reported index entry → extended index entry)
    (added : ∀ counter ∈ array.counters, ∀ errno failures,
      counter.holder.removalFailure errno ∈ failures →
      Announces array (.closeFailed failures.length ("; ".intercalate failures)) .drop →
      extended counter.cpu.toNat (wordBytes 4 counter.fd)) :
    ((ended array.drop).array map).Sound initial extended := by
  by_cases empty : array.counters = []
  · rw [CounterArray.drop, if_pos empty]
    exact ended_sound keys (sound.mono kept) empty
  · obtain ⟨failures, closed, closing, none, -, cleared⟩ := CounterArray.close_sound sound
    cases failures with
    | nil =>
        have dropped : array.drop = closed.host := by
          simp only [CounterArray.drop, empty, if_false, closing, closingResult]
        rw [dropped]
        refine ended_sound keys (cleared extended kept ?_) none
        intro counter member errno listed
        exact absurd listed List.not_mem_nil
    | cons failure more =>
        obtain ⟨error, named⟩ : ∃ error, error = MapError.closeFailed (failure :: more).length
            ("; ".intercalate (failure :: more)) := ⟨_, rfl⟩
        have dropped : array.drop = closed.host.log
            (.warn s!"closing perf event array '{array.map.name}': {error.message}") := by
          simp only [CounterArray.drop, empty, if_false, closing, closingResult, named]
        have logged : Announces array error .drop := by
          simp only [Announces, step, host, dropped]
          rfl
        have sound := cleared extended kept fun counter member errno listed =>
          added counter member errno _ listed (named ▸ logged)
        rw [dropped]
        exact ended_sound keys (sound.log _) none

theorem close_step_sound {array : CounterArray} (sound : array.Sound initial reported)
    (kept : ∀ index entry, reported index entry → extended index entry)
    (added : ∀ counter ∈ array.counters, ∀ errno failures,
      counter.holder.removalFailure errno ∈ failures →
      Announces array (.closeFailed failures.length ("; ".intercalate failures)) .close →
      extended counter.cpu.toNat (wordBytes 4 counter.fd)) :
    array.close.2.Sound initial extended := by
  obtain ⟨failures, closed, closing, -, -, cleared⟩ := CounterArray.close_sound sound
  rw [closing]
  refine cleared extended kept fun counter member errno listed => ?_
  refine added counter member errno failures listed ?_
  simp only [Announces, step, closing]
  cases failures with
  | nil => exact absurd listed List.not_mem_nil
  | cons failure more => rfl

theorem step_sound {life : CounterLife} (keys : map.keySize = 4)
    (sound : (life.array map).Sound initial reported) (event : CounterEvent)
    (kept : ∀ index entry, reported index entry → extended index entry)
    (added : ∀ array, life = alive array → ∀ counter ∈ array.counters, ∀ errno failures,
      counter.holder.removalFailure errno ∈ failures →
      Announces array (.closeFailed failures.length ("; ".intercalate failures)) event →
      extended counter.cpu.toNat (wordBytes 4 counter.fd)) :
    ((life.step event).2.array map).Sound initial extended := by
  have same := sound.mono kept
  cases life with
  | ended host => exact same
  | alive array =>
      cases event with
      | openOn cpus options => exact CounterArray.openOn_sound same cpus options
      | openAll online options => exact CounterArray.openAll_sound same online options
      | close => exact close_step_sound sound kept (added array rfl)
      | drop => exact drop_sound keys sound kept (added array rfl)

theorem run_sound {start : CounterLife} (keys : map.keySize = 4)
    (sound : (start.array map).Sound initial fun _ _ => False) (events : List CounterEvent) :
    ((start.run events).2.array map).Sound initial (start.Reported events) := by
  induction events using List.reverseRecOn with
  | nil => exact sound.mono fun _ _ never => never.elim
  | append_singleton events event ih =>
      rw [run_append_singleton]
      refine step_sound keys ih event ?_ ?_
      · intro index entry reported
        exact reported.append event
      · intro array alive counter member errno failures listed announced
        exact ⟨events, event, [], array, counter, errno, failures, rfl, alive, member, rfl, rfl,
          listed, announced⟩

theorem fresh_sound {backend : Simulation} {plan : Nat → CounterRequest → Except Errno Unit}
    {slots : Array (Option Bytes)} {array : CounterArray}
    (made : CounterArray.ofMap map { backend, plan } = .ok array)
    (holds : backend.HoldsSlots slots) :
    map.keySize = 4 ∧ array.Sound slots fun _ _ => False := by
  obtain ⟨checked, rfl⟩ := CounterArray.ofMap_eq_ok.1 made
  have keys := (Descriptor.checkEvents_eq_ok.1 checked).2.1
  refine ⟨keys, keys, .nil, ⟨rfl, .refl _, ?_⟩, slots, holds, rfl, ?_, fun _ _ => .inl rfl⟩
  · exact fun _ member => absurd member List.not_mem_nil
  · exact fun _ member => absurd member List.not_mem_nil

/-- Over every life of a freshly made array of counters its counters, the descriptors and the slots
stay in step. At any time opening ends on all CPUs or at the first one that fails, and is refused
as long as a counter is open; behind closing or dropping every descriptor is closed. -/
theorem counters_stay_sound {backend : Simulation}
    {plan : Nat → CounterRequest → Except Errno Unit} {slots : Array (Option Bytes)}
    {array : CounterArray} (made : CounterArray.ofMap map { backend, plan } = .ok array)
    (holds : backend.HoldsSlots slots) (events : List CounterEvent) :
    let life := ((alive array).run events).2
    (life.array map).Sound slots ((alive array).Reported events) ∧
      life.host.grantedFds.Nodup ∧
      (∀ host, life = ended host → host.closed.Perm host.grantedFds) ∧
      ∀ current, life = alive current →
        current.close.2.counters = [] ∧
        current.close.2.host.closed.Perm current.close.2.host.grantedFds ∧
        ∀ options cpus,
          (∀ online, CpuList.ofFile online = .ok cpus →
            current.openAll online options = current.openOn cpus options) ∧
          (current.counters ≠ [] →
            current.openOn cpus options = (.error (.alreadyOpen current.map.name), current)) ∧
          (current.counters = [] →
            (∀ table, (current.openOn cpus options).1 ≠ .error (.alreadyOpen table)) ∧
            OpeningEnds .counter (current.faultAt options) (current.OpenedOn options)
              (current.StoppedAt options) cpus (current.openOn cpus options)) := by
  obtain ⟨keys, fresh⟩ := fresh_sound made holds
  have sound := @run_sound map slots (alive array) keys fresh events
  refine ⟨sound, CounterHost.nodup_grantedFds _, ?_, ?_⟩
  · intro host gone
    rw [gone] at sound
    have balance := sound.accounted.closed
    rwa [CounterLife.array, List.map_nil, List.append_nil] at balance
  · intro current alive
    rw [alive] at sound
    obtain ⟨failures, closed, closing, none, settled, -⟩ :=
      @CounterArray.close_sound _ _ current sound
    rw [closing]
    refine ⟨none, settled, fun options cpus => ⟨?_, ?_, ?_⟩⟩
    · intro online read
      rw [CounterArray.openAll, read]
    · intro busy
      rw [CounterArray.openOn, if_pos busy]
    · intro idle
      have ends := @CounterArray.openOn_ends _ _ current options idle cpus
      exact ⟨ends.ne_alreadyOpen, ends⟩

open BufferLife (eventMap stubbornArray)

def stubbornCounters : CounterArray :=
  { map := eventMap, host := { backend := stubbornArray, plan := fun _ _ => .ok () } }

def stubbornEvents : List CounterEvent :=
  [.openOn [1, 0, 0] ⟨0, 0, -1⟩, .close, .openOn [2, 9, 1] ⟨0, 0, -1⟩, .drop]

theorem stubborn_counters_sound :
    CounterArray.ofMap eventMap { backend := stubbornArray, plan := fun _ _ => .ok () } =
        .ok stubbornCounters ∧
      stubbornArray.HoldsSlots #[none, none, none, some [8, 0, 0, 0]] ∧
      (((alive stubbornCounters).run stubbornEvents).2.array eventMap).Sound
        #[none, none, none, some [8, 0, 0, 0]] ((alive stubbornCounters).Reported stubbornEvents) ∧
      ((alive stubbornCounters).run stubbornEvents).2.host.closed = [6, 7, 3, 5, 4] ∧
      ((alive stubbornCounters).run stubbornEvents).2.host.backend.store.contents 4 =
        some [(wordBytes 4 0, [5, 0, 0, 0]), (wordBytes 4 3, [8, 0, 0, 0])] := by
  have made : CounterArray.ofMap eventMap
      { backend := stubbornArray, plan := fun _ _ => .ok () } = .ok stubbornCounters := rfl
  have holds : stubbornArray.HoldsSlots #[none, none, none, some [8, 0, 0, 0]] := by
    refine ⟨rfl, ?_⟩
    intro fault member _
    rw [List.mem_singleton.1 member]
    decide
  exact ⟨made, holds, (counters_stay_sound made holds stubbornEvents).1, by decide +kernel,
    by decide +kernel⟩

end KernelMaps.CounterLife
