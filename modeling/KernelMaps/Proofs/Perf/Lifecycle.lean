import KernelMaps.Codec.Hex
import KernelMaps.Perf.History
import KernelMaps.Proofs.Perf.Custody
import Mathlib.Data.List.Induction

/-!
Whole lives of perf buffers. Whatever is opened, drained, closed or dropped in whatever order, and
whatever fails meanwhile, the readers of a buffer stay in step with the rings, the watches and the
event array, and closing leaves nothing open.
-/

namespace KernelMaps.BufferLife

def holdings (map : Descriptor) : BufferLife → Holdings
  | alive buffer => buffer.holdings
  | ended host => ({ map, host } : PerfBuffer QueuedRing).holdings

def Announces (buffer : PerfBuffer QueuedRing) (error : MapError) : BufferEvent → Prop
  | .close => ((alive buffer).step .close).1 = .error error
  | .drop => ((alive buffer).step .drop).2.host.lines.head? =
      some (.warn s!"closing perf buffer '{buffer.map.name}': {error.message}")
  | _ => False

/-- Whether a run made known that an entry could not be removed from the event array. -/
def Reported (start : BufferLife) (events : List BufferEvent) (index : Nat) (entry : Bytes) :
    Prop :=
  ∃ before event after buffer reader errno failures,
    events = before ++ event :: after ∧ (start.run before).2 = alive buffer ∧
      reader ∈ buffer.readers ∧ reader.cpu.toNat = index ∧ wordBytes 4 reader.fd = entry ∧
      reader.removalFailure errno ∈ failures ∧
      Announces buffer (.closeFailed failures.length ("; ".intercalate failures)) event

theorem Reported.append {start : BufferLife} {events : List BufferEvent} {index : Nat}
    {entry : Bytes} (reported : start.Reported events index entry) (event : BufferEvent) :
    start.Reported (events ++ [event]) index entry := by
  obtain ⟨before, last, after, buffer, reader, errno, failures, rfl, facts⟩ := reported
  exact ⟨before, last, after ++ [event], buffer, reader, errno, failures, by simp, facts⟩

theorem run_append_singleton (life : BufferLife) (events : List BufferEvent) (event : BufferEvent) :
    (life.run (events ++ [event])).2 = ((life.run events).2.step event).2 := by
  induction events generalizing life with
  | nil => rfl
  | cons first rest ih => exact ih (life.step first).2

variable {map : Descriptor} {initial : Array (Option Bytes)} {reported : Nat → Bytes → Prop}

theorem atRing_holdings (life : BufferLife) (fd : Nat)
    (change : PerfHost QueuedRing → LiveRing QueuedRing → PerfHost QueuedRing)
    (kept : ∀ buffer : PerfBuffer QueuedRing, ∀ ring,
      { buffer with host := change buffer.host ring }.holdings = buffer.holdings) :
    (life.atRing fd change).2.holdings map = life.holdings map := by
  rw [atRing]
  split
  · rfl
  · next ring _ =>
      cases life with
      | alive buffer => exact kept buffer ring
      | ended host => exact kept { map, host } ring

theorem arrive_holdings (life : BufferLife) (fd : Nat) (delivery : Delivery) :
    (life.step (.arrive fd delivery)).2.holdings map = life.holdings map :=
  life.atRing_holdings fd _ fun buffer ring => buffer.setContent_holdings ring.fd _

theorem spoil_holdings (life : BufferLife) (fd count : Nat) (errno : Errno) :
    (life.step (.spoil fd count errno)).2.holdings map = life.holdings map :=
  life.atRing_holdings fd _ fun buffer ring => buffer.setContent_holdings ring.fd _

theorem awaitPoll_step_holdings (buffer : PerfBuffer QueuedRing) :
    ((alive buffer).step .awaitPoll).2.holdings map = buffer.holdings := by
  rw [← buffer.awaitPoll_holdings]
  simp only [step, operate]
  split
  · next outcome => rw [outcome, holdings]
  · next outcome => rw [outcome, holdings]

theorem ended_tended {buffer : PerfBuffer QueuedRing} (tended : buffer.holdings.Tended)
    (none : buffer.holdings.readers = []) : ((ended buffer.host).holdings map).Tended := by
  have books := tended.books
  rw [none] at books
  constructor
  · exact .nil
  · exact books.congr rfl rfl rfl rfl
  · exact fun _ => ⟨rfl, rfl⟩
  · exact fun _ watching => absurd watching (Option.some_ne_none _).symm

theorem drop_tended {buffer : PerfBuffer QueuedRing} (tended : buffer.holdings.Tended) :
    ((ended buffer.drop).holdings map).Tended := by
  by_cases opened : buffer.isOpen
  · obtain ⟨shut, none, -⟩ := PerfBuffer.close_tended tended
    rcases closing : buffer.close with ⟨failed | _, closed⟩
    · rw [closing] at shut none
      simp only [PerfBuffer.drop, opened, if_true, closing]
      exact ended_tended shut none
    · rw [closing] at shut none
      simp only [PerfBuffer.drop, opened, if_true, closing]
      exact ended_tended shut none
  · have unwatched : buffer.watched = none := by
      simpa [PerfBuffer.isOpen] using opened
    rw [PerfBuffer.drop, if_neg opened]
    exact ended_tended tended (tended.closed unwatched).1

theorem step_tended {life : BufferLife} (tended : (life.holdings map).Tended)
    (event : BufferEvent) : ((life.step event).2.holdings map).Tended := by
  cases life with
  | ended host =>
      cases event with
      | arrive fd delivery => rwa [arrive_holdings]
      | spoil fd count errno => rwa [spoil_holdings]
      | _ => exact tended
  | alive buffer =>
      cases event with
      | openOn cpus receiver options => exact PerfBuffer.openOn_tended tended cpus receiver options
      | openAll online receiver options =>
          exact PerfBuffer.openAll_tended tended online receiver options
      | poll =>
          show buffer.poll.2.holdings.Tended
          rwa [PerfBuffer.poll_holdings]
      | awaitPoll => rwa [awaitPoll_step_holdings]
      | consume =>
          show buffer.consume.2.holdings.Tended
          rwa [PerfBuffer.consume, PerfBuffer.drainEach_holdings]
      | close => exact (PerfBuffer.close_tended tended).1
      | drop => exact drop_tended tended
      | arrive fd delivery => rwa [arrive_holdings]
      | spoil fd count errno => rwa [spoil_holdings]

theorem run_tended {life : BufferLife} (tended : (life.holdings map).Tended)
    (events : List BufferEvent) : ((life.run events).2.holdings map).Tended := by
  induction events generalizing life with
  | nil => exact tended
  | cons event rest ih => exact ih (step_tended tended event)

theorem ended_sound {buffer : PerfBuffer QueuedRing} (keys : map.keySize = 4)
    (sound : buffer.holdings.Sound initial reported) (none : buffer.holdings.readers = []) :
    ((ended buffer.host).holdings map).Sound initial reported := by
  obtain ⟨slots, holds, entries⟩ := sound.entries
  rw [none] at entries
  exact (ended_tended sound.tended none).sound keys holds entries

theorem drop_sound {buffer : PerfBuffer QueuedRing} (keys : map.keySize = 4)
    (sound : buffer.holdings.Sound initial reported) {extended : Nat → Bytes → Prop}
    (kept : ∀ index entry, reported index entry → extended index entry)
    (added : ∀ reader ∈ buffer.readers, ∀ errno failures,
      reader.removalFailure errno ∈ failures →
      Announces buffer (.closeFailed failures.length ("; ".intercalate failures)) .drop →
      extended reader.cpu.toNat (wordBytes 4 reader.fd)) :
    ((ended buffer.drop).holdings map).Sound initial extended := by
  by_cases opened : buffer.isOpen
  · obtain ⟨failures, closed, closing, _, none, _, _, _, cleared⟩ :=
      PerfBuffer.close_sound sound
    cases failures with
    | nil =>
        have dropped : buffer.drop = closed.host := by
          simp only [PerfBuffer.drop, opened, if_true, closing, closingResult]
        rw [dropped]
        refine ended_sound keys (cleared extended kept ?_) none
        intro reader member errno listed
        exact absurd listed List.not_mem_nil
    | cons failure more =>
        obtain ⟨error, named⟩ : ∃ error, error = MapError.closeFailed (failure :: more).length
            ("; ".intercalate (failure :: more)) := ⟨_, rfl⟩
        have dropped : buffer.drop = closed.host.log
            (.warn s!"closing perf buffer '{buffer.map.name}': {error.message}") := by
          simp only [PerfBuffer.drop, opened, if_true, closing, closingResult, named]
        have logged : Announces buffer error .drop := by
          simp only [Announces, step, operate, host, dropped]
          rfl
        rw [dropped]
        refine ended_sound keys (cleared extended kept ?_) none
        intro reader member errno listed
        exact added reader member errno _ listed (named ▸ logged)
  · have unwatched : buffer.watched = none := by
      simpa [PerfBuffer.isOpen] using opened
    have dropped : buffer.drop = buffer.host := by
      rw [PerfBuffer.drop, if_neg opened]
    rw [dropped]
    exact ended_sound keys (sound.mono kept) (sound.closed unwatched).1

theorem close_step_sound {buffer : PerfBuffer QueuedRing}
    (sound : buffer.holdings.Sound initial reported) {extended : Nat → Bytes → Prop}
    (kept : ∀ index entry, reported index entry → extended index entry)
    (added : ∀ reader ∈ buffer.readers, ∀ errno failures,
      reader.removalFailure errno ∈ failures →
      Announces buffer (.closeFailed failures.length ("; ".intercalate failures)) .close →
      extended reader.cpu.toNat (wordBytes 4 reader.fd)) :
    (((alive buffer).step .close).2.holdings map).Sound initial extended := by
  obtain ⟨failures, closed, closing, _, _, _, _, _, cleared⟩ := PerfBuffer.close_sound sound
  have next : ((alive buffer).step .close).2 = alive closed := by
    simp only [step, operate, closing]
  rw [next]
  refine cleared extended kept fun reader member errno listed => ?_
  refine added reader member errno failures listed ?_
  simp only [Announces, step, operate, closing]
  cases failures with
  | nil => exact absurd listed List.not_mem_nil
  | cons failure more => rfl

theorem step_sound {life : BufferLife} (keys : map.keySize = 4)
    (sound : (life.holdings map).Sound initial reported) (event : BufferEvent)
    {extended : Nat → Bytes → Prop}
    (kept : ∀ index entry, reported index entry → extended index entry)
    (added : ∀ buffer, life = alive buffer → ∀ reader ∈ buffer.readers, ∀ errno failures,
      reader.removalFailure errno ∈ failures →
      Announces buffer (.closeFailed failures.length ("; ".intercalate failures)) event →
      extended reader.cpu.toNat (wordBytes 4 reader.fd)) :
    ((life.step event).2.holdings map).Sound initial extended := by
  have same := sound.mono kept
  cases life with
  | ended host =>
      cases event with
      | arrive fd delivery => rwa [arrive_holdings]
      | spoil fd count errno => rwa [spoil_holdings]
      | _ => exact same
  | alive buffer =>
      cases event with
      | openOn cpus receiver options => exact PerfBuffer.openOn_sound same cpus receiver options
      | openAll online receiver options =>
          exact PerfBuffer.openAll_sound same online receiver options
      | poll =>
          show buffer.poll.2.holdings.Sound initial extended
          rwa [PerfBuffer.poll_holdings]
      | awaitPoll => rwa [awaitPoll_step_holdings]
      | consume =>
          show buffer.consume.2.holdings.Sound initial extended
          rwa [PerfBuffer.consume, PerfBuffer.drainEach_holdings]
      | close => exact close_step_sound sound kept (added buffer rfl)
      | drop => exact drop_sound keys sound kept (added buffer rfl)
      | arrive fd delivery => rwa [arrive_holdings]
      | spoil fd count errno => rwa [spoil_holdings]

theorem run_sound {start : BufferLife} (keys : map.keySize = 4)
    (sound : (start.holdings map).Sound initial fun _ _ => False) (events : List BufferEvent) :
    ((start.run events).2.holdings map).Sound initial (start.Reported events) := by
  induction events using List.reverseRecOn with
  | nil => exact sound.mono fun _ _ never => never.elim
  | append_singleton events event ih =>
      rw [run_append_singleton]
      refine step_sound keys ih event ?_ ?_
      · intro index entry reported
        exact reported.append event
      · intro buffer alive reader member errno failures listed announced
        exact ⟨events, event, [], buffer, reader, errno, failures, rfl, alive, member, rfl, rfl,
          listed, announced⟩

theorem fresh_tended (map : Descriptor) (backend : Simulation)
    (plan : Nat → RingRequest → RingOutcome QueuedRing) :
    ((alive { map, host := { backend, plan } }).holdings map).Tended := by
  refine ⟨.nil, ?_, fun _ => ⟨rfl, rfl⟩, ?_⟩
  · exact ⟨.refl _, .nil, fun _ member => absurd member List.not_mem_nil, .refl _⟩
  · exact fun _ watching => absurd watching (Option.some_ne_none _).symm

theorem fresh_sound {map : Descriptor} {backend : Simulation}
    {plan : Nat → RingRequest → RingOutcome QueuedRing} {slots : Array (Option Bytes)}
    {buffer : PerfBuffer QueuedRing} (made : PerfBuffer.ofMap map { backend, plan } = .ok buffer)
    (holds : backend.HoldsSlots slots) :
    map.keySize = 4 ∧ ((alive buffer).holdings map).Sound slots fun _ _ => False := by
  obtain ⟨checked, rfl⟩ := PerfBuffer.ofMap_eq_ok.1 made
  have keys := (Descriptor.checkEvents_eq_ok.1 checked).2.1
  refine ⟨keys, (fresh_tended map backend plan).sound keys holds ?_⟩
  exact ⟨rfl, fun _ member => absurd member List.not_mem_nil, fun _ _ => .inl rfl⟩

/-- Over every life of a freshly made buffer its readers, rings, watches and slots stay in step. At
any time closing leaves nothing open, and the buffer can be opened again. -/
theorem life_stays_sound {map : Descriptor} {backend : Simulation}
    {plan : Nat → RingRequest → RingOutcome QueuedRing} {slots : Array (Option Bytes)}
    {buffer : PerfBuffer QueuedRing} (made : PerfBuffer.ofMap map { backend, plan } = .ok buffer)
    (holds : backend.HoldsSlots slots) (events : List BufferEvent) :
    (((alive buffer).run events).2.holdings map).Sound slots ((alive buffer).Reported events) ∧
      ∀ current, ((alive buffer).run events).2 = alive current →
        let closed := current.close.2
        closed.isOpen = false ∧ closed.readers = [] ∧ closed.receiver = none ∧
          closed.host.rings = [] ∧ closed.holdings.opened.Perm closed.holdings.dropped ∧
          closed.poll = (.ok 0, closed) ∧ closed.consume = (.ok 0, closed) ∧
          ∀ cpus receiver options table,
            (closed.openOn cpus receiver options).1 ≠ .error (.alreadyOpen table) := by
  obtain ⟨keys, fresh⟩ := fresh_sound made holds
  have sound := run_sound keys fresh events
  refine ⟨sound, fun current alive => ?_⟩
  rw [alive] at sound
  obtain ⟨failures, closed, closing, unwatched, none, silent, nothing, settled, _⟩ :=
    PerfBuffer.close_sound sound
  have shut : closed.isOpen = false := by rw [PerfBuffer.isOpen, unwatched]; rfl
  simp only [closing]
  refine ⟨shut, none, silent, nothing, settled, ?_, ?_, ?_⟩
  · rw [PerfBuffer.poll, none]
    rfl
  · rw [PerfBuffer.consume, PerfBuffer.cpus, none]
    rfl
  · intro cpus receiver options table
    exact PerfBuffer.openOn_ne_alreadyOpen shut none cpus receiver options table

def eventMap : Descriptor where
  name := "events"
  kind := .perfEventArray
  keySize := 4
  valueSize := 4
  capacity := 4
  fd := 5
  ownsFd := true
  cpuCount := 2
  keyCodec := .hex
  valueCodec := .hex

def stubbornArray : Simulation where
  store := .references #[none, none, none, some [8, 0, 0, 0]]
  faults := [.ofCalls .delete 1 1 .notPermitted]
  mapped := true
  journal := []

def stubbornBuffer : PerfBuffer QueuedRing :=
  { map := eventMap, host := { backend := stubbornArray, plan := fun _ _ => { content := .ok {} } } }

def stubbornEvents : List BufferEvent :=
  [.openOn [1, 0, 0] 1 {}, .poll, .close]

theorem stubborn_life_sound :
    PerfBuffer.ofMap eventMap
        { backend := stubbornArray, plan := fun _ _ => { content := .ok {} } } = .ok stubbornBuffer ∧
      stubbornArray.HoldsSlots #[none, none, none, some [8, 0, 0, 0]] ∧
      (((alive stubbornBuffer).run stubbornEvents).2.holdings eventMap).Sound
        #[none, none, none, some [8, 0, 0, 0]] ((alive stubbornBuffer).Reported stubbornEvents) ∧
      ((alive stubbornBuffer).run stubbornEvents).2.host.backend.store.contents 4 =
        some [(wordBytes 4 0, [7, 0, 0, 0]), (wordBytes 4 3, [8, 0, 0, 0])] := by
  have made : PerfBuffer.ofMap eventMap
      { backend := stubbornArray, plan := fun _ _ => { content := .ok {} } } =
        .ok stubbornBuffer := rfl
  have holds : stubbornArray.HoldsSlots #[none, none, none, some [8, 0, 0, 0]] := by
    refine ⟨rfl, ?_⟩
    intro fault member _
    rw [List.mem_singleton.1 member]
    decide
  exact ⟨made, holds, (life_stays_sound made holds stubbornEvents).1, by decide +kernel⟩

end KernelMaps.BufferLife
