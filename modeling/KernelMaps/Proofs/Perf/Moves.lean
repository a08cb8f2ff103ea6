import KernelMaps.Proofs.Perf.Flow
import KernelMaps.Proofs.Perf.Lifecycle

/-!
What one event in the life of a perf buffer does to the records in its rings, as long as no drain
fails: it drains some readers, adds a record to a ring, or only opens and closes rings. From that
follows for each ring what is handed out of it, and what is left.
-/

namespace KernelMaps

def BufferEvent.receiver? : BufferEvent → Option Nat
  | .openOn _ receiver _ => some receiver
  | .openAll _ receiver _ => some receiver
  | _ => none

/-- Whether an event drains the ring of a reader: consuming drains them all, and polling those that
ask for it. -/
def PerfBuffer.DrainedBy (buffer : PerfBuffer QueuedRing) (reader : PerfReader) :
    BufferEvent → Prop
  | .consume => True
  | .poll => buffer.IsReady reader
  | .awaitPoll => buffer.holdsRecord = true ∧ buffer.IsReady reader
  | _ => False

def Unfailed {α : Type} (answer : Except MapError α) : Prop :=
  ∀ errno, answer ≠ .error (.call .readingRing (.system errno))

theorem Unfailed.of_map {α γ : Type} {answer : Except MapError α} {change : α → γ}
    (whole : Unfailed (answer.map change)) : Unfailed answer := by
  rintro errno rfl
  exact whole errno rfl

namespace BufferLife

/-- What lands in a ring during an event: a record that arrives there, or what the ring holds when it
is opened. -/
def landed (life : BufferLife) (event : BufferEvent) (fd : Nat) : List Delivery :=
  match event with
  | .arrive number delivery =>
      if number = fd ∧ (life.host.ring? number).isSome then [delivery] else []
  | event => if life.host.nextFd ≤ fd then (life.step event).2.host.pending fd else []

def Drains (life : BufferLife) (event : BufferEvent) (fd : Nat) : Prop :=
  ∃ buffer, life = alive buffer ∧
    ∃ reader ∈ buffer.readers, reader.fd = fd ∧ buffer.DrainedBy reader event

/-- Whether records land only in rings that an event opens. -/
def LandsOpened (life : BufferLife) (event : BufferEvent) (next : PerfHost QueuedRing) : Prop :=
  ∀ fd, life.landed event fd = if life.host.nextFd ≤ fd then next.pending fd else []

variable {map : Descriptor} {life next : BufferLife} {event : BufferEvent} {fd : Nat}

theorem exists_buffer (life : BufferLife) (map : Descriptor) :
    ∃ buffer : PerfBuffer QueuedRing, buffer.host = life.host ∧
      buffer.holdings = life.holdings map := by
  cases life with
  | alive buffer => exact ⟨buffer, rfl, rfl⟩
  | ended host => exact ⟨{ map, host }, rfl, rfl⟩

theorem live_lt (tended : (life.holdings map).Tended) (live : life.host.Live fd) :
    fd < life.host.nextFd := by
  obtain ⟨buffer, host, same⟩ := life.exists_buffer map
  rw [← host] at live ⊢
  exact PerfBuffer.live_lt (same ▸ tended) live

theorem pending_unborn (tended : (life.holdings map).Tended) (unborn : life.host.nextFd ≤ fd) :
    life.host.pending fd = [] := by
  obtain ⟨buffer, host, same⟩ := life.exists_buffer map
  rw [← host] at unborn ⊢
  exact PerfBuffer.pending_unborn (same ▸ tended) unborn

theorem onHost_host (life : BufferLife) (change : PerfHost QueuedRing → PerfHost QueuedRing) :
    (life.onHost change).host = change life.host := by
  cases life <;> rfl

theorem onHost_eq_alive {change : PerfHost QueuedRing → PerfHost QueuedRing}
    {current : PerfBuffer QueuedRing} (same : life.onHost change = alive current) :
    ∃ earlier, life = alive earlier ∧ { earlier with host := change earlier.host } = current := by
  cases life with
  | ended host => cases same
  | alive buffer => exact ⟨buffer, rfl, BufferLife.alive.inj same⟩

/-- What one event does: drains of some readers, a record that arrives, or something that hands out
nothing and only opens or closes rings. -/
inductive Moves : BufferLife → BufferEvent → BufferLife → Prop where
  | drained {buffer after : PerfBuffer QueuedRing} {event : BufferEvent} {cpus : List Cpu}
      {handed : List Received} (hands : buffer.Hands after cpus handed)
      (exactly : ∀ reader ∈ buffer.readers, reader.cpu ∈ cpus ↔ buffer.DrainedBy reader event)
      (landing : (alive buffer).LandsOpened event after.host) :
      Moves (alive buffer) event (alive after)
  | arrived {life : BufferLife} {delivery : Delivery} {ring : LiveRing QueuedRing}
      (found : life.host.ring? ring.fd = some ring) :
      Moves life (.arrive ring.fd delivery)
        (life.onHost fun host => host.arrive ring (ring.content.push delivery))
  | carried {life next : BufferLife} {event : BufferEvent} (carries : life.host.Carries next.host)
      (undrained : ∀ fd, ¬life.Drains event fd)
      (landing : life.LandsOpened event next.host)
      (kept : ∀ current, next = alive current → ∃ earlier, life = alive earlier ∧
        current.samples = earlier.samples ∧ current.lost = earlier.lost ∧
        (current.readers = earlier.readers ∧ current.receiver = earlier.receiver ∨
          current.readers = [] ∨ ∃ receiver, event.receiver? = some receiver ∧
            PerfBuffer.OpenedFrom earlier.host.nextFd receiver current.holdings)) :
      Moves life event next

theorem landsOpened (moved : (life.step event).2 = next)
    (other : ∀ fd delivery, event ≠ .arrive fd delivery) :
    life.LandsOpened event next.host := by
  intro fd
  subst moved
  cases event with
  | arrive fd delivery => exact absurd rfl (other fd delivery)
  | _ => rfl

theorem ended_undrained (host : PerfHost QueuedRing) (event : BufferEvent) (fd : Nat) :
    ¬(ended host).Drains event fd := by
  rintro ⟨buffer, alive, -⟩
  cases alive

theorem undrained (never : ∀ buffer reader, ¬PerfBuffer.DrainedBy buffer reader event) (fd : Nat) :
    ¬life.Drains event fd := by
  rintro ⟨buffer, -, reader, -, -, drained⟩
  exact never buffer reader drained

theorem unmoved (still : ∀ fd, ¬life.Drains event fd)
    (landing : life.LandsOpened event life.host) :
    Moves life event life := by
  refine .carried (.of_same rfl rfl rfl) still landing ?_
  rintro current rfl
  exact ⟨current, rfl, rfl, rfl, .inl ⟨rfl, rfl⟩⟩

theorem opening_moves {buffer after : PerfBuffer QueuedRing} {receiver : Nat}
    (carries : buffer.Carries after) (opens : event.receiver? = some receiver)
    (never : ∀ buffer reader, ¬PerfBuffer.DrainedBy buffer reader event)
    (landing : (alive buffer).LandsOpened event after.host)
    (readers : after = buffer ∨ PerfBuffer.OpenedFrom buffer.host.nextFd receiver after.holdings) :
    Moves (alive buffer) event (alive after) := by
  refine .carried carries.host (undrained never) landing ?_
  intro current same
  obtain rfl : after = current := BufferLife.alive.inj same
  refine ⟨buffer, rfl, carries.samples, carries.lost, ?_⟩
  rcases readers with rfl | opened
  · exact .inl ⟨rfl, rfl⟩
  · exact .inr (.inr ⟨receiver, opens, opened⟩)

theorem poll_moves {buffer after : PerfBuffer QueuedRing} {result : Except MapError Nat}
    (tended : buffer.holdings.Tended) (polled : buffer.poll = (result, after))
    (whole : Unfailed result)
    (exactly : ∀ reader ∈ buffer.readers, buffer.IsReady reader ↔ buffer.DrainedBy reader event)
    (landing : (alive buffer).LandsOpened event after.host) :
    Moves (alive buffer) event (alive after) := by
  cases result with
  | error error =>
      obtain ⟨errno, rfl⟩ := PerfBuffer.poll_fails polled
      exact absurd rfl (whole errno)
  | ok count =>
      obtain ⟨handed, hands⟩ := PerfBuffer.poll_hands tended polled
      apply Moves.drained hands _ landing
      intro reader member
      exact (PerfBuffer.ready_iff tended member).trans (exactly reader member)

theorem poll_step_moves {buffer : PerfBuffer QueuedRing} (tended : buffer.holdings.Tended)
    (whole : Unfailed ((alive buffer).step .poll).1) :
    Moves (alive buffer) .poll ((alive buffer).step .poll).2 := by
  rcases polled : buffer.poll with ⟨result, after⟩
  have next : (alive buffer).step .poll = (result.map .count, alive after) := by
    simp only [step, operate, polled]
  rw [next] at whole ⊢
  apply poll_moves tended polled whole.of_map
  · intro reader member
    rfl
  · exact landsOpened (congrArg Prod.snd next) (by simp)

theorem awaitPoll_step_moves {buffer : PerfBuffer QueuedRing} (tended : buffer.holdings.Tended)
    (whole : Unfailed ((alive buffer).step .awaitPoll).1) :
    Moves (alive buffer) .awaitPoll ((alive buffer).step .awaitPoll).2 := by
  by_cases holds : buffer.holdsRecord
  · rcases polled : buffer.poll with ⟨result, after⟩
    have next : (alive buffer).step .awaitPoll = (result.map .count, alive after) := by
      simp only [step, operate, PerfBuffer.awaitPoll, holds, if_true, polled]
    rw [next] at whole ⊢
    apply poll_moves tended polled whole.of_map
    · intro reader member
      simp only [PerfBuffer.DrainedBy, holds, true_and]
    · exact landsOpened (congrArg Prod.snd next) (by simp)
  · have next : ((alive buffer).step .awaitPoll).2 = alive buffer := by
      simp only [step, operate, PerfBuffer.awaitPoll, holds, if_false, Bool.false_eq_true]
    rw [next]
    apply unmoved
    · rintro fd ⟨_, same, reader, member, number, drained⟩
      obtain rfl := BufferLife.alive.inj same
      exact holds drained.1
    · exact landsOpened next (by simp)

theorem consume_hands {buffer : PerfBuffer QueuedRing} (tended : buffer.holdings.Tended)
    (whole : Unfailed ((alive buffer).step .consume).1) :
    ∃ count after handed, buffer.consume = (.ok count, after) ∧
      buffer.Hands after buffer.cpus handed ∧
      count = Delivery.countSamples (handed.map Received.delivery) := by
  rcases drained : buffer.consume with ⟨error | count, after⟩
  · obtain ⟨errno, rfl⟩ := PerfBuffer.drainEach_fails drained
    refine absurd ?_ (whole errno)
    simp only [step, operate, drained]
    rfl
  · obtain ⟨handed, facts⟩ := PerfBuffer.drainEach_hands tended drained
    exact ⟨count, after, handed, rfl, facts⟩

theorem consume_step_moves {buffer : PerfBuffer QueuedRing} (tended : buffer.holdings.Tended)
    (whole : Unfailed ((alive buffer).step .consume).1) :
    Moves (alive buffer) .consume ((alive buffer).step .consume).2 := by
  obtain ⟨count, after, handed, drained, hands, -⟩ := consume_hands tended whole
  have next : ((alive buffer).step .consume).2 = alive after := by
    simp only [step, operate, drained]
  rw [next]
  apply Moves.drained hands
  · intro reader member
    exact iff_of_true (List.mem_map_of_mem member) trivial
  · exact landsOpened next (by simp)

theorem arrive_step_moves (tended : (life.holdings map).Tended) (number : Nat)
    (delivery : Delivery) :
    Moves life (.arrive number delivery) (life.step (.arrive number delivery)).2 := by
  cases found : life.host.ring? number with
  | some ring =>
      obtain rfl := PerfHost.ring?_fd found
      have next : (life.step (.arrive ring.fd delivery)).2 =
          life.onHost fun host => host.arrive ring (ring.content.push delivery) := by
        cases life <;> simp only [step, atRing, found]
      rw [next]
      exact .arrived found
  | none =>
      have next : (life.step (.arrive number delivery)).2 = life := by
        cases life <;> simp only [step, atRing, found]
      rw [next]
      apply unmoved (undrained fun _ _ => id)
      intro fd
      have unlanded : life.landed (.arrive number delivery) fd = [] := by
        simp only [landed, found, Option.isSome_none, Bool.false_eq_true, and_false, if_false]
      rw [unlanded]
      by_cases unborn : life.host.nextFd ≤ fd
      · rw [if_pos unborn, pending_unborn tended unborn]
      · rw [if_neg unborn]

theorem spoil_step_moves (life : BufferLife) (number count : Nat) (errno : Errno) :
    Moves life (.spoil number count errno) (life.step (.spoil number count errno)).2 := by
  cases found : life.host.ring? number with
  | none =>
      have next : (life.step (.spoil number count errno)).2 = life := by
        cases life <;> simp only [step, atRing, found]
      have landing := landsOpened next (by simp)
      rw [next]
      exact unmoved (undrained fun _ _ => id) landing
  | some ring =>
      obtain rfl := PerfHost.ring?_fd found
      let content : QueuedRing := { ring.content with fault := some (count, errno) }
      have next : (life.step (.spoil ring.fd count errno)).2 =
          life.onHost fun host => host.setContent ring.fd content := by
        cases life <;> simp only [step, atRing, found, content]
      have landing := landsOpened next (by simp)
      rw [next]
      refine .carried ?_ (undrained fun _ _ => id) landing ?_
      · rw [onHost_host]
        refine ⟨rfl, Nat.le_refl _, ?_⟩
        intro fd _ live
        refine ⟨(PerfHost.live_setContent content fd).1 live, ?_⟩
        rw [PerfHost.pending_setContent found]
        by_cases here : fd = ring.fd
        · rw [if_pos here, here, PerfHost.pending, found]
        · rw [if_neg here]
      · intro current same
        obtain ⟨earlier, rfl, rfl⟩ := onHost_eq_alive same
        exact ⟨earlier, rfl, rfl, rfl, .inl ⟨rfl, rfl⟩⟩

theorem step_moves (tended : (life.holdings map).Tended) (event : BufferEvent)
    (whole : Unfailed (life.step event).1) :
    Moves life event (life.step event).2 := by
  cases life with
  | ended host =>
      cases event with
      | arrive number delivery => exact arrive_step_moves tended number delivery
      | spoil number count errno => exact spoil_step_moves _ number count errno
      | _ => exact unmoved (ended_undrained host _) fun _ => rfl
  | alive buffer =>
      cases event with
      | arrive number delivery => exact arrive_step_moves tended number delivery
      | spoil number count errno => exact spoil_step_moves _ number count errno
      | poll => exact poll_step_moves tended whole
      | awaitPoll => exact awaitPoll_step_moves tended whole
      | consume => exact consume_step_moves tended whole
      | openOn cpus receiver options =>
          exact opening_moves (PerfBuffer.carries_frame.openOn buffer cpus receiver options) rfl
            (fun _ _ => id) (fun _ => rfl) (PerfBuffer.openOn_readers tended cpus receiver options)
      | openAll online receiver options =>
          exact opening_moves (PerfBuffer.carries_frame.openAll buffer online receiver options) rfl
            (fun _ _ => id) (fun _ => rfl)
            (PerfBuffer.openAll_readers tended online receiver options)
      | close =>
          have carries := PerfBuffer.carries_frame.close buffer
          refine .carried carries.host (undrained fun _ _ => id) (fun _ => rfl) ?_
          intro current same
          obtain rfl : buffer.close.2 = current := BufferLife.alive.inj same
          exact ⟨buffer, rfl, carries.samples, carries.lost,
            .inr (.inl (PerfBuffer.close_tended tended).2.1)⟩
      | drop =>
          refine .carried (PerfBuffer.carries_drop buffer) (undrained fun _ _ => id) (fun _ => rfl) ?_
          intro current same
          cases same

/-- What becomes of the records of one ring during an event: a drain hands out all that was there,
anything else hands out nothing, and what lands stands behind what was there before. -/
structure Passes (life : BufferLife) (event : BufferEvent) (next : BufferLife) (fd : Nat) :
    Prop where
  numbers : life.host.nextFd ≤ next.host.nextFd
  survives : next.host.Live fd → life.host.Live fd ∨ life.host.nextFd ≤ fd
  unopened : next.host.nextFd ≤ fd → life.landed event fd = []
  drained : life.Drains event fd → life.host.Live fd ∧ life.landed event fd = [] ∧
    Received.ofRing fd next.host.received =
      Received.ofRing fd life.host.received ++ life.host.pending fd
  undrained : ¬life.Drains event fd →
    Received.ofRing fd next.host.received = Received.ofRing fd life.host.received
  conserved : next.host.Live fd →
    Received.ofRing fd next.host.received ++ next.host.pending fd =
      Received.ofRing fd life.host.received ++ life.host.pending fd ++ life.landed event fd

theorem drained_passes {buffer after : PerfBuffer QueuedRing} {cpus : List Cpu}
    {handed : List Received} (tended : buffer.holdings.Tended) (hands : buffer.Hands after cpus handed)
    (exactly : ∀ reader ∈ buffer.readers, reader.cpu ∈ cpus ↔ buffer.DrainedBy reader event)
    (landing : (alive buffer).LandsOpened event after.host) (fd : Nat) :
    Passes (alive buffer) event (alive after) fd := by
  have numbers : after.host.nextFd = buffer.host.nextFd := congrArg Holdings.nextFd hands.holdings
  have behind : after.holdings.Tended := hands.holdings ▸ tended
  have nothing : (alive buffer).landed event fd = [] := by
    rw [landing fd]
    split
    · next unborn => exact PerfBuffer.pending_unborn behind (numbers.symm ▸ unborn)
    · rfl
  have received : Received.ofRing fd after.host.received =
      Received.ofRing fd buffer.host.received ++ Received.ofRing fd handed := by
    rw [hands.received, Received.ofRing_append]
  constructor
  · exact Nat.le_of_eq numbers.symm
  · intro live
    left
    have listed := PerfBuffer.live_iff.1 live
    rw [hands.holdings] at listed
    exact PerfBuffer.live_iff.2 listed
  · exact fun _ => nothing
  · rintro ⟨_, same, reader, member, rfl, drained⟩
    obtain rfl := BufferLife.alive.inj same
    refine ⟨PerfBuffer.live_of_reader tended member, nothing, ?_⟩
    have all := (hands.of_drained member ((exactly reader member).2 drained)).1
    exact received.trans (congrArg _ all)
  · intro still
    have other : ∀ reader ∈ buffer.readers, reader.cpu ∈ cpus → reader.fd ≠ fd := by
      intro reader member listed same
      exact still ⟨buffer, rfl, reader, member, same, (exactly reader member).1 listed⟩
    have none := (hands.of_undrained other).1
    refine received.trans ?_
    rw [none, List.append_nil]
    rfl
  · intro live
    rw [nothing, List.append_nil]
    show Received.ofRing fd after.host.received ++ after.host.pending fd =
      Received.ofRing fd buffer.host.received ++ buffer.host.pending fd
    rw [received, List.append_assoc, hands.conserved]

theorem arrived_passes {delivery : Delivery} {ring : LiveRing QueuedRing}
    (tended : (life.holdings map).Tended) (found : life.host.ring? ring.fd = some ring) :
    Passes life (.arrive ring.fd delivery)
      (life.onHost fun host => host.arrive ring (ring.content.push delivery)) fd := by
  have landing : life.landed (.arrive ring.fd delivery) fd =
      if ring.fd = fd then [delivery] else [] := by
    simp only [landed, found, Option.isSome_some, and_true]
  have pending := PerfHost.pending_setContent found (ring.content.push delivery) fd
  have live : (life.host.setContent ring.fd (ring.content.push delivery)).Live fd ↔
      life.host.Live fd := PerfHost.live_setContent _ fd
  refine ⟨?_, ?_, ?_, ?_, ?_, ?_⟩ <;> rw [onHost_host]
  · exact Nat.le_refl _
  · exact fun stays => .inl (live.1 stays)
  · intro unborn
    have apart : ring.fd ≠ fd := by
      rintro rfl
      exact Nat.not_lt.2 unborn (live_lt tended ⟨ring, found⟩)
    rw [landing, if_neg apart]
  · exact fun drains => absurd drains (undrained (fun _ _ => id) fd)
  · exact fun _ => rfl
  · intro _
    show Received.ofRing fd life.host.received ++ (life.host.setContent _ _).pending fd = _
    rw [pending, landing, List.append_assoc]
    by_cases here : fd = ring.fd
    · rw [if_pos here, if_pos here.symm, here, PerfHost.pending, found]
      rfl
    · rw [if_neg here, if_neg (Ne.symm here), List.append_nil]

theorem carried_passes (tended : (life.holdings map).Tended)
    (behind : (next.holdings map).Tended) (carries : life.host.Carries next.host)
    (still : ¬life.Drains event fd)
    (landing : life.LandsOpened event next.host) :
    Passes life event next fd := by
  constructor
  · exact carries.numbers
  · intro live
    by_cases unborn : life.host.nextFd ≤ fd
    · exact .inr unborn
    · exact .inl (carries.rings fd (Nat.not_le.1 unborn) live).1
  · intro unborn
    rw [landing fd, if_pos (Nat.le_trans carries.numbers unborn), pending_unborn behind unborn]
  · exact fun drains => absurd drains still
  · intro _
    rw [carries.received]
  · intro live
    rw [carries.received, landing fd]
    by_cases unborn : life.host.nextFd ≤ fd
    · rw [if_pos unborn, pending_unborn tended unborn, List.append_nil]
    · rw [if_neg unborn, List.append_nil, (carries.rings fd (Nat.not_le.1 unborn) live).2]

theorem Moves.passes (moves : Moves life event next) (tended : (life.holdings map).Tended)
    (behind : (next.holdings map).Tended) (fd : Nat) : Passes life event next fd := by
  cases moves with
  | drained hands exactly landing => exact drained_passes tended hands exactly landing fd
  | arrived found => exact arrived_passes tended found
  | carried carries still landing _ =>
      exact carried_passes tended behind carries (still fd) landing

structure Accounted (buffer : PerfBuffer QueuedRing) : Prop where
  samples : buffer.samples =
    UInt64.ofNat (Delivery.countSamples (buffer.host.received.map Received.delivery))
  lost : buffer.lost = Delivery.sumLost (buffer.host.received.map Received.delivery)

theorem Moves.accounted (moves : Moves life event next)
    (before : ∀ earlier, life = alive earlier → Accounted earlier) (current : PerfBuffer QueuedRing)
    (same : next = alive current) : Accounted current := by
  cases moves with
  | drained hands exactly landing =>
      obtain rfl := BufferLife.alive.inj same
      obtain ⟨samples, lost⟩ := before _ rfl
      constructor
      · rw [hands.samples, hands.received, List.map_append, Delivery.countSamples_append, samples,
          UInt64.ofNat_add, UInt64.add_comm]
      · rw [hands.lost, hands.received, List.map_append, Delivery.sumLost_append, lost,
          UInt64.add_comm]
  | arrived found =>
      obtain ⟨earlier, rfl, rfl⟩ := onHost_eq_alive same
      exact ⟨(before earlier rfl).samples, (before earlier rfl).lost⟩
  | carried carries still landing kept =>
      obtain ⟨earlier, rfl, samples, lost, -⟩ := kept current same
      subst same
      obtain ⟨counted, summed⟩ := before earlier rfl
      have received : current.host.received = earlier.host.received := carries.received
      constructor
      · rw [samples, received, counted]
      · rw [lost, received, summed]

theorem Moves.receipts (moves : Moves life event next) :
    ∃ handed, next.host.received = handed ++ life.host.received ∧
      ∀ receipt ∈ handed, ∃ buffer, life = alive buffer ∧
        buffer.receiver = some receipt.receiver ∧
        ∃ reader ∈ buffer.readers, reader.fd = receipt.ring := by
  cases moves with
  | @drained buffer after event cpus handed hands exactly landing =>
      refine ⟨handed, hands.received, fun receipt listed => ?_⟩
      obtain ⟨own, reader, member, -, number⟩ := hands.source receipt listed
      exact ⟨buffer, rfl, own, reader, member, number⟩
  | arrived found =>
      refine ⟨[], ?_, fun _ listed => absurd listed List.not_mem_nil⟩
      rw [onHost_host]
      rfl
  | carried carries still landing kept =>
      exact ⟨[], carries.received, fun _ listed => absurd listed List.not_mem_nil⟩

theorem Moves.readers (moves : Moves life event next) (current : PerfBuffer QueuedRing)
    (same : next = alive current) :
    ∃ earlier, life = alive earlier ∧
      (current.readers = earlier.readers ∧ current.receiver = earlier.receiver ∨
        current.readers = [] ∨ ∃ receiver, event.receiver? = some receiver ∧
          PerfBuffer.OpenedFrom earlier.host.nextFd receiver current.holdings) := by
  cases moves with
  | @drained buffer after event cpus handed hands exactly landing =>
      obtain rfl := BufferLife.alive.inj same
      refine ⟨buffer, rfl, .inl ⟨?_, ?_⟩⟩
      · exact congrArg Holdings.readers hands.holdings
      · exact congrArg Holdings.receiver hands.holdings
  | arrived found =>
      obtain ⟨earlier, rfl, rfl⟩ := onHost_eq_alive same
      exact ⟨earlier, rfl, .inl ⟨rfl, rfl⟩⟩
  | carried carries still landing kept =>
      obtain ⟨earlier, before, -, -, readers⟩ := kept current same
      exact ⟨earlier, before, readers⟩

end BufferLife

end KernelMaps
