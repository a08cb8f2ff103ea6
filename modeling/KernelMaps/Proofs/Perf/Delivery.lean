import KernelMaps.Proofs.Perf.Moves

/-!
What reaches the receivers of a perf buffer over its life. As long as no drain fails, every ring
hands out what arrived in it in that order, all of it up to its last drain and nothing behind it.
-/

namespace KernelMaps.BufferLife

/-- What landed in a ring over a run, oldest first. -/
def arrivedAt (life : BufferLife) (fd : Nat) : List BufferEvent → List Delivery
  | [] => []
  | event :: rest => life.landed event fd ++ (life.step event).2.arrivedAt fd rest

/-- A split of a run behind the last drain of a ring, or in front of it all if there is none. -/
structure LastDrain (start : BufferLife) (fd : Nat) (before after : List BufferEvent) : Prop where
  drained : before = [] ∨ ∃ earlier event, before = earlier ++ [event] ∧
    (start.run earlier).2.Drains event fd
  quiet : ∀ more event rest, after = more ++ event :: rest →
    ¬(start.run (before ++ more)).2.Drains event fd

def OpenedFor (start : BufferLife) (events : List BufferEvent) (fd receiver : Nat) : Prop :=
  ∃ before event after, events = before ++ event :: after ∧ event.receiver? = some receiver ∧
    (start.run before).2.host.nextFd ≤ fd ∧ fd < (start.run (before ++ [event])).2.host.nextFd

def Undisturbed (start : BufferLife) (events : List BufferEvent) : Prop :=
  ∀ answer ∈ (start.run events).1, Unfailed answer

variable {map : Descriptor} {start : BufferLife} {events : List BufferEvent} {event : BufferEvent}
  {fd : Nat}

theorem run_append (life : BufferLife) (first second : List BufferEvent) :
    life.run (first ++ second) = ((life.run first).1 ++ ((life.run first).2.run second).1,
      ((life.run first).2.run second).2) := by
  induction first generalizing life with
  | nil => rfl
  | cons event rest ih => simp only [List.cons_append, run, ih]

theorem arrivedAt_append (life : BufferLife) (fd : Nat) (first second : List BufferEvent) :
    life.arrivedAt fd (first ++ second) =
      life.arrivedAt fd first ++ (life.run first).2.arrivedAt fd second := by
  induction first generalizing life with
  | nil => rfl
  | cons event rest ih => simp only [List.cons_append, arrivedAt, ih, List.append_assoc, run]

namespace Undisturbed

theorem append {first second : List BufferEvent} :
    start.Undisturbed (first ++ second) ↔
      start.Undisturbed first ∧ (start.run first).2.Undisturbed second := by
  simp only [Undisturbed, run_append, List.mem_append, or_imp, forall_and]

theorem answer {after : List BufferEvent} (whole : start.Undisturbed (event :: after)) :
    Unfailed (start.step event).1 :=
  whole _ List.mem_cons_self

theorem moves (whole : start.Undisturbed (events ++ [event]))
    (tended : (start.holdings map).Tended) :
    Moves (start.run events).2 event (start.run (events ++ [event])).2 := by
  rw [run_append_singleton]
  exact step_moves (run_tended tended events) event (append.1 whole).2.answer

end Undisturbed

namespace OpenedFor

variable {receiver : Nat}

theorem append (opened : start.OpenedFor events fd receiver) (event : BufferEvent) :
    start.OpenedFor (events ++ [event]) fd receiver := by
  obtain ⟨before, opening, after, rfl, facts⟩ := opened
  exact ⟨before, opening, after ++ [event], by simp, facts⟩

theorem last (opens : event.receiver? = some receiver)
    (above : (start.run events).2.host.nextFd ≤ fd)
    (below : fd < (start.run (events ++ [event])).2.host.nextFd) :
    start.OpenedFor (events ++ [event]) fd receiver :=
  ⟨events, event, [], rfl, opens, above, below⟩

end OpenedFor

namespace LastDrain

theorem nil (start : BufferLife) (fd : Nat) : start.LastDrain fd [] [] := by
  refine ⟨.inl rfl, fun more event rest split => ?_⟩
  exact absurd split (by simp)

theorem last (drains : (start.run events).2.Drains event fd) :
    start.LastDrain fd (events ++ [event]) [] := by
  refine ⟨.inr ⟨events, event, rfl, drains⟩, fun more other rest split => ?_⟩
  exact absurd split (by simp)

theorem append {before after : List BufferEvent} (drain : start.LastDrain fd before after)
    (still : ¬(start.run (before ++ after)).2.Drains event fd) :
    start.LastDrain fd before (after ++ [event]) := by
  refine ⟨drain.drained, fun more other rest split => ?_⟩
  cases rest using List.reverseRecOn with
  | nil =>
      obtain ⟨rfl, same⟩ := List.append_inj' split rfl
      obtain rfl : event = other := by simpa using same
      exact still
  | append_singleton rest final =>
      have regrouped : after ++ [event] = (more ++ other :: rest) ++ [final] := by simpa using split
      exact drain.quiet more other rest (List.append_inj' regrouped rfl).1

end LastDrain

structure Settled (start : BufferLife) (events : List BufferEvent) (fd : Nat) : Prop where
  unborn : (start.run events).2.host.nextFd ≤ fd →
    Received.ofRing fd (start.run events).2.host.received = [] ∧ start.arrivedAt fd events = []
  conserved : (start.run events).2.host.Live fd →
    Received.ofRing fd (start.run events).2.host.received ++ (start.run events).2.host.pending fd =
      start.arrivedAt fd events
  handed : ∃ before after, events = before ++ after ∧ start.LastDrain fd before after ∧
    Received.ofRing fd (start.run events).2.host.received = start.arrivedAt fd before

theorem Settled.isFront (settled : start.Settled events fd) :
    Received.ofRing fd (start.run events).2.host.received <+: start.arrivedAt fd events := by
  obtain ⟨before, after, rfl, -, handed⟩ := settled.handed
  rw [handed, arrivedAt_append]
  exact List.prefix_append _ _

theorem Settled.append (settled : start.Settled events fd)
    (passes : Passes (start.run events).2 event (start.run (events ++ [event])).2 fd)
    (tended : ((start.run events).2.holdings map).Tended) :
    start.Settled (events ++ [event]) fd := by
  have arrived : start.arrivedAt fd (events ++ [event]) =
      start.arrivedAt fd events ++ (start.run events).2.landed event fd := by
    rw [arrivedAt_append, arrivedAt, arrivedAt, List.append_nil]
  constructor
  · intro unborn
    have before := Nat.le_trans passes.numbers unborn
    obtain ⟨received, landed⟩ := settled.unborn before
    have still : ¬(start.run events).2.Drains event fd := fun drains =>
      Nat.not_lt.2 before (live_lt tended (passes.drained drains).1)
    rw [passes.undrained still, arrived, landed, passes.unopened unborn]
    exact ⟨received, rfl⟩
  · intro live
    rw [passes.conserved live, arrived]
    rcases passes.survives live with before | unborn
    · rw [settled.conserved before]
    · obtain ⟨received, landed⟩ := settled.unborn unborn
      rw [received, landed, pending_unborn tended unborn, List.append_nil]
  · by_cases drains : (start.run events).2.Drains event fd
    · obtain ⟨live, nothing, received⟩ := passes.drained drains
      refine ⟨events ++ [event], [], by simp, .last drains, ?_⟩
      rw [received, settled.conserved live, arrived, nothing, List.append_nil]
    · obtain ⟨before, after, rfl, drain, received⟩ := settled.handed
      refine ⟨before, after ++ [event], by simp, drain.append drains, ?_⟩
      rw [passes.undrained drains, received]

theorem run_settled (tended : (start.holdings map).Tended) (none : start.host.received = [])
    (closed : ∀ fd, ¬start.host.Live fd) (whole : start.Undisturbed events) (fd : Nat) :
    start.Settled events fd := by
  -- from the end, since the last drain is looked for from there
  induction events using List.reverseRecOn with
  | nil =>
      have nothing : Received.ofRing fd start.host.received = [] := by rw [none]; rfl
      exact ⟨fun _ => ⟨nothing, rfl⟩, fun live => absurd live (closed fd),
        [], [], rfl, .nil start fd, nothing⟩
  | append_singleton events event ih =>
      have before := run_tended tended events
      have behind := run_tended tended (events ++ [event])
      exact (ih (Undisturbed.append.1 whole).1).append
        ((whole.moves tended).passes before behind fd) before

theorem run_accounted (tended : (start.holdings map).Tended) (whole : start.Undisturbed events)
    (began : ∀ buffer, start = alive buffer → Accounted buffer) (current : PerfBuffer QueuedRing)
    (same : (start.run events).2 = alive current) : Accounted current := by
  induction events using List.reverseRecOn generalizing current with
  | nil => exact began current same
  | append_singleton events event ih =>
      exact (whole.moves tended).accounted (ih (Undisturbed.append.1 whole).1) current same

/-- From a life that has no readers on: all that is received later comes from rings that were opened
later, and goes to the receivers that these were opened for. -/
theorem run_receipts (tended : (start.holdings map).Tended) (whole : start.Undisturbed events)
    (idle : ∀ buffer, start = alive buffer → buffer.readers = []) :
    (∃ later, (start.run events).2.host.received = later ++ start.host.received ∧
      ∀ receipt ∈ later, start.OpenedFor events receipt.ring receipt.receiver) ∧
    ∀ current, (start.run events).2 = alive current → ∀ reader ∈ current.readers,
      ∃ receiver, current.receiver = some receiver ∧ start.OpenedFor events reader.fd receiver := by
  induction events using List.reverseRecOn with
  | nil =>
      refine ⟨⟨[], rfl, fun _ listed => absurd listed List.not_mem_nil⟩, ?_⟩
      intro current same reader member
      rw [idle current same] at member
      exact absurd member List.not_mem_nil
  | append_singleton events event ih =>
      obtain ⟨⟨later, received, sources⟩, readers⟩ := ih (Undisturbed.append.1 whole).1
      have moves := whole.moves tended
      constructor
      · obtain ⟨handed, more, givers⟩ := moves.receipts
        refine ⟨handed ++ later, ?_, fun receipt listed => ?_⟩
        · rw [more, received, List.append_assoc]
        · rcases List.mem_append.1 listed with new | old
          · obtain ⟨buffer, same, own, reader, member, number⟩ := givers receipt new
            obtain ⟨receiver, held, opened⟩ := readers buffer same reader member
            obtain rfl := Option.some.inj (own.symm.trans held)
            exact number ▸ opened.append event
          · exact (sources receipt old).append event
      · intro current same reader member
        obtain ⟨earlier, before, kept | none | ⟨receiver, opens, opened⟩⟩ :=
          moves.readers current same
        · rw [kept.1] at member
          obtain ⟨receiver, held, opened⟩ := readers earlier before reader member
          exact ⟨receiver, kept.2.trans held, opened.append event⟩
        · rw [none] at member
          exact absurd member List.not_mem_nil
        · refine ⟨receiver, opened.receiver, .last opens ?_ ?_⟩
          · rw [before]
            exact opened.readers reader member
          · rw [same]
            exact PerfBuffer.live_lt opened.tended (PerfBuffer.live_of_reader opened.tended member)

theorem shut_idle {life : BufferLife} (tended : (life.holdings map).Tended)
    (shut : event = .close ∨ event = .drop) (buffer : PerfBuffer QueuedRing)
    (same : (life.step event).2 = alive buffer) : buffer.readers = [] := by
  cases life with
  | ended host => rcases shut with rfl | rfl <;> cases same
  | alive earlier =>
      rcases shut with rfl | rfl
      · obtain rfl : earlier.close.2 = buffer := BufferLife.alive.inj same
        exact (PerfBuffer.close_tended tended).2.1
      · cases same

theorem run_receipts_behind_shut {before after : List BufferEvent}
    (tended : (start.holdings map).Tended) (whole : start.Undisturbed (before ++ event :: after))
    (shut : event = .close ∨ event = .drop) :
    ∃ later, (start.run (before ++ event :: after)).2.host.received =
        later ++ (start.run (before ++ [event])).2.host.received ∧
      ∀ receipt ∈ later,
        (start.run (before ++ [event])).2.OpenedFor after receipt.ring receipt.receiver := by
  have regrouped : before ++ event :: after = (before ++ [event]) ++ after := by simp
  rw [regrouped, Undisturbed.append] at whole
  have idle := shut_idle (run_tended tended before) shut
  rw [← run_append_singleton] at idle
  rw [regrouped, run_append]
  exact (run_receipts (run_tended tended (before ++ [event])) whole.2 idle).1

theorem run_consume {before after : List BufferEvent} (tended : (start.holdings map).Tended)
    (whole : start.Undisturbed (before ++ .consume :: after)) {current : PerfBuffer QueuedRing}
    (same : (start.run before).2 = alive current) :
    ∃ count drained handed, current.consume = (.ok count, drained) ∧
      drained.host.received = handed ++ current.host.received ∧
      count = Delivery.countSamples (handed.map Received.delivery) := by
  have answers := (Undisturbed.append.1 whole).2.answer
  have watched := run_tended tended before
  rw [same] at answers watched
  obtain ⟨count, drained, handed, consumed, hands, counted⟩ := consume_hands watched answers
  exact ⟨count, drained, handed, consumed, hands.received, counted⟩

theorem toNat_ofNat_eq_iff (number : Nat) :
    (UInt64.ofNat number).toNat = number ↔ number < bitRange 64 :=
  UInt64.toNat_ofNat' ▸ machineSize_eq_iff

theorem Accounted.totals {buffer : PerfBuffer QueuedRing} (accounted : Accounted buffer) :
    let deliveries := buffer.host.received.map Received.delivery
    (buffer.samples.toNat = Delivery.countSamples deliveries ↔
      Delivery.countSamples deliveries < bitRange 64) ∧
    (buffer.lost.toNat = Delivery.lostTotal deliveries ↔
      Delivery.lostTotal deliveries < bitRange 64) := by
  rw [accounted.samples, accounted.lost, Delivery.sumLost_eq_ofNat]
  exact ⟨toNat_ofNat_eq_iff _, toNat_ofNat_eq_iff _⟩

def calmArray : Simulation where
  store := .references #[none, none, none, none]
  faults := []
  mapped := true
  journal := []

def calmBuffer : PerfBuffer QueuedRing :=
  { map := eventMap, host := { backend := calmArray, plan := fun _ _ => { content := .ok {} } } }

def stintingPlan (asked : Nat) (_ : RingRequest) : RingOutcome QueuedRing :=
  { content := .ok {}, watching := if asked = 2 then some .notPermitted else none }

def stintedBuffer : PerfBuffer QueuedRing :=
  { map := eventMap, host := { backend := calmArray, plan := stintingPlan } }

def stintedEvents : List BufferEvent :=
  [.openOn [1, 0, 1] 1 {}, .arrive 3 (.sample [10]), .poll, .arrive 5 (.lost 4),
    .arrive 3 (.sample [11]), .arrive 3 (.sample [12]), .consume, .arrive 3 (.sample [13]), .close,
    .openOn [1] 2 {}, .arrive 9 (.sample [14]), .consume, .arrive 9 (.sample [15])]

def heavyEvents : List BufferEvent :=
  [.openOn [0] 1 {}, .arrive 3 (.lost 0x8000000000000000), .arrive 3 (.lost 0x8000000000000000),
    .consume]

def heavyBuffer : PerfBuffer QueuedRing :=
  match ((alive calmBuffer).run heavyEvents).2 with
  | alive buffer => buffer
  | ended host => { map := eventMap, host }

end KernelMaps.BufferLife
