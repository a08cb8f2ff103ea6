import KernelMaps.Proofs.Perf.Delivery

/-!
Polling against draining everything. Where the rings that ask to be drained are those that hold
something, and no drain fails, both hand out the same from each ring and leave nothing behind; only
the order among the rings is their own.
-/

namespace KernelMaps

namespace Delivery

theorem countSamples_perm {first second : List Delivery} (same : first.Perm second) :
    countSamples first = countSamples second :=
  (same.filterMap _).length_eq

theorem sumLost_perm {first second : List Delivery} (same : first.Perm second) :
    sumLost first = sumLost second := by
  induction same with
  | nil => rfl
  | cons delivery _ ih => cases delivery <;> simp only [sumLost, ih]
  | swap first second rest =>
      cases first with
      | sample bytes => cases second <;> rfl
      | lost count =>
          cases second with
          | sample bytes => rfl
          | lost other =>
              simp only [sumLost]
              rw [← UInt64.add_assoc, UInt64.add_comm other, UInt64.add_assoc]
  | trans _ _ lower upper => exact lower.trans upper

end Delivery

namespace Received

theorem filter_ring {receiver : Nat} {receipts : List Received}
    (own : ∀ receipt ∈ receipts, receipt.receiver = receiver) (fd : Nat) :
    receipts.filter (fun receipt => receipt.ring = fd) =
      (ofRing fd receipts).reverse.map fun delivery => ⟨receiver, fd, delivery⟩ := by
  rw [ofRing, List.reverse_reverse, List.map_map]
  refine (List.map_id _).symm.trans (List.map_congr_left fun receipt listed => ?_)
  obtain ⟨member, ring⟩ := List.mem_filter.1 listed
  obtain ⟨got, number, delivery⟩ := receipt
  obtain rfl : got = receiver := own _ member
  obtain rfl : number = fd := by simpa using ring
  rfl

theorem perm_of_rings {receiver : Nat} {first second : List Received}
    (ownFirst : ∀ receipt ∈ first, receipt.receiver = receiver)
    (ownSecond : ∀ receipt ∈ second, receipt.receiver = receiver)
    (same : ∀ fd, ofRing fd first = ofRing fd second) : first.Perm second := by
  rw [List.perm_iff_count]
  intro receipt
  have streams : first.filter (fun other => other.ring = receipt.ring) =
      second.filter fun other => other.ring = receipt.ring := by
    rw [filter_ring ownFirst, filter_ring ownSecond, same]
  have counted := congrArg (List.count receipt) streams
  rwa [List.count_filter (by simp), List.count_filter (by simp)] at counted

end Received

namespace PerfBuffer

/-- A buffer whose readers are ready exactly when they hold something, and whose drains do not
fail. -/
structure Prompt (buffer : PerfBuffer QueuedRing) : Prop where
  ready : ∀ reader ∈ buffer.readers, buffer.IsReady reader ↔ buffer.host.pending reader.fd ≠ []
  whole : ∀ reader ∈ buffer.readers, ∀ ring, buffer.host.ring? reader.fd = some ring →
    (RingContent.drain ring.content).1.failure = none

instance (buffer : PerfBuffer QueuedRing) (reader : PerfReader) :
    Decidable (buffer.IsReady reader) :=
  decidable_of_iff ((buffer.host.ring? reader.fd).any fun ring => ring.content.ready)
    (Option.any_eq_true ..)

instance (buffer : PerfBuffer QueuedRing) : Decidable buffer.Prompt :=
  decidable_of_iff ((∀ reader ∈ buffer.readers, buffer.IsReady reader ↔
      buffer.host.pending reader.fd ≠ []) ∧
    ∀ reader ∈ buffer.readers, ∀ ring ∈ buffer.host.ring? reader.fd,
      (RingContent.drain ring.content).1.failure = none)
    ⟨fun both => ⟨both.1, both.2⟩, fun prompt => ⟨prompt.ready, prompt.whole⟩⟩

/-- What a drain of all rings comes to. Each ring hands out what it held, for the receiver of the
buffer, and nothing is left. -/
structure Empties (before after : PerfBuffer QueuedRing) (handed : List Received) : Prop where
  holdings : after.holdings = before.holdings
  received : after.host.received = handed ++ before.host.received
  samples : after.samples =
    before.samples + UInt64.ofNat (Delivery.countSamples (handed.map Received.delivery))
  lost : after.lost = before.lost + Delivery.sumLost (handed.map Received.delivery)
  each : ∀ fd, Received.ofRing fd handed = before.host.pending fd
  own : ∀ receipt ∈ handed, before.receiver = some receipt.receiver
  nothing : ∀ fd, after.host.pending fd = []
  prompt : after.Prompt

variable {buffer before after other : PerfBuffer QueuedRing} {cpus : List Cpu}
  {handed more : List Received}

theorem pending_elsewhere (tended : buffer.holdings.Tended) {fd : Nat}
    (elsewhere : ∀ reader ∈ buffer.readers, reader.fd ≠ fd) : buffer.host.pending fd = [] := by
  apply PerfHost.pending_of_not_live
  intro live
  obtain ⟨watch, listed, number⟩ := List.mem_map.1 (live_iff.1 live)
  obtain ⟨reader, member, rfl⟩ := List.mem_map.1 (tended.books.rings.mem_iff.1 listed)
  exact elsewhere reader member number

/-- Draining on some CPUs empties all rings if the others held nothing. -/
theorem Hands.empties (hands : before.Hands after cpus handed) (tended : before.holdings.Tended)
    (silent : ∀ reader ∈ before.readers, reader.cpu ∉ cpus → before.host.pending reader.fd = [])
    (prompt : after.Prompt) : before.Empties after handed := by
  have nothing (fd : Nat) : after.host.pending fd = [] := by
    have conserved := hands.conserved fd
    by_cases held : ∃ reader ∈ before.readers, reader.fd = fd
    · obtain ⟨reader, member, rfl⟩ := held
      by_cases listed : reader.cpu ∈ cpus
      · exact hands.emptied reader member listed
      · rw [silent reader member listed] at conserved
        exact (List.append_eq_nil_iff.1 conserved).2
    · have unread := pending_elsewhere tended fun reader member same => held ⟨reader, member, same⟩
      rw [unread] at conserved
      exact (List.append_eq_nil_iff.1 conserved).2
  refine ⟨hands.holdings, hands.received, hands.samples, hands.lost, fun fd => ?_, ?_, nothing,
    prompt⟩
  · have conserved := hands.conserved fd
    rwa [nothing, List.append_nil] at conserved
  · intro receipt listed
    exact (hands.source receipt listed).1

theorem Empties.perm (first : before.Empties after handed) (second : before.Empties other more) :
    handed.Perm more := by
  have own {receipts : List Received}
      (each : ∀ receipt ∈ receipts, before.receiver = some receipt.receiver) :
      ∀ receipt ∈ receipts, receipt.receiver = before.receiver.getD 0 := by
    intro receipt listed
    rw [each receipt listed]
    rfl
  exact Received.perm_of_rings (own first.own) (own second.own) fun fd =>
    (first.each fd).trans (second.each fd).symm

theorem drained_fresh {ring : QueuedRing} (whole : (RingContent.drain ring).1.failure = none) :
    (RingContent.drain ring).2 = {} := by
  simp only [RingContent.drain, QueuedRing.drain] at whole ⊢
  split at whole
  · next count errno fault =>
      by_cases cut : count ≤ ring.pending.length
      · simp only [cut, if_true, QueuedRing.delivered] at whole
        contradiction
      · simp only [cut, if_false]
  · rfl

theorem Prompt.setContent (prompt : buffer.Prompt) {changed : PerfBuffer QueuedRing} {fd : Nat}
    (readers : changed.readers = buffer.readers)
    (host : changed.host.rings = (buffer.host.setContent fd {}).rings) : changed.Prompt := by
  have found (number : Nat) : changed.host.ring? number = (buffer.host.ring? number).map
      fun ring => if ring.fd = fd then { ring with content := {} } else ring := by
    rw [← PerfHost.ring?_setContent, PerfHost.ring?, host]
    rfl
  constructor
  · intro reader member
    rw [readers] at member
    have before := prompt.ready reader member
    rw [IsReady, PerfHost.pending, found]
    rw [IsReady, PerfHost.pending] at before
    cases located : buffer.host.ring? reader.fd with
    | none => simp
    | some ring =>
        rw [located] at before
        by_cases here : ring.fd = fd
        · simp [here]
        · simpa [here] using before
  · intro reader member ring located
    rw [readers] at member
    rw [found] at located
    obtain ⟨before, held, rfl⟩ := Option.map_eq_some_iff.1 located
    split
    · rfl
    · exact prompt.whole reader member before held

theorem drainCpu_prompt (prompt : buffer.Prompt) (cpu : Cpu) :
    ∃ count after, buffer.drainCpu cpu = (.ok count, after) ∧ after.Prompt := by
  rw [drainCpu]
  split
  · next receiver reader own located =>
      have member := List.mem_of_find?_eq_some located
      split
      · exact ⟨0, buffer, rfl, prompt⟩
      · next ring found =>
          have whole := prompt.whole reader member ring found
          simp only [whole, drained_fresh whole]
          exact ⟨_, _, rfl, prompt.setContent rfl rfl⟩
  · exact ⟨0, buffer, rfl, prompt⟩

theorem drainEach_prompt (prompt : buffer.Prompt) (cpus : List Cpu) :
    ∃ count after, buffer.drainEach cpus = (.ok count, after) ∧ after.Prompt := by
  induction cpus generalizing buffer with
  | nil => exact ⟨0, buffer, rfl, prompt⟩
  | cons cpu rest ih =>
      obtain ⟨count, between, first, kept⟩ := drainCpu_prompt prompt cpu
      obtain ⟨more, last, others, left⟩ := ih kept
      refine ⟨count + more, last, ?_, left⟩
      simp only [drainEach, first, others]

theorem consume_empties (tended : buffer.holdings.Tended) (prompt : buffer.Prompt) :
    ∃ handed after, buffer.consume =
        (.ok (Delivery.countSamples (handed.map Received.delivery)), after) ∧
      buffer.Empties after handed := by
  obtain ⟨count, after, drained, kept⟩ := drainEach_prompt prompt buffer.cpus
  obtain ⟨handed, hands, rfl⟩ := drainEach_hands tended drained
  refine ⟨handed, after, drained, hands.empties tended (fun reader member absent => ?_) kept⟩
  exact absurd (List.mem_map_of_mem member) absent

def holding (buffer : PerfBuffer QueuedRing) : List PerfReader :=
  buffer.readers.filter fun reader => buffer.host.pending reader.fd ≠ []

theorem length_readyWatches (tended : buffer.holdings.Tended) (prompt : buffer.Prompt) :
    buffer.readyWatches.length = buffer.holding.length := by
  rw [readyWatches, List.length_mergeSort]
  cases watching : buffer.watched with
  | none =>
      have gone : buffer.readers = [] := (tended.closed watching).1
      simp [holding, gone]
  | some watches =>
      have same : watches.Perm (buffer.readers.map PerfReader.watch) :=
        (tended.watched watches watching).1
      rw [Option.getD_some, (same.filter _).length_eq, List.filter_map, List.length_map, holding]
      congr 1
      apply List.filter_congr
      intro reader member
      rw [Bool.eq_iff_iff, decide_eq_true_iff, ← prompt.ready reader member]
      exact Option.any_eq_true ..

theorem poll_prompt (tended : buffer.holdings.Tended) (prompt : buffer.Prompt) :
    ∃ after, buffer.poll = (.ok buffer.holding.length, after) ∧ after.Prompt := by
  rw [poll, readyWatches_take tended]
  split
  · next none =>
      have gone : buffer.readers = [] := by simpa using none
      exact ⟨buffer, by rw [holding, gone]; rfl, prompt⟩
  · let noted : PerfBuffer QueuedRing := { buffer with host := { buffer.host with
      arrivals := buffer.readyWatches.map Watch.fd } }
    have noting : noted.Prompt := ⟨prompt.ready, prompt.whole⟩
    obtain ⟨count, after, drained, kept⟩ :=
      drainEach_prompt noting (buffer.readyWatches.map Watch.cpu)
    refine ⟨after, ?_, kept⟩
    simp only [noted] at drained
    simp only [drained, length_readyWatches tended prompt]

theorem poll_empties (tended : buffer.holdings.Tended) (prompt : buffer.Prompt) :
    ∃ handed after, buffer.poll = (.ok buffer.holding.length, after) ∧
      buffer.Empties after handed := by
  obtain ⟨after, polled, kept⟩ := poll_prompt tended prompt
  obtain ⟨handed, hands⟩ := poll_hands tended polled
  refine ⟨handed, after, polled, hands.empties tended (fun reader member absent => ?_) kept⟩
  rw [ready_iff tended member, prompt.ready reader member] at absent
  exact not_not.1 absent

def Idle (buffer : PerfBuffer QueuedRing)
    (drained : Except MapError Nat × PerfBuffer QueuedRing) : Prop :=
  drained.1 = .ok 0 ∧ drained.2.host.received = buffer.host.received ∧
    drained.2.samples = buffer.samples ∧ drained.2.lost = buffer.lost

theorem Empties.handed_nothing (empties : before.Empties after handed)
    (silent : ∀ fd, before.host.pending fd = []) : handed = [] := by
  apply List.eq_nil_iff_forall_not_mem.2
  intro receipt listed
  have streams := (empties.each receipt.ring).trans (silent receipt.ring)
  rw [Received.ofRing, List.reverse_eq_nil_iff, List.map_eq_nil_iff,
    List.filter_eq_nil_iff] at streams
  exact streams receipt listed (by simp)

theorem Empties.idle (first : before.Empties after handed) (tended : before.holdings.Tended) :
    after.Idle after.poll ∧ after.Idle after.consume := by
  rw [← first.holdings] at tended
  obtain ⟨handed, polled, polling, second⟩ := poll_empties tended first.prompt
  obtain ⟨more, consumed, consuming, third⟩ := consume_empties tended first.prompt
  obtain rfl := second.handed_nothing first.nothing
  obtain rfl := third.handed_nothing first.nothing
  have none : after.holding = [] := by
    rw [holding, List.filter_eq_nil_iff]
    intro reader _
    simp [first.nothing]
  rw [polling, consuming, none]
  exact ⟨⟨rfl, second.received, second.samples.trans (UInt64.add_zero _),
    second.lost.trans (UInt64.add_zero _)⟩,
    rfl, third.received, third.samples.trans (UInt64.add_zero _),
    third.lost.trans (UInt64.add_zero _)⟩

end PerfBuffer

namespace BufferLife

/-- At any time in the life of a freshly made buffer, polling and draining everything agree if the
buffer is prompt, and find nothing behind one another. On a closed one they do nothing. -/
theorem poll_agrees_with_consume {map : Descriptor} {backend : Simulation}
    {plan : Nat → RingRequest → RingOutcome QueuedRing} {buffer current : PerfBuffer QueuedRing}
    (made : PerfBuffer.ofMap map { backend, plan } = .ok buffer) {events : List BufferEvent}
    (reached : ((alive buffer).run events).2 = alive current) :
    (current.isOpen = false →
        current.poll = (.ok 0, current) ∧ current.consume = (.ok 0, current)) ∧
      (current.Prompt → ∃ early late polled consumed,
        current.poll = (.ok current.holding.length, polled) ∧
        current.consume =
          (.ok (Delivery.countSamples (late.map Received.delivery)), consumed) ∧
        current.Empties polled early ∧ current.Empties consumed late ∧ early.Perm late ∧
        polled.samples = consumed.samples ∧ polled.lost = consumed.lost ∧
        ∀ drained ∈ [polled, consumed],
          drained.Idle drained.poll ∧ drained.Idle drained.consume) := by
  obtain ⟨-, rfl⟩ := PerfBuffer.ofMap_eq_ok.1 made
  have tended : current.holdings.Tended := by
    have kept := run_tended (fresh_tended map backend plan) events
    rwa [reached] at kept
  refine ⟨fun closed => ?_, fun prompt => ?_⟩
  · have unwatched : current.watched = none := by simpa [PerfBuffer.isOpen] using closed
    have gone : current.readers = [] := (tended.closed unwatched).1
    rw [PerfBuffer.poll, PerfBuffer.consume, PerfBuffer.cpus, gone]
    exact ⟨rfl, rfl⟩
  · obtain ⟨early, polled, polling, first⟩ := PerfBuffer.poll_empties tended prompt
    obtain ⟨late, consumed, consuming, second⟩ := PerfBuffer.consume_empties tended prompt
    have same := first.perm second
    refine ⟨early, late, polled, consumed, polling, consuming, first, second, same, ?_, ?_, ?_⟩
    · rw [first.samples, second.samples, Delivery.countSamples_perm (same.map Received.delivery)]
    · rw [first.lost, second.lost, Delivery.sumLost_perm (same.map Received.delivery)]
    · rintro drained (_ | ⟨_, _ | ⟨_, ⟨⟩⟩⟩)
      · exact first.idle tended
      · exact second.idle tended

def ladenEvents : List BufferEvent :=
  [.openOn [1, 0, 2, 1] 1 {}, .arrive 9 (.sample [10]), .arrive 5 (.lost 4),
    .arrive 9 (.sample [11]), .arrive 9 (.sample [12])]

def laden : PerfBuffer QueuedRing :=
  match ((alive calmBuffer).run ladenEvents).2 with
  | alive buffer => buffer
  | ended host => { map := eventMap, host }

theorem laden_buffer_agrees :
    PerfBuffer.ofMap eventMap
        { backend := calmArray, plan := fun _ _ => { content := .ok {} } } = .ok calmBuffer ∧
      ((alive calmBuffer).run ladenEvents).2 = alive laden ∧ laden.Prompt ∧
      (∃ early late polled consumed, laden.poll = (.ok laden.holding.length, polled) ∧
        laden.consume = (.ok (Delivery.countSamples (late.map Received.delivery)), consumed) ∧
        early.Perm late ∧ laden.Empties polled early ∧ laden.Empties consumed late) ∧
      laden.holding.length = 2 ∧ laden.consume.1 = .ok 3 ∧ laden.consume.2.host.received =
        [⟨1, 9, .sample [12]⟩, ⟨1, 9, .sample [11]⟩, ⟨1, 9, .sample [10]⟩, ⟨1, 5, .lost 4⟩] := by
  have made : PerfBuffer.ofMap eventMap
      { backend := calmArray, plan := fun _ _ => { content := .ok {} } } = .ok calmBuffer := rfl
  have reached : ((alive calmBuffer).run ladenEvents).2 = alive laden := rfl
  have prompt : laden.Prompt := by decide +kernel
  obtain ⟨early, late, polled, consumed, polling, consuming, first, second, same, -⟩ :=
    (poll_agrees_with_consume made reached).2 prompt
  exact ⟨made, reached, prompt, ⟨early, late, polled, consumed, polling, consuming, same, first,
    second⟩, by decide +kernel, by decide +kernel, by decide +kernel⟩

end BufferLife

end KernelMaps
