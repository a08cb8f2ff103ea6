import KernelMaps.Proofs.Perf.Custody
import KernelMaps.Proofs.Perf.Frames

/-!
What becomes of the records in the rings of a buffer. A drain that does not fail hands out all that
its ring holds, oldest first, and leaves the other rings alone; opening and closing hand out nothing
and leave what they do not close as it was.
-/

namespace KernelMaps

/-- The deliveries among these receipts that came from one ring. Receipts are listed newest first,
deliveries oldest first. -/
def Received.ofRing (fd : Nat) (receipts : List Received) : List Delivery :=
  ((receipts.filter fun receipt => receipt.ring = fd).map Received.delivery).reverse

theorem Received.ofRing_map (receiver number fd : Nat) (deliveries : List Delivery) :
    ofRing fd (deliveries.map fun delivery => ⟨receiver, number, delivery⟩).reverse =
      if fd = number then deliveries else [] := by
  by_cases here : fd = number
  · simp [ofRing, here, List.filter_map, Function.comp_def]
  · simp [ofRing, here, Ne.symm here, List.filter_map, Function.comp_def]

theorem Received.ofRing_append (fd : Nat) (later earlier : List Received) :
    ofRing fd (later ++ earlier) = ofRing fd earlier ++ ofRing fd later := by
  simp [ofRing]

namespace PerfHost

variable {β : Type} {host : PerfHost QueuedRing β}

def pending (host : PerfHost QueuedRing β) (fd : Nat) : List Delivery :=
  match host.ring? fd with
  | some ring => ring.content.pending
  | none => []

def Live (host : PerfHost QueuedRing β) (fd : Nat) : Prop :=
  ∃ ring, host.ring? fd = some ring

theorem pending_of_not_live {fd : Nat} (gone : ¬host.Live fd) : host.pending fd = [] := by
  rw [pending]
  cases found : host.ring? fd with
  | none => rfl
  | some ring => exact absurd ⟨ring, found⟩ gone

theorem same_content {other : PerfHost QueuedRing β} {fd : Nat}
    (same : (other.ring? fd).map LiveRing.content = (host.ring? fd).map LiveRing.content) :
    (other.Live fd → host.Live fd) ∧ other.pending fd = host.pending fd := by
  rw [Live, Live, pending, pending]
  cases left : other.ring? fd <;> cases right : host.ring? fd <;> simp_all

theorem find?_changed {change : LiveRing QueuedRing → LiveRing QueuedRing}
    (numbers : ∀ ring, (change ring).fd = ring.fd) (rings : List (LiveRing QueuedRing)) (fd : Nat) :
    (rings.map change).find? (fun ring => ring.fd = fd) =
      (rings.find? fun ring => ring.fd = fd).map change := by
  rw [List.find?_map]
  congr 2
  funext ring
  simp only [Function.comp, numbers]

theorem ring?_setContent (target fd : Nat) (content : QueuedRing) :
    (host.setContent target content).ring? fd =
      (host.ring? fd).map fun ring =>
        if ring.fd = target then { ring with content } else ring := by
  apply find?_changed
  intro ring
  split <;> rfl

theorem pending_setContent {target : Nat} {ring : LiveRing QueuedRing}
    (found : host.ring? target = some ring) (content : QueuedRing) (fd : Nat) :
    (host.setContent target content).pending fd =
      if fd = target then content.pending else host.pending fd := by
  have number := ring?_fd found
  rw [pending, ring?_setContent]
  by_cases here : fd = target
  · simp only [here, found, Option.map_some, number, if_true]
  · rw [if_neg here, pending]
    cases other : host.ring? fd with
    | none => rfl
    | some ring =>
        have named := ring?_fd other
        have apart : ring.fd ≠ target := named ▸ here
        simp only [Option.map_some, apart, if_false]

theorem live_setContent {target : Nat} (content : QueuedRing) (fd : Nat) :
    (host.setContent target content).Live fd ↔ host.Live fd := by
  simp only [Live, ring?_setContent, Option.map_eq_some_iff]
  constructor
  · rintro ⟨_, ring, found, _⟩
    exact ⟨ring, found⟩
  · rintro ⟨ring, found⟩
    exact ⟨_, ring, found, rfl⟩

end PerfHost

theorem QueuedRing.drain_of_ok {ring : QueuedRing}
    (whole : (RingContent.drain ring).1.failure = none) :
    (RingContent.drain ring).1 = delivered ring.pending none ∧
      (RingContent.drain ring).2.pending = [] := by
  simp only [RingContent.drain, drain] at whole ⊢
  split at whole
  · next count errno fault =>
      by_cases cut : count ≤ ring.pending.length
      · simp only [cut, if_true, delivered] at whole
        contradiction
      · simp only [cut, if_false, and_self]
  · simp only [and_self]

namespace Delivery

theorem sumLost_append (first second : List Delivery) :
    sumLost (first ++ second) = sumLost first + sumLost second := by
  induction first with
  | nil => simp [sumLost]
  | cons delivery rest ih =>
      cases delivery with
      | sample bytes => exact ih
      | lost count => rw [List.cons_append, sumLost, sumLost, ih, UInt64.add_assoc]

def lostTotal : List Delivery → Nat
  | [] => 0
  | sample _ :: rest => lostTotal rest
  | lost count :: rest => count.toNat + lostTotal rest

theorem sumLost_eq_ofNat (deliveries : List Delivery) :
    sumLost deliveries = UInt64.ofNat (lostTotal deliveries) := by
  induction deliveries with
  | nil => rfl
  | cons delivery rest ih =>
      cases delivery with
      | sample bytes => exact ih
      | lost count => rw [sumLost, lostTotal, ih, UInt64.ofNat_add, UInt64.ofNat_toNat]

theorem countSamples_reverse (deliveries : List Delivery) :
    countSamples deliveries.reverse = countSamples deliveries := by
  simp [countSamples, List.filterMap_reverse]

theorem sumLost_reverse (deliveries : List Delivery) :
    sumLost deliveries.reverse = sumLost deliveries := by
  induction deliveries with
  | nil => rfl
  | cons delivery rest ih =>
      rw [List.reverse_cons, sumLost_append, ih]
      cases delivery with
      | sample bytes => exact UInt64.add_zero _
      | lost count => rw [sumLost, sumLost, sumLost, UInt64.add_zero, UInt64.add_comm]

end Delivery

namespace PerfBuffer

variable {buffer before after : PerfBuffer QueuedRing} {cpus : List Cpu} {handed : List Received}

/-- What drains on some CPUs do that do not fail. What a ring held is what was handed out of it and
what is left in it, and nothing is left where a reader was drained. -/
structure Hands (before after : PerfBuffer QueuedRing) (cpus : List Cpu) (handed : List Received) :
    Prop where
  holdings : after.holdings = before.holdings
  received : after.host.received = handed ++ before.host.received
  samples : after.samples =
    before.samples + UInt64.ofNat (Delivery.countSamples (handed.map Received.delivery))
  lost : after.lost = before.lost + Delivery.sumLost (handed.map Received.delivery)
  conserved : ∀ fd, Received.ofRing fd handed ++ after.host.pending fd = before.host.pending fd
  source : ∀ receipt ∈ handed, before.receiver = some receipt.receiver ∧
    ∃ reader ∈ before.readers, reader.cpu ∈ cpus ∧ reader.fd = receipt.ring
  emptied : ∀ reader ∈ before.readers, reader.cpu ∈ cpus → after.host.pending reader.fd = []

theorem Hands.trans {third : PerfBuffer QueuedRing} {more : List Cpu} {later : List Received}
    (first : before.Hands after cpus handed) (second : after.Hands third more later) :
    before.Hands third (cpus ++ more) (later ++ handed) := by
  have readers : after.readers = before.readers := congrArg Holdings.readers first.holdings
  have receiver : after.receiver = before.receiver := congrArg Holdings.receiver first.holdings
  refine ⟨second.holdings.trans first.holdings, ?_, ?_, ?_, ?_, ?_, ?_⟩
  · rw [second.received, first.received, List.append_assoc]
  · rw [second.samples, first.samples, List.map_append, Delivery.countSamples_append,
      UInt64.ofNat_add, UInt64.add_assoc, UInt64.add_comm (UInt64.ofNat _)]
  · rw [second.lost, first.lost, List.map_append, Delivery.sumLost_append, UInt64.add_assoc,
      UInt64.add_comm (Delivery.sumLost _)]
  · intro fd
    rw [Received.ofRing_append, List.append_assoc, second.conserved, first.conserved]
  · intro receipt member
    rcases List.mem_append.1 member with late | early
    · obtain ⟨own, reader, held, listed, number⟩ := second.source receipt late
      rw [readers] at held
      exact ⟨receiver ▸ own, reader, held, List.mem_append_right _ listed, number⟩
    · obtain ⟨own, reader, held, listed, number⟩ := first.source receipt early
      exact ⟨own, reader, held, List.mem_append_left _ listed, number⟩
  · intro reader member listed
    rcases List.mem_append.1 listed with early | late
    · have nothing := second.conserved reader.fd
      rw [first.emptied reader member early] at nothing
      exact (List.append_eq_nil_iff.1 nothing).2
    · exact second.emptied reader (readers ▸ member) late

theorem Hands.of_drained (hands : before.Hands after cpus handed) {reader : PerfReader}
    (member : reader ∈ before.readers) (listed : reader.cpu ∈ cpus) :
    Received.ofRing reader.fd handed = before.host.pending reader.fd ∧
      after.host.pending reader.fd = [] := by
  have left := hands.emptied reader member listed
  have conserved := hands.conserved reader.fd
  rw [left, List.append_nil] at conserved
  exact ⟨conserved, left⟩

theorem Hands.of_undrained (hands : before.Hands after cpus handed) {fd : Nat}
    (other : ∀ reader ∈ before.readers, reader.cpu ∈ cpus → reader.fd ≠ fd) :
    Received.ofRing fd handed = [] ∧ after.host.pending fd = before.host.pending fd := by
  have none : Received.ofRing fd handed = [] := by
    rw [Received.ofRing, List.reverse_eq_nil_iff, List.map_eq_nil_iff, List.filter_eq_nil_iff]
    intro receipt listed
    obtain ⟨-, reader, member, drained, number⟩ := hands.source receipt listed
    simpa [← number] using other reader member drained
  have conserved := hands.conserved fd
  rw [none, List.nil_append] at conserved
  exact ⟨none, conserved⟩

theorem hands_nothing
    (silent : ∀ reader ∈ buffer.readers, reader.cpu ∈ cpus → buffer.host.pending reader.fd = []) :
    buffer.Hands buffer cpus [] := by
  refine ⟨rfl, rfl, (UInt64.add_zero _).symm, (UInt64.add_zero _).symm, fun _ => rfl, ?_, silent⟩
  intro receipt member
  exact absurd member List.not_mem_nil

theorem same_reader (tended : buffer.holdings.Tended) {reader other : PerfReader}
    (member : reader ∈ buffer.readers) (beside : other ∈ buffer.readers)
    (cpu : other.cpu = reader.cpu) : other = reader := by
  have distinct : (buffer.readers.map PerfReader.cpu).Nodup := by
    rw [List.Nodup, List.pairwise_map]
    exact tended.ascending.imp fun below same => UInt32.ne_of_lt below same
  exact List.inj_on_of_nodup_map distinct beside member cpu

theorem receiver_of_reader (tended : buffer.holdings.Tended) {reader : PerfReader}
    (member : reader ∈ buffer.readers) : ∃ receiver, buffer.receiver = some receiver := by
  apply Option.isSome_iff_exists.1
  cases watching : buffer.watched with
  | none =>
      have gone : buffer.readers = [] := (tended.closed watching).1
      rw [gone] at member
      exact absurd member List.not_mem_nil
  | some watches => exact (tended.watched watches watching).2

theorem deliver_hands {receiver : Nat} {reader : PerfReader} {ring : LiveRing QueuedRing}
    {content : QueuedRing} (tended : buffer.holdings.Tended) (own : buffer.receiver = some receiver)
    (member : reader ∈ buffer.readers) (found : buffer.host.ring? reader.fd = some ring)
    (nothing : content.pending = []) :
    buffer.Hands
      (({ buffer with host := buffer.host.setContent reader.fd content } :
        PerfBuffer QueuedRing).deliver receiver reader
          (QueuedRing.delivered ring.content.pending none))
      [reader.cpu]
      (ring.content.pending.map fun delivery => ⟨receiver, reader.fd, delivery⟩).reverse := by
  have deliveries : ((ring.content.pending.map fun delivery =>
      (⟨receiver, reader.fd, delivery⟩ : Received)).reverse).map Received.delivery =
        ring.content.pending.reverse := by
    simp [Function.comp_def]
  have left (fd : Nat) := PerfHost.pending_setContent found content fd
  rw [nothing] at left
  constructor
  · exact buffer.setContent_holdings reader.fd content
  · rfl
  · rw [deliveries, Delivery.countSamples_reverse]
    rfl
  · rw [deliveries, Delivery.sumLost_reverse]
    rfl
  · intro fd
    refine (congrArg _ (left fd)).trans ?_
    rw [Received.ofRing_map]
    by_cases here : fd = reader.fd
    · simp [here, PerfHost.pending, found]
    · simp [here]
  · intro receipt listed
    obtain ⟨delivery, -, rfl⟩ := List.mem_map.1 (List.mem_reverse.1 listed)
    exact ⟨own, reader, member, List.mem_singleton_self _, rfl⟩
  · intro other beside listed
    rw [same_reader tended member beside (List.mem_singleton.1 listed)]
    exact (left reader.fd).trans (if_pos rfl)

theorem live_iff {fd : Nat} : buffer.host.Live fd ↔ fd ∈ buffer.holdings.rings.map Watch.fd := by
  constructor
  · rintro ⟨ring, found⟩
    have number := PerfHost.ring?_fd found
    have listed : ring.watch ∈ buffer.holdings.rings :=
      List.mem_map_of_mem (List.mem_of_find?_eq_some found)
    exact List.mem_map.2 ⟨ring.watch, listed, number⟩
  · intro listed
    obtain ⟨watch, held, number⟩ := List.mem_map.1 listed
    obtain ⟨ring, member, rfl⟩ := List.mem_map.1 held
    have same : ring.fd = fd := number
    cases found : buffer.host.ring? fd with
    | some live => exact ⟨live, found⟩
    | none => exact absurd (List.find?_eq_none.1 found ring member) (by simpa using same)

theorem live_of_reader (tended : buffer.holdings.Tended) {reader : PerfReader}
    (member : reader ∈ buffer.readers) : buffer.host.Live reader.fd := by
  have listed : reader.watch ∈ buffer.holdings.rings :=
    tended.books.rings.mem_iff.2 (List.mem_map_of_mem member)
  exact live_iff.2 (List.mem_map_of_mem listed)

theorem live_lt (tended : buffer.holdings.Tended) {fd : Nat} (live : buffer.host.Live fd) :
    fd < buffer.host.nextFd := by
  obtain ⟨watch, listed, rfl⟩ := List.mem_map.1 (live_iff.1 live)
  exact tended.books.fresh watch (tended.books.rings.mem_iff.1 listed)

theorem pending_unborn (tended : buffer.holdings.Tended) {fd : Nat}
    (unborn : buffer.host.nextFd ≤ fd) : buffer.host.pending fd = [] := by
  apply PerfHost.pending_of_not_live
  intro live
  exact Nat.not_lt.2 unborn (live_lt tended live)

theorem drainCpu_hands (tended : buffer.holdings.Tended) {cpu : Cpu} {count : Nat}
    (drained : buffer.drainCpu cpu = (.ok count, after)) :
    ∃ handed, buffer.Hands after [cpu] handed ∧
      count = Delivery.countSamples (handed.map Received.delivery) := by
  rw [drainCpu] at drained
  split at drained
  · next receiver reader own located =>
      have member := List.mem_of_find?_eq_some located
      have here : reader.cpu = cpu := by simpa using List.find?_some located
      subst here
      split at drained
      · next closed =>
          obtain ⟨rfl, rfl⟩ : 0 = count ∧ buffer = after := by simpa using drained
          refine ⟨[], hands_nothing fun other beside listed => ?_, rfl⟩
          rw [same_reader tended member beside (List.mem_singleton.1 listed), PerfHost.pending,
            closed]
      · next ring found =>
          dsimp only at drained
          split at drained
          · next errno failed => cases drained
          · next whole =>
              obtain ⟨all, nothing⟩ := QueuedRing.drain_of_ok whole
              rw [all] at drained
              obtain ⟨counted, rfl⟩ := Prod.mk.inj drained
              refine ⟨_, deliver_hands tended own member found nothing, ?_⟩
              rw [← Except.ok.inj counted]
              simp [QueuedRing.delivered, Function.comp_def, Delivery.countSamples_reverse]
  · next absent =>
      obtain ⟨rfl, rfl⟩ : 0 = count ∧ buffer = after := by simpa using drained
      refine ⟨[], hands_nothing fun reader member listed => ?_, rfl⟩
      obtain ⟨receiver, own⟩ := receiver_of_reader tended member
      cases located : buffer.readers.find? (fun other => other.cpu = cpu) with
      | none =>
          have elsewhere := List.find?_eq_none.1 located reader member
          exact absurd (List.mem_singleton.1 listed) (by simpa using elsewhere)
      | some other => exact (absent receiver other own located).elim

theorem drainEach_hands (tended : buffer.holdings.Tended) {count : Nat}
    (drained : buffer.drainEach cpus = (.ok count, after)) :
    ∃ handed, buffer.Hands after cpus handed ∧
      count = Delivery.countSamples (handed.map Received.delivery) := by
  induction cpus generalizing buffer count with
  | nil =>
      obtain ⟨rfl, rfl⟩ : 0 = count ∧ buffer = after := by simpa [drainEach] using drained
      exact ⟨[], hands_nothing fun _ _ listed => absurd listed List.not_mem_nil, rfl⟩
  | cons cpu rest ih =>
      rw [drainEach] at drained
      rcases first : buffer.drainCpu cpu with ⟨error | number, between⟩
      · simp only [first] at drained
        cases drained
      · obtain ⟨handed, hands, counted⟩ := drainCpu_hands tended first
        rw [← hands.holdings] at tended
        simp only [first] at drained
        rcases others : between.drainEach rest with ⟨error | more, last⟩
        · simp only [others] at drained
          cases drained
        · simp only [others] at drained
          obtain ⟨rfl, rfl⟩ : number + more = count ∧ last = after := by simpa using drained
          obtain ⟨later, behind, summed⟩ := ih tended others
          refine ⟨later ++ handed, hands.trans behind, ?_⟩
          rw [List.map_append, Delivery.countSamples_append, counted, summed]
          omega

theorem drainCpu_fails {cpu : Cpu} {error : MapError}
    (drained : buffer.drainCpu cpu = (.error error, after)) :
    ∃ errno, error = .call .readingRing (.system errno) := by
  rw [drainCpu] at drained
  split at drained
  · split at drained
    · cases drained
    · dsimp only at drained
      split at drained
      · next errno _ => exact ⟨errno, (Except.error.inj (Prod.mk.inj drained).1).symm⟩
      · cases drained
  · cases drained

theorem drainEach_fails {error : MapError}
    (drained : buffer.drainEach cpus = (.error error, after)) :
    ∃ errno, error = .call .readingRing (.system errno) := by
  induction cpus generalizing buffer with
  | nil => cases drained
  | cons cpu rest ih =>
      rw [drainEach] at drained
      rcases first : buffer.drainCpu cpu with ⟨failure | number, between⟩
      · simp only [first] at drained
        obtain ⟨rfl, -⟩ : failure = error ∧ between = after := by simpa using drained
        exact drainCpu_fails first
      · simp only [first] at drained
        rcases others : between.drainEach rest with ⟨failure | more, last⟩
        · simp only [others] at drained
          obtain ⟨rfl, rfl⟩ : failure = error ∧ last = after := by simpa using drained
          exact ih others
        · simp only [others] at drained
          cases drained

def IsReady (buffer : PerfBuffer QueuedRing) (reader : PerfReader) : Prop :=
  ∃ ring, buffer.host.ring? reader.fd = some ring ∧ ring.content.ready = true

theorem ready_iff (tended : buffer.holdings.Tended) {reader : PerfReader}
    (member : reader ∈ buffer.readers) :
    reader.cpu ∈ buffer.readyWatches.map Watch.cpu ↔ buffer.IsReady reader := by
  obtain ⟨receiver, own⟩ := receiver_of_reader tended member
  cases watching : buffer.watched with
  | none =>
      have silent : buffer.receiver = none := (tended.closed watching).2
      rw [silent] at own
      contradiction
  | some watches =>
      have same : watches.Perm (buffer.readers.map PerfReader.watch) :=
        (tended.watched watches watching).1
      have listed (watch : Watch) : watch ∈ buffer.readyWatches ↔ watch ∈ watches ∧
          ∃ ring, buffer.host.ring? watch.fd = some ring ∧ ring.content.ready = true := by
        rw [readyWatches, List.mem_mergeSort, watching, Option.getD_some, List.mem_filter,
          Option.any_eq_true]
        rfl
      constructor
      · intro held
        obtain ⟨watch, found, cpu⟩ := List.mem_map.1 held
        obtain ⟨watched, ready⟩ := (listed watch).1 found
        obtain ⟨other, beside, rfl⟩ := List.mem_map.1 (same.mem_iff.1 watched)
        rwa [same_reader tended member beside cpu] at ready
      · intro ready
        have watched := same.mem_iff.2 (List.mem_map_of_mem member)
        exact List.mem_map.2 ⟨reader.watch, (listed _).2 ⟨watched, ready⟩, rfl⟩

theorem readyWatches_take (tended : buffer.holdings.Tended) :
    buffer.readyWatches.take buffer.readers.length = buffer.readyWatches := by
  apply List.take_of_length_le
  rw [readyWatches, List.length_mergeSort]
  refine Nat.le_trans (List.length_filter_le ..) ?_
  cases watching : buffer.watched with
  | none => exact Nat.zero_le _
  | some watches =>
      have same : watches.Perm (buffer.readers.map PerfReader.watch) :=
        (tended.watched watches watching).1
      have counted := same.length_eq
      rw [List.length_map] at counted
      exact Nat.le_of_eq counted

theorem poll_hands (tended : buffer.holdings.Tended) {count : Nat}
    (polled : buffer.poll = (.ok count, after)) :
    ∃ handed, buffer.Hands after (buffer.readyWatches.map Watch.cpu) handed := by
  rw [poll, readyWatches_take tended] at polled
  split at polled
  · next none =>
      obtain ⟨-, rfl⟩ : 0 = count ∧ buffer = after := by simpa using polled
      have gone : buffer.readers = [] := by simpa using none
      refine ⟨[], hands_nothing fun reader member _ => ?_⟩
      rw [gone] at member
      exact absurd member List.not_mem_nil
  · let noted : PerfBuffer QueuedRing := { buffer with host := { buffer.host with
      arrivals := buffer.readyWatches.map Watch.fd } }
    have noting : noted.holdings.Tended := tended
    dsimp only at polled
    split at polled
    · cases polled
    · next drained =>
        obtain ⟨-, rfl⟩ := Prod.mk.inj polled
        obtain ⟨handed, hands, -⟩ := drainEach_hands noting drained
        exact ⟨handed, hands.holdings, hands.received, hands.samples, hands.lost, hands.conserved,
          hands.source, hands.emptied⟩

theorem poll_fails {error : MapError} (polled : buffer.poll = (.error error, after)) :
    ∃ errno, error = .call .readingRing (.system errno) := by
  rw [poll] at polled
  split at polled
  · cases polled
  · dsimp only at polled
    split at polled
    · next drained =>
        obtain ⟨same, rfl⟩ := Prod.mk.inj polled
        obtain ⟨errno, failed⟩ := drainEach_fails drained
        exact ⟨errno, (Except.error.inj same).symm.trans failed⟩
    · cases polled

end PerfBuffer

/-- A change of a host that hands out nothing, and leaves every ring that was there before as it was
or closes it. -/
structure PerfHost.Carries {β : Type} (before after : PerfHost QueuedRing β) : Prop where
  received : after.received = before.received
  numbers : before.nextFd ≤ after.nextFd
  rings : ∀ fd < before.nextFd, after.Live fd →
    before.Live fd ∧ after.pending fd = before.pending fd

namespace PerfHost.Carries

variable {β : Type} {first second third host : PerfHost QueuedRing β}

theorem trans (lower : first.Carries second) (upper : second.Carries third) :
    first.Carries third := by
  refine ⟨upper.received.trans lower.received, Nat.le_trans lower.numbers upper.numbers, ?_⟩
  intro fd below live
  obtain ⟨between, same⟩ := upper.rings fd (Nat.lt_of_lt_of_le below lower.numbers) live
  obtain ⟨began, kept⟩ := lower.rings fd below between
  exact ⟨began, same.trans kept⟩

theorem of_contents (received : second.received = first.received)
    (numbers : first.nextFd ≤ second.nextFd)
    (rings : ∀ fd < first.nextFd, second.Live fd →
      (second.ring? fd).map LiveRing.content = (first.ring? fd).map LiveRing.content) :
    first.Carries second := by
  refine ⟨received, numbers, fun fd below live => ?_⟩
  obtain ⟨began, same⟩ := same_content (rings fd below live)
  exact ⟨began live, same⟩

theorem of_same (received : second.received = first.received) (numbers : second.nextFd = first.nextFd)
    (rings : second.rings = first.rings) : first.Carries second := by
  apply of_contents received (Nat.le_of_eq numbers.symm)
  intro fd _ _
  rw [ring?, ring?, rings]

theorem openRing (host : PerfHost QueuedRing β) (request : RingRequest) :
    host.Carries (host.openRing request).2 := by
  rw [PerfHost.openRing]
  dsimp only
  split
  · exact .of_same rfl rfl rfl
  · refine .of_contents rfl (Nat.le_add_right _ 2) fun fd below _ => ?_
    have apart : ¬host.nextFd = fd := by omega
    rw [ring?, List.find?_append, List.find?_singleton, if_neg (by simpa using apart),
      Option.or_none, ring?]

theorem closeRing (host : PerfHost QueuedRing β) (ring : LiveRing QueuedRing) :
    host.Carries (host.closeRing ring) := by
  refine .of_contents rfl (Nat.le_refl _) fun fd _ live => ?_
  obtain ⟨left, found⟩ := live
  have number := PerfHost.ring?_fd found
  have stays : left.fd ≠ ring.fd := by
    simpa using (List.mem_filter.1 (List.mem_of_find?_eq_some found)).2
  have others : (fun other : LiveRing QueuedRing =>
      decide (decide (other.fd ≠ ring.fd) = true ∧ decide (other.fd = fd) = true)) =
        fun other => decide (other.fd = fd) := by
    funext other
    by_cases here : other.fd = fd
    · simp [here, ← number, stays]
    · simp [here]
  rw [ring?, PerfHost.closeRing, List.find?_filter, others, ring?]

end PerfHost.Carries

namespace PerfBuffer

structure Carries {β : Type} (before after : PerfBuffer QueuedRing β) : Prop where
  host : before.host.Carries after.host
  samples : after.samples = before.samples
  lost : after.lost = before.lost

theorem carries_frame {β : Type} [Backend β] :
    Frame (Carries : PerfBuffer QueuedRing β → PerfBuffer QueuedRing β → Prop) where
  trans lower upper :=
    ⟨lower.host.trans upper.host, upper.samples.trans lower.samples, upper.lost.trans lower.lost⟩
  arranged _ _ _ _ := ⟨.of_same rfl rfl rfl, rfl, rfl⟩
  log _ _ := ⟨.of_same rfl rfl rfl, rfl, rfl⟩
  openRing buffer request := ⟨.openRing buffer.host request, rfl, rfl⟩
  closeRing buffer ring := ⟨.closeRing buffer.host ring, rfl, rfl⟩
  storeEvent _ _ _ := ⟨.of_same rfl rfl rfl, rfl, rfl⟩
  eraseEvent _ _ := ⟨.of_same rfl rfl rfl, rfl, rfl⟩

theorem carries_drop {β : Type} [Backend β] (buffer : PerfBuffer QueuedRing β) :
    buffer.host.Carries buffer.drop := by
  have closed := (carries_frame.close buffer).host
  rw [drop]
  split
  · rcases found : buffer.close with ⟨error | _, after⟩
    · rw [found] at closed
      exact closed.trans (.of_same rfl rfl rfl)
    · rw [found] at closed
      exact closed
  · exact .of_same rfl rfl rfl

variable {buffer : PerfBuffer QueuedRing}

structure OpenedFrom (first receiver : Nat) (holdings : Holdings) : Prop where
  tended : holdings.Tended
  receiver : holdings.receiver = some receiver
  numbers : first ≤ holdings.nextFd
  readers : ∀ reader ∈ holdings.readers, first ≤ reader.fd

theorem OpenedFrom.opens {first receiver : Nat} {holdings next : Holdings} {cpu : Cpu}
    (opens : holdings.OpensOne cpu next) (opened : OpenedFrom first receiver holdings) :
    OpenedFrom first receiver next := by
  have tended := opens.tended opened.tended
  have grown : first ≤ holdings.nextFd + 2 := Nat.le_add_right_of_le opened.numbers
  cases opens with
  | refused => exact opened
  | unwatched => exact ⟨tended, opened.receiver, grown, opened.readers⟩
  | unstored failed => exact ⟨tended, opened.receiver, grown, opened.readers⟩
  | placed watched stored =>
      refine ⟨tended, opened.receiver, grown, fun reader member => ?_⟩
      rcases PerfReader.mem_placed.1 member with rfl | ⟨held, -⟩
      · exact opened.numbers
      · exact opened.readers reader held

theorem openOn_readers (tended : buffer.holdings.Tended) (cpus : List Cpu) (receiver : Nat)
    (options : PerfOptions) :
    (buffer.openOn cpus receiver options).2 = buffer ∨
      OpenedFrom buffer.host.nextFd receiver (buffer.openOn cpus receiver options).2.holdings := by
  rw [openOn]
  split
  · exact .inl rfl
  · split
    · exact .inl rfl
    · next fresh =>
        rw [not_or, not_not] at fresh
        have gone : buffer.readers = [] := fresh.2
        have started : OpenedFrom buffer.host.nextFd receiver
            ({ buffer with watched := some [], receiver := some receiver } :
              PerfBuffer QueuedRing).holdings := by
          refine ⟨tended.start gone receiver, rfl, Nat.le_refl _, fun reader member => ?_⟩
          have held : reader ∈ buffer.readers := member
          rw [gone] at held
          exact absurd held List.not_mem_nil
        have opened := openEach_keeps OpenedFrom.tended OpenedFrom.opens started options cpus
        right
        split
        · next outcome => rwa [outcome] at opened
        · next outcome => rwa [outcome] at opened

theorem openAll_readers (tended : buffer.holdings.Tended) (online : Except Errno Bytes)
    (receiver : Nat) (options : PerfOptions) :
    (buffer.openAll online receiver options).2 = buffer ∨
      OpenedFrom buffer.host.nextFd receiver
        (buffer.openAll online receiver options).2.holdings := by
  rw [openAll]
  split
  · exact .inl rfl
  · exact .inl rfl
  · next cpus _ _ => exact openOn_readers tended cpus receiver options

end PerfBuffer

end KernelMaps
