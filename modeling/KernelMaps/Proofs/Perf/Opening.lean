import KernelMaps.Proofs.Perf.FirstFault
import KernelMaps.Proofs.Perf.HandleSizes

/-!
How the opening of a perf buffer ends. Nothing is touched where the number of pages is wrong or the
buffer is open already. Otherwise the first CPU whose ring, watch or slot is refused ends it, and
what stands open then is what the CPUs in front of that one were given.
-/

namespace KernelMaps

theorem PerfOptions.validate_eq_ok_iff {options : PerfOptions} :
    options.validate = .ok () ↔ ∃ exponent, options.pages = 2 ^ exponent := by
  constructor
  · intro valid
    refine ⟨options.pages.log2, ?_⟩
    rw [validate] at valid
    split at valid
    · assumption
    · contradiction
  · rintro ⟨exponent, power⟩
    rw [validate, power, Nat.log2_two_pow, if_pos (by rfl)]

namespace Descriptor

variable {map : Descriptor}

theorem storeEvent_fails (holds : map.HoldsEvents) {simulation after : Simulation} {cpu : Cpu}
    {fd : Nat} {error : MapError}
    (failed : simulation.run (map.storeEvent cpu fd) = (.error error, after)) :
    ∃ errno, error = .call .updatingValue (.system errno) := by
  have sized : (wordBytes 4 cpu.toNat).length = map.callKeySize := by
    rw [wordBytes_length, callKeySize_of_keyed holds.keyed, holds.keySize]
  have filled : (wordBytes 4 fd).length = map.bufferSize :=
    (wordBytes_length ..).trans holds.bufferSize.symm
  rw [storeEvent, Simulation.run_update, keyArgument_of_length sized] at failed
  simp only [filled, ne_eq, not_true_eq_false, if_false] at failed
  split at failed
  · cases failed
  · next errno _ _ => exact ⟨errno, (Except.error.inj (Prod.mk.inj failed).1).symm⟩

def stored (entries : List (Cpu × Nat)) (slots : Array (Option Bytes)) : Array (Option Bytes) :=
  entries.foldl (fun slots entry =>
    slots.setIfInBounds entry.1.toNat (some (wordBytes 4 entry.2))) slots

theorem stored_append_singleton (entries : List (Cpu × Nat)) (cpu : Cpu) (fd : Nat)
    (slots : Array (Option Bytes)) :
    stored (entries ++ [(cpu, fd)]) slots =
      (stored entries slots).setIfInBounds cpu.toNat (some (wordBytes 4 fd)) := by
  simp only [stored, List.foldl_append, List.foldl_cons, List.foldl_nil]

end Descriptor

namespace PerfBuffer

section

variable {ρ : Type}

def asking (buffer : PerfBuffer ρ) : (Nat → RingRequest → RingOutcome ρ) × Nat :=
  (buffer.host.plan, buffer.host.requests)

@[simp] theorem release_asking (buffer : PerfBuffer ρ) (fd : Nat) :
    (buffer.release fd).asking = buffer.asking := by
  rw [release]
  split <;> rfl

@[simp] theorem abandon_asking (buffer : PerfBuffer ρ) (cpu : Cpu) (fd : Nat) :
    (buffer.abandon cpu fd).asking = buffer.asking := by
  have unwatched : (buffer.unwatch fd).2.asking = buffer.asking := by
    rw [unwatch]
    split
    · rfl
    · split <;> rfl
  rw [abandon]
  rcases found : buffer.unwatch fd with ⟨errno | _, after⟩
  · rw [found] at unwatched
    exact (release_asking ..).trans unwatched
  · rw [found] at unwatched
    exact (release_asking ..).trans unwatched

@[simp] theorem install_asking (buffer : PerfBuffer ρ) (reader : PerfReader) :
    (buffer.install reader).asking = buffer.asking := by
  rw [install]
  generalize buffer.readers.filter (fun other => other.cpu = reader.cpu) = replaced
  induction replaced using List.reverseRecOn with
  | nil => rfl
  | append_singleton earlier last ih => rw [List.foldl_append, List.foldl_cons, List.foldl_nil,
      release_asking, ih]

theorem openOne_asking {buffer : PerfBuffer ρ} (opened : buffer.holdings.watched ≠ none)
    (request : RingRequest) :
    (buffer.openOne request).2.asking = (buffer.host.plan, buffer.host.requests + 1) := by
  have asked : ({ buffer with host := (buffer.host.openRing request).2 } : PerfBuffer ρ).asking =
      (buffer.host.plan, buffer.host.requests + 1) := by
    simp only [PerfHost.openRing]
    split <;> rfl
  rw [openOne]
  split
  · next closed => exact absurd closed opened
  · next watched _ =>
      rcases found : buffer.host.openRing request with ⟨errno | ring, host⟩
      · rw [found] at asked
        exact asked
      · rw [found] at asked
        dsimp only
        split
        · exact (release_asking ..).trans asked
        · let started : PerfBuffer ρ :=
            { buffer with host, watched := some (watched ++ [⟨ring.fd, request.cpu⟩]) }
          have kept : (started.onMap (started.map.storeEvent request.cpu ring.fd)).2.asking =
            started.asking := rfl
          rcases outcome : started.onMap (started.map.storeEvent request.cpu ring.fd) with
            ⟨error | _, after⟩
          · rw [outcome] at kept
            exact (abandon_asking ..).trans (kept.trans asked)
          · rw [outcome] at kept
            exact (install_asking ..).trans (kept.trans asked)

def ringNumbers (first : Nat) (cpus : List Cpu) : List (Cpu × Nat) :=
  cpus.zipIdx.map fun entry => (entry.1, first + 2 * entry.2)

theorem ringNumbers_append_singleton (first : Nat) (cpus : List Cpu) (cpu : Cpu) :
    ringNumbers first (cpus ++ [cpu]) =
      ringNumbers first cpus ++ [(cpu, first + 2 * cpus.length)] := by
  simp [ringNumbers, List.zipIdx_append]

def storing (buffer : PerfBuffer ρ) (cpus : List Cpu) : Simulation :=
  buffer.map.storing (ringNumbers buffer.host.nextFd cpus) buffer.host.backend

/-- What opening on a CPU fails with, if it does, behind the CPUs that were opened before it. -/
def faultAt (buffer : PerfBuffer ρ) (options : PerfOptions) (before : List Cpu) (cpu : Cpu) :
    Option MapError :=
  let request : RingRequest := ⟨cpu, options.pages, options.wakeup⟩
  let outcome := buffer.host.plan (buffer.host.requests + before.length) request
  match outcome.content, outcome.watching with
  | .error errno, _ => some (.io (.system errno))
  | .ok _, some errno => some (.io (.system errno))
  | .ok _, none =>
      let fd := buffer.host.nextFd + 2 * before.length
      match ((buffer.storing before).run (buffer.map.storeEvent cpu fd)).1 with
      | .error error => some error
      | .ok _ => none

theorem faultAt_code {buffer : PerfBuffer ρ} (holds : buffer.map.HoldsEvents)
    {options : PerfOptions} {before : List Cpu} {cpu : Cpu} {source : MapError}
    (fault : buffer.faultAt options before cpu = some source) :
    ∃ errno, (source = .io (.system errno) ∨ source = .call .updatingValue (.system errno)) ∧
      (MapError.openOnCpu .ring cpu source).code = errno.number := by
  rw [faultAt] at fault
  dsimp only at fault
  split at fault
  · next errno _ =>
      obtain rfl := Option.some.inj fault
      exact ⟨errno, .inl rfl, rfl⟩
  · next errno _ _ =>
      obtain rfl := Option.some.inj fault
      exact ⟨errno, .inl rfl, rfl⟩
  · split at fault
    · next error failed =>
        obtain rfl := Option.some.inj fault
        obtain ⟨errno, rfl⟩ := Descriptor.storeEvent_fails holds (Prod.ext failed rfl)
        exact ⟨errno, .inr rfl, rfl⟩
    · cases fault

/-- The state of a buffer that stands open on some CPUs, where it was closed before. Rings, readers
and watches are in step, and the slots are what they were but for the rings of these CPUs. -/
structure StandsOpen (start : PerfBuffer ρ) (receiver : Nat) (cpus : List Cpu)
    (buffer : PerfBuffer ρ) : Prop where
  tended : buffer.holdings.Tended
  watched : buffer.holdings.watched ≠ none
  receiver : buffer.receiver = some receiver
  readers : ∀ cpu, cpu ∈ buffer.cpus ↔ cpu ∈ cpus
  slots : ∀ slots, start.host.backend.store = .references slots → buffer.host.backend.store =
    .references (Descriptor.stored (ringNumbers start.host.nextFd cpus) slots)

structure OpenedOn (start : PerfBuffer ρ) (receiver : Nat) (cpus : List Cpu)
    (buffer : PerfBuffer ρ) : Prop extends StandsOpen start receiver cpus buffer where
  map : buffer.map = start.map
  numbers : buffer.host.nextFd = start.host.nextFd + 2 * cpus.length
  asking : buffer.asking = (start.host.plan, start.host.requests + cpus.length)
  opened : buffer.holdings.opened = cpus.reverse ++ start.holdings.opened
  backend : buffer.host.backend = start.storing cpus

/-- The state of a buffer that was opened on some CPUs before it failed on one. Only this one was
tried behind them, and for it no more than one ring was opened and one entry tried. -/
structure StoppedAt (start : PerfBuffer ρ) (receiver : Nat) (before : List Cpu) (cpu : Cpu)
    (buffer : PerfBuffer ρ) : Prop extends StandsOpen start receiver before buffer where
  requests : buffer.host.requests = start.host.requests + before.length + 1
  opened : ∃ tried, tried <+: [cpu] ∧
    buffer.holdings.opened = (before ++ tried).reverse ++ start.holdings.opened
  backend : ∃ tried, tried <+: [cpu] ∧ buffer.host.backend = start.storing (before ++ tried)

variable {start buffer : PerfBuffer ρ} {receiver : Nat} {options : PerfOptions} {before : List Cpu}

theorem OpenedOn.of_closed (tended : start.holdings.Tended) (none : start.readers = [])
    (receiver : Nat) : start.OpenedOn receiver []
      { start with watched := some [], receiver := some receiver } := by
  refine ⟨⟨tended.start none receiver, Option.some_ne_none _, rfl, fun cpu => ?_, fun _ => id⟩,
    rfl, rfl, rfl, rfl, rfl⟩
  show cpu ∈ start.readers.map PerfReader.cpu ↔ _
  rw [none, List.map_nil]

theorem OpenedOn.storing_next (reached : start.OpenedOn receiver before buffer) (cpu : Cpu) :
    start.storing (before ++ [cpu]) =
      (buffer.host.backend.run (buffer.map.storeEvent cpu buffer.host.nextFd)).2 := by
  rw [storing, ringNumbers_append_singleton, Descriptor.storing_append_singleton, reached.backend,
    reached.map, reached.numbers]
  rfl

theorem OpenedOn.tries (reached : start.OpenedOn receiver before buffer) {request : RingRequest}
    {result : Except MapError Unit} {next : PerfBuffer ρ}
    (answered : buffer.openOne request = (result, next)) :
    buffer.holdings.Tries (start.host.plan (start.host.requests + before.length) request)
      request.cpu result next.holdings := by
  obtain ⟨plan, requests⟩ := Prod.mk.inj reached.asking
  rw [← plan, ← requests]
  have tries := openOne_tries reached.tended reached.watched request
  rwa [answered] at tries

theorem OpenedOn.asks (reached : start.OpenedOn receiver before buffer) {request : RingRequest}
    {result : Except MapError Unit} {next : PerfBuffer ρ}
    (answered : buffer.openOne request = (result, next)) :
    next.asking = (start.host.plan, start.host.requests + before.length + 1) := by
  obtain ⟨plan, requests⟩ := Prod.mk.inj reached.asking
  have asked := openOne_asking reached.watched request
  rwa [answered, plan, requests] at asked

theorem OpenedOn.stands (reached : start.OpenedOn receiver before buffer) {next : PerfBuffer ρ}
    {outcome : RingOutcome ρ} {cpu : Cpu} {error : MapError}
    (tries : buffer.holdings.Tries outcome cpu (.error error) next.holdings) :
    start.StandsOpen receiver before next := by
  have tended := (tries.opens reached.watched).tended reached.tended
  -- an attempt speaks of holdings alone, so they are split from the buffer that has them
  obtain ⟨watched, same, readers⟩ : next.holdings.watched ≠ none ∧
      next.holdings.receiver = buffer.receiver ∧ next.holdings.readers = buffer.readers := by
    have opened := reached.watched
    generalize next.holdings = after at tries
    cases tries <;> simp_all [Holdings.release, Holdings.offer, Holdings.grant, holdings]
  refine ⟨tended, watched, same.trans reached.receiver, fun other => ?_, fun slots began => ?_⟩
  · rw [← reached.readers]
    show other ∈ next.holdings.readers.map PerfReader.cpu ↔ _
    rw [readers]
    rfl
  · have holds := reached.slots slots began
    show next.holdings.backend.store = _
    generalize next.holdings = after at tries
    cases tries with
    | refused denied => exact holds
    | unwatched granted unwatched => exact holds
    | unstored granted watching failed =>
        rcases Simulation.storeEvent_slots holds failed with ⟨_, -, kept⟩ | ⟨done, -⟩
        · exact kept
        · cases done

theorem OpenedOn.fails (reached : start.OpenedOn receiver before buffer) {cpu : Cpu}
    {error : MapError} {next : PerfBuffer ρ}
    (answered : buffer.openOne ⟨cpu, options.pages, options.wakeup⟩ = (.error error, next)) :
    start.faultAt options before cpu = some error ∧ start.StoppedAt receiver before cpu next := by
  have tries := reached.tries answered
  have stands := reached.stands tries
  have requests := congrArg Prod.snd (reached.asks answered)
  have stored := reached.storing_next cpu
  have whole : buffer.host.backend = start.storing (before ++ []) := by
    rw [List.append_nil, reached.backend]
  have opened := reached.opened
  rw [faultAt]
  suffices facts : _ ∧ (∃ tried, tried <+: [cpu] ∧
      next.holdings.opened = (before ++ tried).reverse ++ start.holdings.opened) ∧
      ∃ tried, tried <+: [cpu] ∧ next.holdings.backend = start.storing (before ++ tried) from
    ⟨facts.1, stands, requests, facts.2.1, facts.2.2⟩
  generalize next.holdings = after at tries
  cases tries with
  | refused denied =>
      refine ⟨by simp only [denied], ⟨[], List.nil_prefix, ?_⟩, [], List.nil_prefix, whole⟩
      rw [List.append_nil, opened]
  | unwatched granted unwatched =>
      refine ⟨by simp only [granted, unwatched], ⟨[cpu], List.prefix_rfl, ?_⟩, [],
        List.nil_prefix, whole⟩
      simp [Holdings.release, Holdings.offer, Holdings.grant, opened]
  | unstored granted watching failed =>
      have missed : buffer.host.backend.run (buffer.map.storeEvent cpu buffer.host.nextFd) =
        (.error error, _) := failed
      refine ⟨?_, ⟨[cpu], List.prefix_rfl, ?_⟩, [cpu], List.prefix_rfl, ?_⟩
      · simp only [granted, watching, ← reached.backend, ← reached.map, ← reached.numbers, missed]
      · simp [Holdings.release, Holdings.offer, Holdings.grant, opened]
      · rw [stored, missed]
        rfl

theorem OpenedOn.passes (reached : start.OpenedOn receiver before buffer) {cpu : Cpu}
    {next : PerfBuffer ρ}
    (answered : buffer.openOne ⟨cpu, options.pages, options.wakeup⟩ = (.ok (), next)) :
    start.faultAt options before cpu = none ∧ start.OpenedOn receiver (before ++ [cpu]) next := by
  have tries := reached.tries answered
  have asked := reached.asks answered
  have tended := (tries.opens reached.watched).tended reached.tended
  have stored := reached.storing_next cpu
  suffices facts : start.faultAt options before cpu = none ∧ next.holdings.watched ≠ none ∧
      next.holdings.receiver = some receiver ∧ next.holdings.map = start.map ∧
      next.holdings.nextFd = start.host.nextFd + 2 * (before.length + 1) ∧
      next.holdings.opened = cpu :: buffer.holdings.opened ∧
      next.holdings.backend = start.storing (before ++ [cpu]) ∧
      (∀ other, other ∈ next.holdings.readers.map PerfReader.cpu ↔ other ∈ before ++ [cpu]) ∧
      ∀ slots, start.host.backend.store = .references slots → next.holdings.backend.store =
        .references (Descriptor.stored (ringNumbers start.host.nextFd (before ++ [cpu])) slots) by
    obtain ⟨none, watched, own, map, numbers, opened, backend, readers, slots⟩ := facts
    refine ⟨none, ⟨tended, watched, own, readers, slots⟩, map, ?_, ?_, ?_, backend⟩
    · rw [List.length_append]
      exact numbers
    · rw [asked, List.length_append]
      rfl
    · rw [opened, reached.opened]
      simp
  generalize next.holdings = after at tries
  cases tries with
  | placed granted watching succeeded =>
      have ran : buffer.host.backend.run (buffer.map.storeEvent cpu buffer.host.nextFd) =
        (.ok (), _) := succeeded
      refine ⟨?_, ?_, reached.receiver, reached.map, ?_, rfl, ?_, fun other => ?_, ?_⟩
      · rw [faultAt]
        simp only [granted, watching, ← reached.backend, ← reached.map, ← reached.numbers, ran]
      · have opened := reached.watched
        simpa [Holdings.placing, Holdings.release, Holdings.withReaders, Holdings.offer,
          Holdings.grant] using opened
      · show buffer.host.nextFd + 2 = _
        rw [reached.numbers]
        omega
      · rw [stored, ran]
        rfl
      · rw [List.mem_append, ← reached.readers, List.mem_singleton]
        exact PerfReader.mem_cpus_placed
      · intro slots began
        rw [ringNumbers_append_singleton, Descriptor.stored_append_singleton, ← reached.numbers]
        rcases Simulation.storeEvent_slots (reached.slots slots began) succeeded with
          ⟨_, impossible, -⟩ | ⟨-, -, set⟩
        · cases impossible
        · exact set

/-- Opening a closed buffer ends on all CPUs, or at the first one that fails. -/
theorem openOn_ends (tended : start.holdings.Tended) (closed : start.isOpen = false)
    (pages : ∃ exponent, options.pages = 2 ^ exponent) (cpus : List Cpu) (receiver : Nat) :
    OpeningEnds .ring (start.faultAt options) (start.OpenedOn receiver) (start.StoppedAt receiver)
      cpus (start.openOn cpus receiver options) := by
  have unwatched : start.watched = none := by simpa [isOpen] using closed
  have none : start.readers = [] := (tended.closed unwatched).1
  have each := @openingEach_ends _ .ring
    (fun buffer cpu => buffer.openOne ⟨cpu, options.pages, options.wakeup⟩)
    (start.faultAt options) (start.OpenedOn receiver) (start.StoppedAt receiver) ?_ ?_ _
    (.of_closed tended none receiver) cpus
  · rw [← openEach_eq] at each
    rw [openOn, PerfOptions.validate_eq_ok_iff.2 pages]
    dsimp only
    rw [if_neg (by simp [closed, none])]
    rcases found : ({ start with watched := some [], receiver := some receiver } :
      PerfBuffer ρ).openEach options cpus with ⟨error | _, after⟩
    · rw [found] at each
      exact each
    · rw [found] at each
      rcases each with ⟨whole, -, opened⟩ | ⟨before, cpu, source, -, impossible, -⟩
      · exact .inl ⟨whole, rfl, ⟨opened.tended, opened.watched, opened.receiver, opened.readers,
          opened.slots⟩, opened.map, opened.numbers, opened.asking, opened.opened, opened.backend⟩
      · cases impossible
  · intro before buffer cpu reached fault
    rcases answered : buffer.openOne ⟨cpu, options.pages, options.wakeup⟩ with ⟨error | _, next⟩
    · cases fault.symm.trans (reached.fails answered).1
    · exact ⟨next, rfl, (reached.passes answered).2⟩
  · intro before buffer cpu source reached fault
    rcases answered : buffer.openOne ⟨cpu, options.pages, options.wakeup⟩ with ⟨error | _, next⟩
    · obtain ⟨same, stopped⟩ := reached.fails answered
      obtain rfl := Option.some.inj (fault.symm.trans same)
      exact ⟨next, rfl, stopped⟩
    · cases fault.symm.trans (reached.passes answered).1

end

end PerfBuffer

namespace BufferLife

/-- At any time in the life of a freshly made buffer, opening it is refused and changes nothing
where the number of pages is no power of two or the buffer is open. Otherwise it ends on all CPUs or
at the first one that is refused something, and tells the number of what refused it. -/
theorem opening_ends_at_first_fault {map : Descriptor} {backend : Simulation}
    {plan : Nat → RingRequest → RingOutcome QueuedRing} {buffer current : PerfBuffer QueuedRing}
    (made : PerfBuffer.ofMap map { backend, plan } = .ok buffer) {events : List BufferEvent}
    (reached : ((alive buffer).run events).2 = alive current)
    (cpus : List Cpu) (receiver : Nat) (options : PerfOptions) :
    let outcome := current.openOn cpus receiver options
    ((¬∃ exponent, options.pages = 2 ^ exponent) →
        outcome = (.error (.invalidPageCount options.pages), current)) ∧
      ((∃ exponent, options.pages = 2 ^ exponent) →
        (current.isOpen = true →
          outcome = (.error (.alreadyOpen current.map.name), current)) ∧
        (current.isOpen = false →
          OpeningEnds .ring (current.faultAt options) (current.OpenedOn receiver)
              (current.StoppedAt receiver) cpus outcome ∧
            outcome.2.cpus.Pairwise (· < ·) ∧
            ∀ before cpu source, current.faultAt options before cpu = some source →
              ∃ errno, (source = .io (.system errno) ∨
                  source = .call .updatingValue (.system errno)) ∧
                (MapError.openOnCpu .ring cpu source).code = errno.number)) := by
  obtain ⟨checked, rfl⟩ := PerfBuffer.ofMap_eq_ok.1 made
  have tended : current.holdings.Tended := by
    have kept := run_tended (fresh_tended map backend plan) events
    rwa [reached] at kept
  have sameMap : current.map = map := by
    let made : PerfBuffer QueuedRing := { map, host := { backend, plan } }
    have kept := run_sameMap (show ((alive made).holdings map).map = map from rfl) events
    rwa [reached] at kept
  have holds : current.map.HoldsEvents := by
    rw [sameMap]
    exact Descriptor.holdsEvents_of_checkEvents checked
  refine ⟨fun odd => ?_, fun power => ⟨fun busy => ?_, fun closed => ⟨?_, ?_, ?_⟩⟩⟩
  · have refused : options.validate = .error (.invalidPageCount options.pages) := by
      rw [PerfOptions.validate, if_neg]
      exact fun log => odd ⟨_, log⟩
    rw [PerfBuffer.openOn, refused]
  · rw [PerfBuffer.openOn, PerfOptions.validate_eq_ok_iff.2 power]
    exact if_pos (.inl busy)
  · exact PerfBuffer.openOn_ends tended closed power cpus receiver
  · rw [PerfBuffer.cpus, List.pairwise_map]
    exact (PerfBuffer.openOn_tended tended cpus receiver options).ascending
  · intro before cpu source fault
    exact PerfBuffer.faultAt_code holds fault

def reopenable : PerfBuffer QueuedRing :=
  (stubbornBuffer.openOn [1] 1 {}).2.close.2

theorem reopening_stops_beyond_last_slot :
    PerfBuffer.ofMap eventMap
        { backend := stubbornArray, plan := fun _ _ => { content := .ok {} } } = .ok stubbornBuffer ∧
      ((alive stubbornBuffer).run [.openOn [1] 1 {}, .close]).2 = alive reopenable ∧
      (¬∃ exponent, 6 = 2 ^ exponent) ∧ (∃ exponent, 8 = 2 ^ exponent) ∧
      reopenable.isOpen = false ∧
      reopenable.openOn [2, 0, 2, 9, 1] 2 { pages := 6 } =
        (.error (.invalidPageCount 6), reopenable) ∧
      (reopenable.openOn [2, 0, 2, 9, 1] 2 {}).1 =
        .error (.openOnCpu .ring 9 (.call .updatingValue (.system .tooBig))) ∧
      (reopenable.openOn [2, 0, 2, 9, 1] 2 {}).2.cpus = [0, 2] ∧
      OpeningEnds .ring (reopenable.faultAt {}) (reopenable.OpenedOn 2) (reopenable.StoppedAt 2)
        [2, 0, 2, 9, 1] (reopenable.openOn [2, 0, 2, 9, 1] 2 {}) := by
  have made : PerfBuffer.ofMap eventMap
      { backend := stubbornArray, plan := fun _ _ => { content := .ok {} } } =
        .ok stubbornBuffer := rfl
  have reached : ((alive stubbornBuffer).run [.openOn [1] 1 {}, .close]).2 = alive reopenable := rfl
  have odd : ¬∃ exponent, 6 = 2 ^ exponent :=
    mt (@PerfOptions.validate_eq_ok_iff { pages := 6 }).2 (by decide)
  have power : ∃ exponent, 8 = 2 ^ exponent := ⟨3, rfl⟩
  have closed : reopenable.isOpen = false := by decide +kernel
  obtain ⟨refused, -⟩ :=
    opening_ends_at_first_fault made reached [2, 0, 2, 9, 1] 2 { pages := 6 }
  obtain ⟨-, opens⟩ := opening_ends_at_first_fault made reached [2, 0, 2, 9, 1] 2 {}
  exact ⟨made, reached, odd, power, closed, refused odd, by decide +kernel, by decide +kernel,
    ((opens power).2 closed).1⟩

end BufferLife

end KernelMaps
