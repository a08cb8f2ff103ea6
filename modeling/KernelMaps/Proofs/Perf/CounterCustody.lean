import KernelMaps.Proofs.Perf.Custody
import KernelMaps.Proofs.Perf.FirstFault

/-!
What stays in step while an array of counters is opened and closed: the counters that are held, the
descriptors that were granted and closed, and the slots of the event array. A descriptor is closed
as soon as nothing holds it any more, whatever failed before.
-/

namespace KernelMaps

open PerfReader (placed replaced mem_placed placed_perm placed_ascending)

def LiveCounter.holder (counter : LiveCounter) : PerfReader :=
  ⟨counter.cpu, counter.fd, counter.fd⟩

def CounterOptions.request (options : CounterOptions) (cpu : Cpu) : CounterRequest :=
  ⟨options.kind, options.config, options.pid, cpu⟩

namespace CounterHost

variable {β : Type}

/-- The counters that were granted, oldest first, with their numbers, which are given out in
ascending order. -/
def grants (host : CounterHost β) : List (CounterRequest × Nat) :=
  host.opened.reverse.zipIdx 3

def grantedFds (host : CounterHost β) : List Nat :=
  host.grants.map Prod.snd

theorem grants_cons {host later : CounterHost β} {request : CounterRequest}
    (opened : later.opened = request :: host.opened) :
    later.grants = host.grants ++ [(request, 3 + host.opened.length)] := by
  rw [grants, opened, List.reverse_cons, List.zipIdx_append]
  simp [grants]

theorem nodup_grantedFds (host : CounterHost β) : host.grantedFds.Nodup := by
  rw [grantedFds, grants, List.zipIdx_map_snd]
  exact List.nodup_range' 1

end CounterHost

namespace CounterArray

section

variable {β : Type}

theorem ofMap_eq_ok {map : Descriptor} {host : CounterHost β} {array : CounterArray β} :
    ofMap map host = .ok array ↔ map.checkEvents = .ok () ∧ { map, host } = array := by
  rw [ofMap, bind_eq_ok]
  constructor
  · rintro ⟨_, checked, same⟩
    exact ⟨checked, Except.ok.inj same⟩
  · rintro ⟨checked, same⟩
    exact ⟨(), checked, congrArg _ same⟩

def holders (array : CounterArray β) : List PerfReader :=
  array.counters.map LiveCounter.holder

theorem holders_cpu (array : CounterArray β) : array.holders.map PerfReader.cpu = array.cpus := by
  simp [holders, cpus, LiveCounter.holder]

theorem holders_fd (array : CounterArray β) :
    array.holders.map PerfReader.fd = array.counters.map LiveCounter.fd := by
  simp [holders, LiveCounter.holder]

def asked (array : CounterArray β) (request : CounterRequest) : CounterArray β :=
  { array with host := { array.host with requests := request :: array.host.requests } }

def granted (array : CounterArray β) (request : CounterRequest) (backend : β) : CounterArray β :=
  { array with host := { array.host with
      backend
      requests := request :: array.host.requests
      opened := request :: array.host.opened
      nextFd := array.host.nextFd + 1 } }

def closing (array : CounterArray β) (fds : List Nat) : CounterArray β :=
  { array with host := { array.host with closed := fds.reverse ++ array.host.closed } }

theorem closeCounters_eq (counters : List LiveCounter) (host : CounterHost β) :
    counters.foldl (fun host counter => host.closeCounter counter.fd) host =
      { host with closed := (counters.map LiveCounter.fd).reverse ++ host.closed } := by
  induction counters generalizing host with
  | nil => rfl
  | cons counter rest ih =>
      rw [List.foldl_cons, ih]
      simp [CounterHost.closeCounter]

theorem install_eq (array : CounterArray β) (counter : LiveCounter) :
    (array.install counter).holders = placed array.holders counter.holder ∧
      (array.install counter).host =
        (array.closing ((replaced array.holders counter.cpu).map PerfReader.fd)).host ∧
      (array.install counter).map = array.map := by
  refine ⟨?_, ?_, rfl⟩
  · simp only [holders, install, placed, List.map_append, List.map_cons, List.filter_map]
    rfl
  · simp only [install, closeCounters_eq, closing, replaced, holders, List.filter_map, List.map_map]
    rfl

/-! One CPU. -/

variable [Backend β]

theorem openOne_refused {array : CounterArray β} {options : CounterOptions} {cpu : Cpu}
    {errno : Errno} (denied : array.host.plan array.host.requests.length (options.request cpu) =
      .error errno) :
    array.openOne options cpu =
      (.error (.io (.system errno)), array.asked (options.request cpu)) := by
  simp only [CounterOptions.request] at denied
  simp only [openOne, CounterHost.openCounter, denied]
  rfl

theorem openOne_unstored {array : CounterArray β} {options : CounterOptions} {cpu : Cpu}
    {error : MapError} {after : β}
    (allowed : array.host.plan array.host.requests.length (options.request cpu) = .ok ())
    (failed : Backend.run array.host.backend (array.map.storeEvent cpu array.host.nextFd) =
      (.error error, after)) :
    array.openOne options cpu =
      (.error error, (array.granted (options.request cpu) after).closing [array.host.nextFd]) := by
  simp only [CounterOptions.request] at allowed
  simp only [openOne, CounterHost.openCounter, allowed, onMap, CounterHost.onMap, EventHost.onMap,
    failed]
  rfl

theorem openOne_placed {array : CounterArray β} {options : CounterOptions} {cpu : Cpu} {after : β}
    (allowed : array.host.plan array.host.requests.length (options.request cpu) = .ok ())
    (stored : Backend.run array.host.backend (array.map.storeEvent cpu array.host.nextFd) =
      (.ok (), after)) :
    array.openOne options cpu =
      (.ok (), (array.granted (options.request cpu) after).install ⟨cpu, array.host.nextFd⟩) := by
  simp only [CounterOptions.request] at allowed
  simp only [openOne, CounterHost.openCounter, allowed, onMap, CounterHost.onMap, EventHost.onMap,
    stored]
  rfl

/-- What opening on a CPU fails with, if it does, behind the CPUs that were opened before it. -/
def faultAt (array : CounterArray β) (options : CounterOptions) (before : List Cpu) (cpu : Cpu) :
    Option MapError :=
  match array.host.plan (array.host.requests.length + before.length) (options.request cpu) with
  | .error errno => some (.io (.system errno))
  | .ok _ =>
      let stored := array.map.storing (before.zipIdx array.host.nextFd) array.host.backend
      let fd := array.host.nextFd + before.length
      match (Backend.run stored (array.map.storeEvent cpu fd)).1 with
      | .error error => some error
      | .ok _ => none

structure OpenedOn (start : CounterArray β) (options : CounterOptions) (cpus : List Cpu)
    (array : CounterArray β) : Prop where
  map : array.map = start.map
  plan : array.host.plan = start.host.plan
  numbers : array.host.nextFd = start.host.nextFd + cpus.length
  requests : array.host.requests = (cpus.map options.request).reverse ++ start.host.requests
  backend : array.host.backend =
    start.map.storing (cpus.zipIdx start.host.nextFd) start.host.backend
  opened : ∀ cpu, cpu ∈ array.cpus ↔ cpu ∈ cpus

/-- The state of an array that was opened on some CPUs before it failed on one. Nothing was asked
for any CPU behind it. -/
structure StoppedAt (start : CounterArray β) (options : CounterOptions) (before : List Cpu)
    (cpu : Cpu) (array : CounterArray β) : Prop where
  opened : ∀ other, other ∈ array.cpus ↔ other ∈ before
  requests : array.host.requests =
    ((before ++ [cpu]).map options.request).reverse ++ start.host.requests
  backend :
    array.host.backend = start.map.storing (before.zipIdx start.host.nextFd) start.host.backend ∨
      array.host.backend =
        start.map.storing ((before ++ [cpu]).zipIdx start.host.nextFd) start.host.backend

variable {start array : CounterArray β} {options : CounterOptions} {before : List Cpu}

theorem OpenedOn.of_closed (closed : start.counters = []) : start.OpenedOn options [] start := by
  refine ⟨rfl, rfl, rfl, rfl, rfl, fun cpu => ?_⟩
  rw [cpus, closed, List.map_nil]

omit [Backend β] in
theorem mem_cpus_of_install {counter : LiveCounter} {cpu : Cpu} :
    cpu ∈ (array.install counter).cpus ↔ cpu ∈ array.cpus ∨ cpu = counter.cpu := by
  rw [← holders_cpu, (array.install_eq counter).1, ← holders_cpu]
  exact PerfReader.mem_cpus_placed

theorem OpenedOn.passes (reached : start.OpenedOn options before array) {cpu : Cpu}
    (none : start.faultAt options before cpu = none) :
    ∃ next, array.openOne options cpu = (.ok (), next) ∧
      start.OpenedOn options (before ++ [cpu]) next := by
  obtain ⟨map, plan, numbers, requests, backend, opened⟩ := reached
  rw [faultAt] at none
  split at none
  · cases none
  · next allowed =>
      dsimp only at none
      split at none
      · cases none
      · next stored =>
          rw [← backend, ← map, ← numbers] at stored
          have asking :
              start.host.requests.length + before.length = array.host.requests.length := by
            simp [requests, Nat.add_comm]
          rw [← plan, asking] at allowed
          refine ⟨_, openOne_placed allowed (Prod.ext stored rfl), map, ?_, ?_, ?_, ?_, ?_⟩
          · rw [(install_eq ..).2.1]
            exact plan
          · rw [(install_eq ..).2.1]
            simp only [closing, granted, numbers, List.length_append, List.length_singleton]
            omega
          · rw [(install_eq ..).2.1]
            simp only [closing, granted, requests, List.map_append, List.reverse_append]
            simp
          · rw [(install_eq ..).2.1]
            simp only [closing, granted, List.zipIdx_append, List.zipIdx_cons, List.zipIdx_nil,
              Descriptor.storing_append_singleton, backend, map, numbers]
          · intro other
            rw [mem_cpus_of_install, List.mem_append, List.mem_singleton, ← opened]
            rfl

theorem OpenedOn.fails (reached : start.OpenedOn options before array) {cpu : Cpu}
    {source : MapError} (fault : start.faultAt options before cpu = some source) :
    ∃ next, array.openOne options cpu = (.error source, next) ∧
      start.StoppedAt options before cpu next := by
  obtain ⟨map, plan, numbers, requests, backend, opened⟩ := reached
  have asking : start.host.requests.length + before.length = array.host.requests.length := by
    simp [requests, Nat.add_comm]
  have asked : options.request cpu :: array.host.requests =
      ((before ++ [cpu]).map options.request).reverse ++ start.host.requests := by
    simp [requests]
  rw [faultAt, asking, ← plan] at fault
  split at fault
  · next errno denied =>
      obtain rfl := Option.some.inj fault
      exact ⟨_, openOne_refused denied, opened, asked, .inl backend⟩
  · next allowed =>
      dsimp only at fault
      split at fault
      · next error failed =>
          obtain rfl := Option.some.inj fault
          rw [← backend, ← map, ← numbers] at failed
          refine ⟨_, openOne_unstored allowed (Prod.ext failed rfl), opened, asked, .inr ?_⟩
          simp only [closing, granted, List.zipIdx_append, List.zipIdx_cons, List.zipIdx_nil,
            Descriptor.storing_append_singleton, backend, map, numbers]
      · cases fault

theorem openOn_ends (closed : array.counters = []) (cpus : List Cpu) :
    OpeningEnds .counter (array.faultAt options) (array.OpenedOn options) (array.StoppedAt options)
      cpus (array.openOn cpus options) := by
  have each := @openingEach_ends _ .counter (fun array cpu => array.openOne options cpu)
    (array.faultAt options) (array.OpenedOn options) (array.StoppedAt options)
    (fun _ _ _ reached => reached.passes) (fun _ _ _ _ reached => reached.fails) array
    (.of_closed closed) cpus
  rw [← openEach_eq] at each
  rw [openOn, if_neg (not_not.2 closed)]
  rcases found : array.openEach options cpus with ⟨error | _, after⟩
  · rw [found] at each
    exact each
  · rw [found] at each
    rcases each with ⟨whole, -, opened⟩ | ⟨before, cpu, source, -, impossible, -⟩
    · exact .inl ⟨whole, rfl, opened.map, opened.plan, opened.numbers, opened.requests,
        opened.backend, opened.opened⟩
    · cases impossible

end

/-- Every number that was granted is closed, or it is that of one counter, which was granted for its
CPU; and none is both, nor closed twice. -/
structure Accounted (array : CounterArray) : Prop where
  numbers : array.host.nextFd = 3 + array.host.opened.length
  closed : (array.host.closed ++ array.counters.map LiveCounter.fd).Perm array.host.grantedFds
  granted : ∀ counter ∈ array.counters, ∃ request, (request, counter.fd) ∈ array.host.grants ∧
    request.cpu = counter.cpu

structure Sound (initial : Array (Option Bytes)) (reported : Nat → Bytes → Prop)
    (array : CounterArray) : Prop where
  keys : array.map.keySize = 4
  ascending : array.cpus.Pairwise (· < ·)
  accounted : array.Accounted
  entries : ∃ slots, array.host.backend.HoldsSlots slots ∧
    Entries initial reported array.holders slots

variable {initial : Array (Option Bytes)} {reported : Nat → Bytes → Prop} {array : CounterArray}

theorem Sound.mono {extended : Nat → Bytes → Prop} (sound : array.Sound initial reported)
    (kept : ∀ index entry, reported index entry → extended index entry) :
    array.Sound initial extended := by
  obtain ⟨slots, holds, size, own, other⟩ := sound.entries
  refine { sound with entries := ⟨slots, holds, size, own, fun index free => ?_⟩ }
  rcases other index free with first | empty | ⟨entry, known, held⟩
  · exact .inl first
  · exact .inr (.inl empty)
  · exact .inr (.inr ⟨entry, kept index entry known, held⟩)

theorem Accounted.congr {other : CounterArray} (accounted : array.Accounted)
    (counters : other.counters = array.counters) (nextFd : other.host.nextFd = array.host.nextFd)
    (opened : other.host.opened = array.host.opened)
    (closed : other.host.closed = array.host.closed) : other.Accounted := by
  obtain ⟨numbers, balance, granted⟩ := accounted
  refine ⟨?_, ?_, ?_⟩
  · rw [nextFd, opened, numbers]
  · rwa [CounterHost.grantedFds, CounterHost.grants, opened, closed, counters]
  · rwa [CounterHost.grants, opened, counters]

theorem Sound.log (sound : array.Sound initial reported) (line : LogLine) :
    ({ array with host := array.host.log line } : CounterArray).Sound initial reported := by
  obtain ⟨keys, ascending, accounted, entries⟩ := sound
  exact ⟨keys, ascending, accounted.congr rfl rfl rfl rfl, entries⟩

theorem Accounted.grant (accounted : array.Accounted) {request : CounterRequest}
    {backend : Simulation} {next : CounterArray} {closed : List Nat}
    (host : next.host = ((array.granted request backend).closing closed).host)
    (split : (array.counters.map LiveCounter.fd ++ [array.host.nextFd]).Perm
      (closed ++ next.counters.map LiveCounter.fd))
    (kept : ∀ counter ∈ next.counters, counter ∈ array.counters ∨
      counter = ⟨request.cpu, array.host.nextFd⟩) : next.Accounted := by
  obtain ⟨numbers, balance, granted⟩ := accounted
  have grants : next.host.grants = array.host.grants ++ [(request, array.host.nextFd)] := by
    rw [numbers]
    exact CounterHost.grants_cons (by rw [host]; rfl)
  refine ⟨?_, ?_, ?_⟩
  · rw [host]
    simp only [closing, CounterArray.granted, numbers, List.length_cons]
    omega
  · have listed : next.host.closed = closed.reverse ++ array.host.closed := by rw [host]; rfl
    rw [CounterHost.grantedFds, grants, List.map_append, listed]
    refine List.Perm.trans ?_ (balance.append_right [array.host.nextFd])
    rw [List.append_assoc, List.append_assoc]
    refine List.Perm.trans ?_ (split.symm.append_left array.host.closed)
    rw [← List.append_assoc, ← List.append_assoc]
    exact ((List.reverse_perm closed).append_right _ |>.trans List.perm_append_comm).append_right _
  · intro counter member
    rw [grants]
    rcases kept counter member with held | rfl
    · obtain ⟨asked, listed, cpu⟩ := granted counter held
      exact ⟨asked, List.mem_append_left _ listed, cpu⟩
    · exact ⟨request, List.mem_append_right _ (List.mem_singleton_self _), rfl⟩

theorem holders_ascending (ascending : array.cpus.Pairwise (· < ·)) :
    array.holders.Pairwise fun first second => first.cpu < second.cpu := by
  rwa [← List.pairwise_map, holders_cpu]

theorem mem_install {counter other : LiveCounter} :
    other ∈ (array.install counter).counters ↔
      other = counter ∨ other ∈ array.counters ∧ other.cpu ≠ counter.cpu := by
  have order : other.cpu ≠ counter.cpu ↔ other.cpu < counter.cpu ∨ counter.cpu < other.cpu := by
    rw [UInt32.lt_iff_toNat_lt, UInt32.lt_iff_toNat_lt, ne_eq, ← UInt32.toNat_inj]
    omega
  simp only [install, List.mem_append, List.mem_cons, List.mem_filter, decide_eq_true_eq, order]
  tauto

theorem openOne_sound (sound : array.Sound initial reported) (options : CounterOptions)
    (cpu : Cpu) : (array.openOne options cpu).2.Sound initial reported := by
  obtain ⟨keys, ascending, accounted, slots, holds, entries⟩ := sound
  cases asked : array.host.plan array.host.requests.length (options.request cpu) with
  | error errno =>
      rw [openOne_refused asked]
      exact ⟨keys, ascending, accounted.congr rfl rfl rfl rfl, slots, holds, entries⟩
  | ok _ =>
      rcases holds.storeEvent array.map cpu array.host.nextFd with
        ⟨error, after, failed, kept⟩ | ⟨after, stored, inside, set⟩
      · rw [openOne_unstored asked failed]
        refine ⟨keys, ascending, accounted.grant rfl ?_ fun _ => .inl, slots, kept, entries⟩
        exact List.perm_append_comm
      · rw [openOne_placed asked stored]
        let counter : LiveCounter := ⟨cpu, array.host.nextFd⟩
        have placing : Entries initial reported (placed array.holders counter.holder)
          (slots.setIfInBounds cpu.toNat (some (wordBytes 4 counter.fd))) := entries.place inside
        have split := (placed_perm array.holders counter.holder).map PerfReader.fd
        obtain ⟨holders, host, map⟩ :=
          (array.granted (options.request cpu) after).install_eq counter
        change (install _ counter).holders = placed array.holders counter.holder at holders
        rw [List.map_append, List.map_append, holders_fd, ← holders, holders_fd] at split
        refine ⟨keys, ?_, accounted.grant host split ?_, _, host ▸ set, holders ▸ placing⟩
        · rw [← holders_cpu, holders, List.pairwise_map]
          exact placed_ascending _ (holders_ascending ascending)
        · intro other member
          rcases mem_install.1 member with rfl | ⟨held, -⟩
          · exact .inr rfl
          · exact .inl held

theorem openEach_sound (sound : array.Sound initial reported) (options : CounterOptions)
    (cpus : List Cpu) : (array.openEach options cpus).2.Sound initial reported := by
  induction cpus generalizing array with
  | nil => exact sound
  | cons cpu rest ih =>
      have first := openOne_sound sound options cpu
      rw [openEach]
      rcases found : array.openOne options cpu with ⟨error | _, after⟩
      · rw [found] at first
        exact first
      · rw [found] at first
        exact ih first

theorem openOn_sound (sound : array.Sound initial reported) (cpus : List Cpu)
    (options : CounterOptions) : (array.openOn cpus options).2.Sound initial reported := by
  have opened := openEach_sound sound options cpus
  rw [openOn]
  split
  · exact sound
  · rcases found : array.openEach options cpus with ⟨error | _, after⟩
    · rw [found] at opened
      exact opened
    · rw [found] at opened
      exact opened.log _

theorem openAll_sound (sound : array.Sound initial reported) (online : Except Errno Bytes)
    (options : CounterOptions) : (array.openAll online options).2.Sound initial reported := by
  rw [openAll]
  split
  · exact sound
  · exact openOn_sound sound _ options

def withBackend (array : CounterArray) (backend : Simulation) : CounterArray :=
  { array with host := { array.host with backend } }

theorem closeOne_clears {counter : LiveCounter} {slots : Array (Option Bytes)}
    (keys : array.map.keySize = 4) (holds : array.host.backend.HoldsSlots slots) :
    ∃ failures backend after,
      array.closeOne counter = (failures, (array.withBackend backend).closing [counter.fd]) ∧
      backend.HoldsSlots after ∧ Cleared [counter.holder] failures slots after := by
  rcases holds.eraseEvent keys counter.cpu with
    ⟨errno, backend, failed, kept⟩ | ⟨backend, removed, inside, set⟩
  · have erased : Backend.run array.host.backend (array.map.eraseEvent counter.cpu) = _ := failed
    refine ⟨[counter.holder.removalFailure errno], backend, slots, ?_, kept, rfl, fun index => ?_⟩
    · simp only [closeOne, onMap, CounterHost.onMap, EventHost.onMap, erased]
      rfl
    · refine .inr ⟨rfl, fun holder member _ => ⟨errno, ?_⟩⟩
      rw [List.mem_singleton.1 member]
      exact List.mem_singleton_self _
  · have erased : Backend.run array.host.backend (array.map.eraseEvent counter.cpu) = _ := removed
    refine ⟨[], backend, _, ?_, set, ?_, fun index => ?_⟩
    · simp only [closeOne, onMap, CounterHost.onMap, EventHost.onMap, erased]
      rfl
    · exact Array.size_setIfInBounds ..
    · rw [Array.getElem?_setIfInBounds]
      by_cases here : counter.cpu.toNat = index
      · rw [if_pos here, if_pos (here ▸ inside)]
        exact .inl rfl
      · rw [if_neg here]
        refine .inr ⟨rfl, fun holder member taken => absurd taken ?_⟩
        rwa [List.mem_singleton.1 member]

theorem closeEach_clears {counters : List LiveCounter} {slots : Array (Option Bytes)}
    (keys : array.map.keySize = 4) (holds : array.host.backend.HoldsSlots slots) :
    ∃ failures backend after, array.closeEach counters =
        (failures, (array.withBackend backend).closing (counters.map LiveCounter.fd)) ∧
      backend.HoldsSlots after ∧
      Cleared (counters.map LiveCounter.holder) failures slots after := by
  induction counters generalizing array slots with
  | nil => exact ⟨[], array.host.backend, slots, rfl, holds, rfl, by simp⟩
  | cons counter rest ih =>
      obtain ⟨failures, between, middle, first, held, begun⟩ := closeOne_clears keys holds
      obtain ⟨more, backend, after, others, last, cleared⟩ :=
        @ih ((array.withBackend between).closing [counter.fd]) middle keys held
      refine ⟨failures ++ more, backend, after, ?_, last, begun.trans cleared⟩
      simp only [closeEach, first, others]
      simp [withBackend, closing]

/-- Closing closes every descriptor, whatever fails; a slot that was not emptied is reported. -/
theorem close_sound (sound : array.Sound initial reported) :
    ∃ failures closed, array.close = (closingResult failures, closed) ∧ closed.counters = [] ∧
      closed.host.closed.Perm closed.host.grantedFds ∧
      ∀ extended : Nat → Bytes → Prop,
        (∀ index entry, reported index entry → extended index entry) →
        (∀ counter ∈ array.counters, ∀ errno, counter.holder.removalFailure errno ∈ failures →
          extended counter.cpu.toNat (wordBytes 4 counter.fd)) →
        closed.Sound initial extended := by
  obtain ⟨keys, ascending, accounted, slots, holds, entries⟩ := sound
  let started : CounterArray := { array with counters := [] }
  obtain ⟨failures, backend, after, closing, held, cleared⟩ :=
    @closeEach_clears started array.counters slots keys holds
  have balance : ((array.counters.map LiveCounter.fd).reverse ++ array.host.closed).Perm
      array.host.grantedFds :=
    ((List.reverse_perm _).append_right _ |>.trans List.perm_append_comm).trans accounted.closed
  refine ⟨failures, _, by simp only [close, started] at closing ⊢; rw [closing], rfl, balance, ?_⟩
  intro extended kept added
  refine ⟨keys, .nil, ⟨accounted.numbers, ?_, ?_⟩, after, held, ?_⟩
  · exact (List.append_nil _).symm ▸ balance
  · exact fun counter member => absurd member List.not_mem_nil
  · refine entries.clear cleared kept fun holder member errno listed => ?_
    obtain ⟨counter, held, rfl⟩ := List.mem_map.1 member
    exact added counter held errno listed

end CounterArray

end KernelMaps
