import KernelMaps.Perf.Counters
import KernelMaps.Proofs.Map.OneCall
import KernelMaps.Proofs.Perf.Frames

/-!
The sizes of what perf buffers and counter arrays send to their map, over any backend. Together with
the other handles: no handle ever sends a key or a value of another size than its map has.
-/

namespace KernelMaps

namespace Descriptor

theorem storeEvent_fits (map : Descriptor) (cpu : Cpu) (fd : Nat) :
    (map.storeEvent cpu fd).Asks map.Fits :=
  map.update_asks _ _ 0

theorem eraseEvent_fits (map : Descriptor) (cpu : Cpu) : (map.eraseEvent cpu).Asks map.Fits := by
  refine (map.delete_asks _).tryCatch ?_
  intro error
  cases error <;> trivial

end Descriptor

namespace PerfBuffer

variable {ρ β : Type}

/-- Whether a buffer came from one state to another by calls that fit its map. -/
structure Reaches (before after : PerfBuffer ρ (Noting β)) : Prop where
  map : after.map = before.map
  asked : Noting.AskedSince before.map.Fits before.host.backend after.host.backend

namespace Reaches

theorem of_same {before after : PerfBuffer ρ (Noting β)} (map : after.map = before.map)
    (backend : after.host.backend = before.host.backend) : before.Reaches after :=
  ⟨map, backend ▸ .refl _⟩

theorem trans {first second third : PerfBuffer ρ (Noting β)} (lower : first.Reaches second)
    (upper : second.Reaches third) : first.Reaches third :=
  ⟨upper.map.trans lower.map, lower.asked.trans (lower.map ▸ upper.asked)⟩

end Reaches

section Calls

variable [Backend β]

theorem reaches_onMap {α : Type} {attempt : Attempt α} (buffer : PerfBuffer ρ (Noting β))
    (fits : attempt.Asks buffer.map.Fits) : buffer.Reaches (buffer.onMap attempt).2 :=
  ⟨rfl, Noting.askedSince_attempt fits buffer.host.backend⟩

theorem reaches_frame : Frame (Reaches : PerfBuffer ρ (Noting β) → PerfBuffer ρ (Noting β) → Prop) where
  trans := Reaches.trans
  arranged _ _ _ _ := .of_same rfl rfl
  log _ _ := .of_same rfl rfl
  openRing buffer request := by
    refine .of_same rfl ?_
    simp only [PerfHost.openRing]
    split <;> rfl
  closeRing _ _ := .of_same rfl rfl
  storeEvent buffer cpu fd := buffer.reaches_onMap (buffer.map.storeEvent_fits cpu fd)
  eraseEvent buffer cpu := buffer.reaches_onMap (buffer.map.eraseEvent_fits cpu)

theorem asked_drop (buffer : PerfBuffer ρ (Noting β)) :
    Noting.AskedSince buffer.map.Fits buffer.host.backend buffer.drop.backend := by
  have closed := (reaches_frame.close buffer).asked
  rw [drop]
  split
  · rcases found : buffer.close with ⟨error | _, after⟩
    · rw [found] at closed
      exact closed
    · rw [found] at closed
      exact closed
  · exact .refl _

end Calls

section Drains

variable [RingContent ρ]

theorem reaches_drainCpu (buffer : PerfBuffer ρ (Noting β)) (cpu : Cpu) :
    buffer.Reaches (buffer.drainCpu cpu).2 := by
  rw [drainCpu]
  split
  · split
    · exact .of_same rfl rfl
    · dsimp only
      split <;> exact .of_same rfl rfl
  · exact .of_same rfl rfl

theorem reaches_drainEach (buffer : PerfBuffer ρ (Noting β)) (cpus : List Cpu) :
    buffer.Reaches (buffer.drainEach cpus).2 := by
  induction cpus generalizing buffer with
  | nil => exact .of_same rfl rfl
  | cons cpu rest ih =>
      have first := buffer.reaches_drainCpu cpu
      rw [drainEach]
      rcases found : buffer.drainCpu cpu with ⟨error | _, after⟩
      · rw [found] at first
        exact first
      · rw [found] at first
        have others := ih after
        dsimp only
        rcases looked : after.drainEach rest with ⟨error | _, last⟩
        · rw [looked] at others
          exact first.trans others
        · rw [looked] at others
          exact first.trans others

theorem reaches_poll (buffer : PerfBuffer ρ (Noting β)) : buffer.Reaches buffer.poll.2 := by
  have drains (arrivals : List Nat) (cpus : List Cpu) :
      buffer.Reaches (({ buffer with host := { buffer.host with arrivals } } :
        PerfBuffer ρ (Noting β)).drainEach cpus).2 := by
    refine Reaches.trans ?_ (reaches_drainEach _ cpus)
    exact .of_same rfl rfl
  let ready := buffer.readyWatches.take buffer.readers.length
  have drained := drains (ready.map Watch.fd) (ready.map Watch.cpu)
  rw [poll]
  split
  · exact .of_same rfl rfl
  · dsimp only
    split
    · next found =>
        rw [found] at drained
        exact drained
    · next found =>
        rw [found] at drained
        exact drained

theorem reaches_awaitPoll (buffer : PerfBuffer ρ (Noting β)) :
    buffer.Reaches buffer.awaitPoll.2 := by
  rw [awaitPoll]
  split
  · exact buffer.reaches_poll
  · exact .of_same rfl rfl

end Drains

structure CallsFit [Backend β] [RingContent ρ] (buffer : PerfBuffer ρ (Noting β)) : Prop where
  openOn : ∀ cpus receiver options, buffer.Reaches (buffer.openOn cpus receiver options).2
  openAll : ∀ online receiver options, buffer.Reaches (buffer.openAll online receiver options).2
  poll : buffer.Reaches buffer.poll.2
  awaitPoll : buffer.Reaches buffer.awaitPoll.2
  consume : buffer.Reaches buffer.consume.2
  close : buffer.Reaches buffer.close.2
  drop : Noting.AskedSince buffer.map.Fits buffer.host.backend buffer.drop.backend

theorem callsFit [Backend β] [RingContent ρ] (buffer : PerfBuffer ρ (Noting β)) :
    buffer.CallsFit where
  openOn := reaches_frame.openOn buffer
  openAll := reaches_frame.openAll buffer
  poll := buffer.reaches_poll
  awaitPoll := buffer.reaches_awaitPoll
  consume := buffer.reaches_drainEach buffer.cpus
  close := reaches_frame.close buffer
  drop := buffer.asked_drop

end PerfBuffer

namespace CounterArray

variable {β : Type}

structure Reaches (before after : CounterArray (Noting β)) : Prop where
  map : after.map = before.map
  asked : Noting.AskedSince before.map.Fits before.host.backend after.host.backend

namespace Reaches

theorem of_same {before after : CounterArray (Noting β)} (map : after.map = before.map)
    (backend : after.host.backend = before.host.backend) : before.Reaches after :=
  ⟨map, backend ▸ .refl _⟩

theorem trans {first second third : CounterArray (Noting β)} (lower : first.Reaches second)
    (upper : second.Reaches third) : first.Reaches third :=
  ⟨upper.map.trans lower.map, lower.asked.trans (lower.map ▸ upper.asked)⟩

end Reaches

theorem reaches_install (array : CounterArray (Noting β)) (counter : LiveCounter) :
    array.Reaches (array.install counter) := by
  have closes (replaced : List LiveCounter) (host : CounterHost (Noting β)) :
      (replaced.foldl (fun host other => host.closeCounter other.fd) host).backend =
        host.backend := by
    induction replaced generalizing host with
    | nil => rfl
    | cons other rest ih => exact ih (host.closeCounter other.fd)
  exact .of_same rfl (closes _ _)

theorem reaches_openCounter (array : CounterArray (Noting β)) (request : CounterRequest) :
    array.Reaches { array with host := (array.host.openCounter request).2 } := by
  refine .of_same rfl ?_
  simp only [CounterHost.openCounter]
  split <;> rfl

variable [Backend β]

theorem reaches_onMap {α : Type} {attempt : Attempt α} (array : CounterArray (Noting β))
    (fits : attempt.Asks array.map.Fits) : array.Reaches (array.onMap attempt).2 :=
  ⟨rfl, Noting.askedSince_attempt fits array.host.backend⟩

theorem reaches_openOne (array : CounterArray (Noting β)) (options : CounterOptions) (cpu : Cpu) :
    array.Reaches (array.openOne options cpu).2 := by
  have opened := array.reaches_openCounter ⟨options.kind, options.config, options.pid, cpu⟩
  rw [openOne]
  rcases found : array.host.openCounter ⟨options.kind, options.config, options.pid, cpu⟩ with
    ⟨errno | fd, host⟩
  · rw [found] at opened
    exact opened
  · rw [found] at opened
    let started : CounterArray (Noting β) := { array with host }
    have stored := started.reaches_onMap (started.map.storeEvent_fits cpu fd)
    refine opened.trans ?_
    dsimp only
    rcases outcome : started.onMap (started.map.storeEvent cpu fd) with ⟨error | _, after⟩
    · rw [outcome] at stored
      exact stored.trans (.of_same rfl rfl)
    · rw [outcome] at stored
      exact stored.trans (after.reaches_install ⟨cpu, fd⟩)

theorem reaches_openEach (array : CounterArray (Noting β)) (options : CounterOptions)
    (cpus : List Cpu) : array.Reaches (array.openEach options cpus).2 := by
  induction cpus generalizing array with
  | nil => exact .of_same rfl rfl
  | cons cpu rest ih =>
      have first := array.reaches_openOne options cpu
      rw [openEach]
      rcases found : array.openOne options cpu with ⟨error | _, after⟩
      · rw [found] at first
        exact first
      · rw [found] at first
        exact first.trans (ih after)

theorem reaches_openOn (array : CounterArray (Noting β)) (cpus : List Cpu)
    (options : CounterOptions) : array.Reaches (array.openOn cpus options).2 := by
  have opened := array.reaches_openEach options cpus
  rw [openOn]
  split
  · exact .of_same rfl rfl
  · rcases found : array.openEach options cpus with ⟨error | _, after⟩
    · rw [found] at opened
      exact opened
    · rw [found] at opened
      exact opened.trans (.of_same rfl rfl)

theorem reaches_openAll (array : CounterArray (Noting β)) (online : Except Errno Bytes)
    (options : CounterOptions) : array.Reaches (array.openAll online options).2 := by
  rw [openAll]
  split
  · exact .of_same rfl rfl
  · exact array.reaches_openOn _ options

theorem reaches_closeOne (array : CounterArray (Noting β)) (counter : LiveCounter) :
    array.Reaches (array.closeOne counter).2 := by
  have erased := array.reaches_onMap (array.map.eraseEvent_fits counter.cpu)
  exact erased.trans (.of_same rfl rfl)

theorem reaches_closeEach (array : CounterArray (Noting β)) (counters : List LiveCounter) :
    array.Reaches (array.closeEach counters).2 := by
  induction counters generalizing array with
  | nil => exact .of_same rfl rfl
  | cons counter rest ih => exact (array.reaches_closeOne counter).trans (ih _)

theorem reaches_close (array : CounterArray (Noting β)) : array.Reaches array.close.2 := by
  let started : CounterArray (Noting β) := { array with counters := [] }
  have begun : array.Reaches started := .of_same rfl rfl
  exact begun.trans (started.reaches_closeEach array.counters)

theorem asked_drop (array : CounterArray (Noting β)) :
    Noting.AskedSince array.map.Fits array.host.backend array.drop.backend := by
  have closed := array.reaches_close.asked
  rw [drop]
  split
  · exact .refl _
  · rcases found : array.close with ⟨error | _, after⟩
    · rw [found] at closed
      exact closed
    · rw [found] at closed
      exact closed

structure CallsFit (array : CounterArray (Noting β)) : Prop where
  openOn : ∀ cpus options, array.Reaches (array.openOn cpus options).2
  openAll : ∀ online options, array.Reaches (array.openAll online options).2
  close : array.Reaches array.close.2
  drop : Noting.AskedSince array.map.Fits array.host.backend array.drop.backend

theorem callsFit (array : CounterArray (Noting β)) : array.CallsFit where
  openOn := array.reaches_openOn
  openAll := array.reaches_openAll
  close := array.reaches_close
  drop := array.asked_drop

end CounterArray

/-- Whether every handle over a map makes only calls that fit it, whatever the map replies and
whichever state a perf buffer or a counter array is in. -/
structure Descriptor.HandlesFit (map : Descriptor) : Prop where
  elements : map.CallsFit
  table : ∀ table : Table, table.map = map → table.CallsFit
  view : ∀ (κ ν : Type) [Element κ] (view : TypedMap κ ν), view.map = map → view.CallsFit
  snapshot : ∀ (ν : Type) (view : TypedMap UInt32 ν), view.map = map →
    view.snapshot.Asks view.map.Fits
  sequence : ∀ (α : Type) [Element α] (container : SequenceMap α), container.map = map →
    container.CallsFit
  stackTable : ∀ (σ χ : Type) (table : StackTable σ χ), table.map = map → table.CallsFit
  buildIdTable : ∀ table : BuildIdTable, table.map = map → table.CallsFit
  perfBuffer : ∀ (ρ β : Type) [RingContent ρ] [Backend β] (buffer : PerfBuffer ρ (Noting β)),
    buffer.map = map → buffer.CallsFit
  counterArray : ∀ (β : Type) [Backend β] (array : CounterArray (Noting β)), array.map = map →
    array.CallsFit

theorem Descriptor.handlesFit (map : Descriptor) : map.HandlesFit where
  elements := map.callsFit
  table table _ := table.callsFit
  view _ _ _ view _ := view.callsFit
  snapshot _ view _ := view.valuesFrom_fits [] 0 view.capacity
  sequence _ _ container _ := container.callsFit
  stackTable _ _ table _ := table.callsFit
  buildIdTable table _ := table.callsFit
  perfBuffer _ _ _ _ buffer _ := buffer.callsFit
  counterArray _ _ array _ := array.callsFit

end KernelMaps
