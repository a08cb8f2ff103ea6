import KernelMaps.Proofs.Map.ViewSizes
import KernelMaps.Proofs.Perf.Frames
import KernelMaps.Proofs.Perf.Lifecycle
import KernelMaps.Proofs.Stack.Caches
import KernelMaps.Proofs.Stack.Frames
import KernelMaps.Stack.BuildId

/-!
Sizes in the calls on every sort of handle. Stack tables and the arrays of events meet no errors about
them either, so that a handle which could be made does so only where values for each CPU are taken for
single ones or are not as many as the CPUs, or where an array of maps has keys that are no indices.
-/

namespace KernelMaps

open MapError (SparesSizes)

def Spared {α : Type} (outcome : Except MapError α) : Prop :=
  Attempt.Outcome (fun _ => True) SparesSizes outcome

/-! Stacks. -/

namespace Descriptor

structure HoldsStacks (map : Descriptor) : Prop where
  keyed : map.kind.isKeyless = false
  keySize : map.keySize = 4

theorem holdsStacks_of_checkFrames {map : Descriptor} {frameSize : Nat} (positive : 0 < frameSize)
    {result : Unit} (checked : map.checkFrames frameSize = .ok result) : map.HoldsStacks := by
  obtain ⟨_, holds⟩ := (checkFrames_eq_ok positive).1 checked
  exact ⟨holds.keyed, holds.keySize⟩

end Descriptor

theorem storedFrames_ends {α : Type} [Element α] (empty : α) {map : Descriptor}
    (holds : map.HoldsStacks) (id : StackId) :
    (storedFrames α empty map id).Ends (fun _ => True) SparesSizes := by
  rw [storedFrames]
  split
  · exact Attempt.ends_pure trivial
  · next key _ =>
      have fits : (Element.encode key).length = map.callKeySize := by
        rw [Descriptor.callKeySize_of_keyed holds.keyed, holds.keySize]
        exact Element.encode_length key
      exact (Descriptor.lookup_ends fits).bind fun _ _ => Attempt.ends_pure trivial

namespace StackTable

variable {σ χ β : Type} [Backend β] {symbolizer : Symbolizer σ χ}

theorem addresses_ends {table : StackTable σ χ} (holds : table.map.HoldsStacks) (id : StackId) :
    (table.addresses id).Ends (fun _ => True) SparesSizes := by
  refine (storedFrames_ends 0 holds id).bind ?_
  intro stored _
  cases stored <;> exact Attempt.ends_pure trivial

theorem answer_spared {state : StackTable σ χ × β} (holds : state.1.map.HoldsStacks)
    (call : StackCall) : Spared (answer symbolizer call state).1 := by
  cases call with
  | raw id => exact ((storedFrames_ends 0 holds id).run state.2).map _
  | addresses id => exact ((addresses_ends holds id).run state.2).map _
  | symbols id pid =>
      have found := (addresses_ends holds id).run state.2
      rw [answer, run_symbols]
      rcases looked : Backend.run state.2 (state.1.addresses id) with ⟨error | addresses, after⟩
      · exact found.of_error (congrArg Prod.fst looked)
      · trivial
  | release pid => trivial
  | clear => exact ((clearIndices_ends (.inl holds.keySize)).run state.2).map _

theorem runCalls_spared {map : Descriptor} {options : SymbolOptions} {table : StackTable σ χ}
    (made : ofMap map options symbolizer = .ok table) (backend : β) (calls : List StackCall) :
    ∀ outcome ∈ (runCalls (answer symbolizer) calls (table, backend)).1, Spared outcome := by
  have told : Told symbolizer map options table := .of_ofMap made
  rw [ofMap, bind_eq_ok] at made
  obtain ⟨_, checked, -⟩ := made
  have holds := Descriptor.holdsStacks_of_checkFrames (by decide) checked
  refine runCalls_forall (fun state => Told symbolizer map options state.1) ?_ calls told
  intro call state told
  exact ⟨answer_spared (told.sameMap ▸ holds) call, told.answer call⟩

end StackTable

inductive BuildIdCall (σ : Type) where
  | raw (id : StackId)
  | frames (id : StackId)
  | symbols (resolver : FrameResolver σ) (state : σ) (id : StackId)
  | clear

def BuildIdCall.attempt {σ : Type} (table : BuildIdTable) : BuildIdCall σ → Attempt Unit
  | raw id => do let _ ← table.raw id
  | frames id => do let _ ← table.frames id
  | symbols resolver state id => do let _ ← table.symbols resolver state id
  | clear => table.clear

namespace BuildIdTable

theorem frames_ends {table : BuildIdTable} (holds : table.map.HoldsStacks) (id : StackId) :
    (table.frames id).Ends (fun _ => True) SparesSizes := by
  refine (storedFrames_ends BuildIdFrame.empty holds id).bind ?_
  intro stored _
  cases stored <;> exact Attempt.ends_pure trivial

theorem symbols_ends {σ : Type} {table : BuildIdTable} (holds : table.map.HoldsStacks)
    (resolver : FrameResolver σ) (state : σ) (id : StackId) :
    (table.symbols resolver state id).Ends (fun _ => True) SparesSizes :=
  (frames_ends holds id).bind fun _ _ => Attempt.ends_pure trivial

theorem sizesFit {map : Descriptor} {table : BuildIdTable} (made : ofMap map = .ok table)
    (σ : Type) : SizesFit fun call : BuildIdCall σ => call.attempt table := by
  rw [ofMap, bind_eq_ok] at made
  obtain ⟨_, checked, same⟩ := made
  have holds : table.map.HoldsStacks := by
    rw [← Except.ok.inj same]
    exact Descriptor.holdsStacks_of_checkFrames (by decide) checked
  refine Attempt.failsOnly_of_ends ?_
  intro call
  cases call with
  | raw id =>
      exact (storedFrames_ends BuildIdFrame.empty holds id).bind fun _ _ => Attempt.ends_pure trivial
  | frames id => exact (frames_ends holds id).bind fun _ _ => Attempt.ends_pure trivial
  | symbols resolver state id =>
      exact (symbols_ends holds resolver state id).bind fun _ _ => Attempt.ends_pure trivial
  | clear => exact clearIndices_ends (.inl holds.keySize)

end BuildIdTable

/-! Arrays of events. -/

namespace Descriptor

structure HoldsEvents (map : Descriptor) : Prop where
  keyed : map.kind.isKeyless = false
  keySize : map.keySize = 4
  bufferSize : map.bufferSize = 4

theorem holdsEvents_of_checkEvents {map : Descriptor} (checked : map.checkEvents = .ok ()) :
    map.HoldsEvents := by
  obtain ⟨listed, keys, values⟩ := checkEvents_eq_ok.1 checked
  have plain : ∀ kind ∈ Family.perfEventArray.kinds,
      kind.isKeyless = false ∧ kind.isPerCpu = false := by decide
  obtain ⟨keyed, single⟩ := plain _ listed
  exact ⟨keyed, keys, (bufferSize_of_single single).trans values⟩

theorem storeEvent_ends {map : Descriptor} (holds : map.HoldsEvents) (cpu : Cpu) (fd : Nat) :
    (map.storeEvent cpu fd).Ends (fun _ => True) SparesSizes := by
  refine update_ends ?_ ((wordBytes_length ..).trans holds.bufferSize.symm) 0
  rw [wordBytes_length, callKeySize_of_keyed holds.keyed, holds.keySize]

end Descriptor

theorem CpuList.ofFile_spared (contents : Except Errno Bytes) : Spared (ofFile contents) := by
  cases contents with
  | error errno => exact ⟨rfl, rfl⟩
  | ok bytes =>
      cases decoded : Text.decodeUtf8? bytes with
      | none =>
          rw [ofFile, decoded]
          exact ⟨rfl, rfl⟩
      | some text =>
          rw [ofFile, decoded]
          dsimp only
          rcases parse (String.ofList text) with error | cpus
          · exact ⟨rfl, rfl⟩
          · trivial

theorem PerfOptions.validate_spared (options : PerfOptions) : Spared options.validate := by
  rw [validate]
  split
  · trivial
  · exact ⟨rfl, rfl⟩

theorem closingResult_spared (failures : List String) : Spared (closingResult failures) := by
  cases failures with
  | nil => trivial
  | cons failure more => exact ⟨rfl, rfl⟩

namespace PerfBuffer

variable {ρ β : Type}

section

variable [Backend β]

theorem sameMap_frame : Frame fun before after : PerfBuffer ρ β => after.map = before.map where
  trans lower upper := upper.trans lower
  arranged _ _ _ _ := rfl
  log _ _ := rfl
  openRing _ _ := rfl
  closeRing _ _ := rfl
  storeEvent _ _ _ := rfl
  eraseEvent _ _ := rfl

theorem openOne_spared {buffer : PerfBuffer ρ β} (holds : buffer.map.HoldsEvents)
    (request : RingRequest) : Spared (buffer.openOne request).1 := by
  rw [openOne]
  split
  · exact ⟨rfl, rfl⟩
  · next watched _ =>
      rcases buffer.host.openRing request with ⟨errno | ring, host⟩
      · exact ⟨rfl, rfl⟩
      · dsimp only
        split
        · exact ⟨rfl, rfl⟩
        · let started : PerfBuffer ρ β :=
            { buffer with host, watched := some (watched ++ [⟨ring.fd, request.cpu⟩]) }
          have stored : Spared (started.onMap (started.map.storeEvent request.cpu ring.fd)).1 :=
            (Descriptor.storeEvent_ends holds request.cpu ring.fd).run started.host.backend
          rcases outcome : started.onMap (started.map.storeEvent request.cpu ring.fd) with
            ⟨error | _, after⟩
          · rw [outcome] at stored
            exact stored
          · trivial

theorem openEach_spared {buffer : PerfBuffer ρ β} (holds : buffer.map.HoldsEvents)
    (options : PerfOptions) (cpus : List Cpu) : Spared (buffer.openEach options cpus).1 := by
  induction cpus generalizing buffer with
  | nil => trivial
  | cons cpu rest ih =>
      have first := openOne_spared holds ⟨cpu, options.pages, options.wakeup⟩
      have kept := sameMap_frame.openOne buffer ⟨cpu, options.pages, options.wakeup⟩
      rw [openEach]
      rcases opened : buffer.openOne ⟨cpu, options.pages, options.wakeup⟩ with ⟨error | _, after⟩
      · rw [opened] at first
        exact first
      · rw [opened] at kept
        exact ih (kept.symm ▸ holds)

theorem openOn_spared {buffer : PerfBuffer ρ β} (holds : buffer.map.HoldsEvents)
    (cpus : List Cpu) (receiver : Nat) (options : PerfOptions) :
    Spared (buffer.openOn cpus receiver options).1 := by
  rw [openOn]
  split
  · next refused => exact options.validate_spared.of_error refused
  · split
    · exact ⟨rfl, rfl⟩
    · let started : PerfBuffer ρ β :=
        { buffer with watched := some [], receiver := some receiver }
      have same : started.map.HoldsEvents := holds
      have each := openEach_spared same options cpus
      rcases opened : started.openEach options cpus with ⟨error | _, after⟩
      · rw [opened] at each
        exact each
      · trivial

theorem openAll_spared {buffer : PerfBuffer ρ β} (holds : buffer.map.HoldsEvents)
    (online : Except Errno Bytes) (receiver : Nat) (options : PerfOptions) :
    Spared (buffer.openAll online receiver options).1 := by
  rw [openAll]
  split
  · next refused => exact options.validate_spared.of_error refused
  · next refused => exact (CpuList.ofFile_spared online).of_error refused
  · exact openOn_spared holds _ receiver options

theorem close_spared (buffer : PerfBuffer ρ β) : Spared buffer.close.1 :=
  closingResult_spared _

end

variable [RingContent ρ]

theorem drainCpu_spared (buffer : PerfBuffer ρ β) (cpu : Cpu) : Spared (buffer.drainCpu cpu).1 := by
  rw [drainCpu]
  split
  · split
    · trivial
    · dsimp only
      split
      · exact ⟨rfl, rfl⟩
      · trivial
  · trivial

theorem drainEach_spared (buffer : PerfBuffer ρ β) (cpus : List Cpu) :
    Spared (buffer.drainEach cpus).1 := by
  induction cpus generalizing buffer with
  | nil => trivial
  | cons cpu rest ih =>
      have first := buffer.drainCpu_spared cpu
      rw [drainEach]
      rcases drained : buffer.drainCpu cpu with ⟨error | count, after⟩
      · rw [drained] at first
        exact first
      · have others := ih after
        dsimp only
        rcases more : after.drainEach rest with ⟨error | count, last⟩
        · rw [more] at others
          exact others
        · trivial

theorem poll_spared (buffer : PerfBuffer ρ β) : Spared buffer.poll.1 := by
  rw [poll]
  split
  · trivial
  · dsimp only
    split
    · next error after drained =>
        exact (drainEach_spared _ _).of_error (congrArg Prod.fst drained)
    · trivial

theorem awaitPoll_spared {buffer after : PerfBuffer ρ β} {result : Except MapError Nat}
    (polled : buffer.awaitPoll = (some result, after)) : Spared result := by
  rw [awaitPoll] at polled
  split at polled
  · obtain ⟨rfl, -⟩ : buffer.poll.1 = result ∧ buffer.poll.2 = after := by simpa using polled
    exact buffer.poll_spared
  · cases polled

end PerfBuffer

namespace BufferLife

variable {map : Descriptor}

theorem step_sameMap {life : BufferLife} (same : (life.holdings map).map = map)
    (event : BufferEvent) : ((life.step event).2.holdings map).map = map := by
  cases life with
  | ended host =>
      cases event with
      | arrive fd delivery => rwa [arrive_holdings]
      | spoil fd count errno => rwa [spoil_holdings]
      | _ => exact same
  | alive buffer =>
      cases event with
      | openOn cpus receiver options =>
          exact (PerfBuffer.sameMap_frame.openOn buffer cpus receiver options).trans same
      | openAll online receiver options =>
          exact (PerfBuffer.sameMap_frame.openAll buffer online receiver options).trans same
      | poll =>
          show buffer.poll.2.holdings.map = map
          rwa [PerfBuffer.poll_holdings]
      | awaitPoll => rwa [awaitPoll_step_holdings]
      | consume =>
          show buffer.consume.2.holdings.map = map
          rwa [PerfBuffer.consume, PerfBuffer.drainEach_holdings]
      | close => exact (PerfBuffer.sameMap_frame.close buffer).trans same
      | drop => rfl
      | arrive fd delivery => rwa [arrive_holdings]
      | spoil fd count errno => rwa [spoil_holdings]

theorem run_sameMap {life : BufferLife} (same : (life.holdings map).map = map)
    (events : List BufferEvent) : ((life.run events).2.holdings map).map = map := by
  induction events generalizing life with
  | nil => exact same
  | cons event rest ih => exact ih (step_sameMap same event)

theorem atRing_spared (life : BufferLife) (fd : Nat)
    (change : PerfHost QueuedRing → LiveRing QueuedRing → PerfHost QueuedRing) :
    Spared (life.atRing fd change).1 := by
  rw [atRing]
  split <;> trivial

theorem step_spared {life : BufferLife} (holds : map.HoldsEvents)
    (same : (life.holdings map).map = map) (event : BufferEvent) : Spared (life.step event).1 := by
  cases life with
  | ended host =>
      cases event with
      | arrive fd delivery => exact atRing_spared _ _ _
      | spoil fd count errno => exact atRing_spared _ _ _
      | _ => trivial
  | alive buffer =>
      have events : buffer.map.HoldsEvents := by
        rwa [show buffer.map = map from same]
      cases event with
      | openOn cpus receiver options => exact (PerfBuffer.openOn_spared events ..).map _
      | openAll online receiver options => exact (PerfBuffer.openAll_spared events ..).map _
      | poll => exact buffer.poll_spared.map _
      | awaitPoll =>
          simp only [step, operate]
          split
          · trivial
          · next polled => exact (PerfBuffer.awaitPoll_spared polled).map _
      | consume => exact (buffer.drainEach_spared buffer.cpus).map _
      | close => exact buffer.close_spared.map _
      | drop => trivial
      | arrive fd delivery => exact atRing_spared _ _ _
      | spoil fd count errno => exact atRing_spared _ _ _

theorem run_spared {life : BufferLife} (holds : map.HoldsEvents)
    (same : (life.holdings map).map = map) (events : List BufferEvent) :
    ∀ outcome ∈ (life.run events).1, Spared outcome := by
  induction events generalizing life with
  | nil => exact fun _ none => absurd none List.not_mem_nil
  | cons event rest ih =>
      intro outcome member
      rcases List.mem_cons.1 member with rfl | later
      · exact step_spared holds same event
      · exact ih (step_sameMap same event) outcome later

end BufferLife

namespace CounterArray

variable {β : Type} [Backend β]

structure Keeps (map : Descriptor) (outcome : Except MapError Unit) (after : CounterArray β) :
    Prop where
  spared : Spared outcome
  sameMap : after.map = map

variable {map : Descriptor} {array : CounterArray β}

theorem openOne_keeps (holds : map.HoldsEvents) (same : array.map = map) (options : CounterOptions)
    (cpu : Cpu) : Keeps map (array.openOne options cpu).1 (array.openOne options cpu).2 := by
  subst same
  rw [openOne]
  rcases array.host.openCounter ⟨options.kind, options.config, options.pid, cpu⟩ with
    ⟨errno | fd, host⟩
  · exact ⟨⟨rfl, rfl⟩, rfl⟩
  · let started : CounterArray β := { array with host }
    have stored : Spared (started.onMap (started.map.storeEvent cpu fd)).1 :=
      (Descriptor.storeEvent_ends holds cpu fd).run started.host.backend
    have kept : (started.onMap (started.map.storeEvent cpu fd)).2.map = array.map := rfl
    dsimp only
    rcases outcome : started.onMap (started.map.storeEvent cpu fd) with ⟨error | _, after⟩
    · rw [outcome] at stored kept
      exact ⟨stored, kept⟩
    · rw [outcome] at kept
      exact ⟨trivial, kept⟩

theorem openEach_keeps (holds : map.HoldsEvents) (same : array.map = map) (options : CounterOptions)
    (cpus : List Cpu) :
    Keeps map (array.openEach options cpus).1 (array.openEach options cpus).2 := by
  induction cpus generalizing array with
  | nil => exact ⟨trivial, same⟩
  | cons cpu rest ih =>
      have first := openOne_keeps holds same options cpu
      rw [openEach]
      rcases opened : array.openOne options cpu with ⟨error | _, after⟩
      · rw [opened] at first
        exact ⟨first.spared, first.sameMap⟩
      · rw [opened] at first
        exact ih first.sameMap

theorem openOn_keeps (holds : map.HoldsEvents) (same : array.map = map) (cpus : List Cpu)
    (options : CounterOptions) :
    Keeps map (array.openOn cpus options).1 (array.openOn cpus options).2 := by
  have each := openEach_keeps holds same options cpus
  rw [openOn]
  split
  · exact ⟨⟨rfl, rfl⟩, same⟩
  · rcases opened : array.openEach options cpus with ⟨error | _, after⟩
    · rw [opened] at each
      exact each
    · rw [opened] at each
      exact ⟨trivial, each.sameMap⟩

theorem openAll_keeps (holds : map.HoldsEvents) (same : array.map = map)
    (online : Except Errno Bytes) (options : CounterOptions) :
    Keeps map (array.openAll online options).1 (array.openAll online options).2 := by
  rw [openAll]
  split
  · next refused => exact ⟨(CpuList.ofFile_spared online).of_error refused, same⟩
  · exact openOn_keeps holds same _ options

theorem closeEach_map (array : CounterArray β) (counters : List LiveCounter) :
    (array.closeEach counters).2.map = array.map := by
  induction counters generalizing array with
  | nil => rfl
  | cons counter rest ih => exact ih _

theorem close_keeps (same : array.map = map) : Keeps map array.close.1 array.close.2 :=
  ⟨closingResult_spared _, (closeEach_map { array with counters := [] } _).trans same⟩

end CounterArray

namespace CounterLife

variable {map : Descriptor}

theorem step_keeps {array : CounterArray} (holds : map.HoldsEvents) (same : array.map = map)
    (event : CounterEvent) :
    (∃ outcome after, (alive array).step event = (some outcome, alive after) ∧
      CounterArray.Keeps map outcome after) ∨
    ∃ host, (alive array).step event = (some (.ok ()), ended host) := by
  cases event with
  | openOn cpus options =>
      exact .inl ⟨_, _, rfl, CounterArray.openOn_keeps holds same cpus options⟩
  | openAll online options =>
      exact .inl ⟨_, _, rfl, CounterArray.openAll_keeps holds same online options⟩
  | close => exact .inl ⟨_, _, rfl, CounterArray.close_keeps same⟩
  | drop => exact .inr ⟨_, rfl⟩

theorem run_ended (host : CounterHost) (events : List CounterEvent) :
    ∀ outcome, some outcome ∉ ((ended host).run events).1 := by
  induction events with
  | nil => exact fun _ => List.not_mem_nil
  | cons event rest ih =>
      intro outcome member
      rcases List.mem_cons.1 member with impossible | later
      · cases impossible
      · exact ih outcome later

theorem run_spared {array : CounterArray} (holds : map.HoldsEvents) (same : array.map = map)
    (events : List CounterEvent) :
    ∀ outcome, some outcome ∈ ((alive array).run events).1 → Spared outcome := by
  induction events generalizing array with
  | nil => exact fun _ none => absurd none List.not_mem_nil
  | cons event rest ih =>
      intro outcome member
      rw [run] at member
      rcases step_keeps holds same event with ⟨first, after, stepped, keeps⟩ | ⟨host, stepped⟩
      · rw [stepped] at member
        rcases List.mem_cons.1 member with here | later
        · rw [Option.some.inj here]
          exact keeps.spared
        · exact ih keeps.sameMap outcome later
      · rw [stepped] at member
        rcases List.mem_cons.1 member with here | later
        · rw [Option.some.inj here]
          trivial
        · exact absurd later (run_ended host rest outcome)

end CounterLife

/-- Which errors about sizes the calls on the handles of a map can meet, whatever it replies. -/
structure HandleSizes (map : Descriptor) : Prop extends ViewSizes map where
  stackTable : ∀ (σ χ β : Type) [Backend β] (options : SymbolOptions)
    (symbolizer : Symbolizer σ χ) (table : StackTable σ χ),
    StackTable.ofMap map options symbolizer = .ok table →
      ∀ (backend : β) (calls : List StackCall),
        ∀ outcome ∈ (runCalls (StackTable.answer symbolizer) calls (table, backend)).1,
          Spared outcome
  buildIdTable : ∀ table, BuildIdTable.ofMap map = .ok table →
    ∀ σ : Type, SizesFit fun call : BuildIdCall σ => call.attempt table
  perfBuffer : ∀ (host : PerfHost QueuedRing) buffer, PerfBuffer.ofMap map host = .ok buffer →
    ∀ events, ∀ outcome ∈ ((BufferLife.alive buffer).run events).1, Spared outcome
  counterArray : ∀ (host : CounterHost) array, CounterArray.ofMap map host = .ok array →
    ∀ events outcome, some outcome ∈ ((CounterLife.alive array).run events).1 → Spared outcome

/-- A handle that could be made over a map meets an error about sizes in three cases and no other. Rows
of values are refused that are not as many as the CPUs, before any call. Single values over a map of rows
are refused before any call as well, and so is every row that a lookup finds, unless a single CPU has
one value for its row. And an array of maps with keys that are no indices refuses to be cleared. -/
theorem made_handles_keep_sizes (map : Descriptor) : HandleSizes map where
  toViewSizes := map.viewSizes
  stackTable _ _ _ _ _ _ _ made := StackTable.runCalls_spared made
  buildIdTable _ := BuildIdTable.sizesFit
  perfBuffer host buffer made events := by
    obtain ⟨checked, rfl⟩ := PerfBuffer.ofMap_eq_ok.1 made
    exact BufferLife.run_spared (Descriptor.holdsEvents_of_checkEvents checked) rfl events
  counterArray host array made events := by
    rw [CounterArray.ofMap, bind_eq_ok] at made
    obtain ⟨_, checked, same⟩ := made
    obtain rfl := Except.ok.inj same
    exact CounterLife.run_spared (Descriptor.holdsEvents_of_checkEvents checked) rfl events

theorem loads_refused_as_singles :
    0 < Element.size UInt64 ∧ ¬loadRows.HoldsSingles ∧
    (∃ view : TypedMap UInt32 UInt64, TypedMap.array UInt64 loadRows = .ok view ∧
      RefusesElements (ArrayCall.attempt view) ArrayCall.transfer 8 16) ∧
    (∃ view : TypedMap UInt32 (List UInt64), TypedMap.perCpuArray UInt64 loadRows = .ok view ∧
      RowSizes 2 view) ∧
    ∃ table : StackTable Nat Nat,
      StackTable.ofMap traceMap ⟨true, false⟩ countingSymbolizer = .ok table ∧
      ∀ outcome ∈ (runCalls (StackTable.answer countingSymbolizer) [.symbols ⟨1⟩ ⟨-1⟩, .clear]
        (table, Simulation.ofStore (.hash 8 oneTrace))).1, Spared outcome := by
  have positive : 0 < Element.size UInt64 := by decide
  have parted : ¬loadRows.HoldsSingles := fun holds => absurd (holds rfl).1 (by decide)
  have singles : TypedMap.array UInt64 loadRows = .ok
      ⟨loadRows, Content.single UInt64, .byFirstKey, _⟩ := rfl
  have rows : TypedMap.perCpuArray UInt64 loadRows = .ok
      ⟨loadRows, Content.perCpu UInt64 2, .byFirstKey, _⟩ := rfl
  have traces : StackTable.ofMap traceMap ⟨true, false⟩ countingSymbolizer =
      .ok (⟨traceMap, ⟨true, false⟩, 0, [], [], _⟩ : StackTable Nat Nat) := rfl
  have loads := made_handles_keep_sizes loadRows
  have onTraces := made_handles_keep_sizes traceMap
  exact ⟨positive, parted,
    ⟨_, singles, (loads.array _ _ positive singles).refuses parted⟩,
    ⟨_, rows, loads.perCpuArray _ _ positive rows⟩,
    _, traces, onTraces.stackTable _ _ _ _ _ _ traces _ _⟩

def wideOuter : Descriptor where
  name := "outer"
  kind := .arrayOfMaps
  keySize := 8
  valueSize := 4
  capacity := 2
  fd := 5
  ownsFd := false
  cpuCount := 1
  keyCodec := .hex
  valueCodec := .hex

theorem wide_outer_not_cleared :
    ∃ view : TypedMap UInt64 Int32, TypedMap.mapInMap UInt64 wideOuter = .ok view ∧
      ((Simulation.ofStore (.references #[none, none])).run (view.clear 1)).1 =
        .error (.badKeySize 8 4) := by
  have made : TypedMap.mapInMap UInt64 wideOuter = .ok
      ⟨wideOuter, Content.single Int32, .byIndex, _⟩ := rfl
  exact ⟨_, made, rfl⟩

end KernelMaps
