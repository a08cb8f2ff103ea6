import KernelMaps.Proofs.Stack.Caches
import KernelMaps.Proofs.Stack.Frames
import KernelMaps.Stack.BuildId

/-!
Stacks of build-id frames. What frames were laid out as is read as these frames again, and the room
that they left as empty ones, none of which is valid. Nothing behind an invalid frame is resolved.
-/

namespace KernelMaps

namespace BuildIdFrame

def layout (frame : BuildIdFrame) : Bytes :=
  wordBytes 4 frame.status.toUInt32.toNat ++ frame.buildId.bytes ++ wordBytes 8 frame.offset.toNat

theorem encode_eq_layout (frame : BuildIdFrame) : Element.encode frame = frame.layout := by
  rw [layout, List.append_assoc]
  rfl

theorem decode_layout (frame : BuildIdFrame) : Element.decode frame.layout = frame := by
  rw [← encode_eq_layout, Element.decode_encode]

theorem layout_length (frame : BuildIdFrame) : frame.layout.length = 32 := by
  rw [← encode_eq_layout, Element.encode_length]
  rfl

theorem layout_empty : empty.layout = zeroed 32 := by
  decide

theorem isValid_iff (frame : BuildIdFrame) : frame.isValid = true ↔ frame.status = 1 :=
  beq_iff_eq

end BuildIdFrame

def stackOf (depth : Nat) (frames : List BuildIdFrame) : Bytes :=
  frames.flatMap BuildIdFrame.layout ++ zeroed ((depth - frames.length) * 32)

theorem stackOf_length {depth : Nat} {frames : List BuildIdFrame} (fits : frames.length ≤ depth) :
    (stackOf depth frames).length = depth * 32 := by
  have laidOut : (frames.flatMap BuildIdFrame.layout).length = frames.length * 32 := by
    simp [List.length_flatMap, BuildIdFrame.layout_length]
  rw [stackOf, List.length_append, laidOut, zeroed_length]
  omega

theorem framesOf_stackOf {depth : Nat} (bounded : depth ≤ maxStackDepth)
    {frames : List BuildIdFrame} (fits : frames.length ≤ depth) :
    framesOf BuildIdFrame .empty (stackOf depth frames) =
      frames ++ List.replicate (127 - frames.length) .empty := by
  have size : Element.size BuildIdFrame = 32 := rfl
  have sized : ∀ block ∈ frames.map BuildIdFrame.layout, block.length = 32 := by
    intro block member
    obtain ⟨frame, -, rfl⟩ := List.mem_map.1 member
    exact frame.layout_length
  have cut : slots depth 32 (stackOf depth frames) = frames.map BuildIdFrame.layout ++
      List.replicate (depth - frames.length) (zeroed 32) := by
    have found := slots_flatten_append sized (depth - frames.length)
      (zeroed ((depth - frames.length) * 32))
    rwa [List.length_map, Nat.add_sub_of_le fits, slots_zeroed] at found
  have stored : (frames.map BuildIdFrame.layout).map Element.decode = frames := by
    rw [List.map_map]
    exact (List.map_congr_left fun frame _ => frame.decode_layout).trans (List.map_id frames)
  have unused : (Element.decode (zeroed 32) : BuildIdFrame) = .empty := by
    rw [← BuildIdFrame.layout_empty, BuildIdFrame.decode_layout]
  have room : depth - frames.length + (maxStackDepth - depth) = 127 - frames.length := by
    rw [maxStackDepth] at *
    omega
  rw [framesOf_of_length (by decide) bounded (stackOf_length fits), size, cut, List.map_append,
    stored, List.map_replicate, unused, List.append_assoc, List.replicate_append_replicate, room]

/-- A resolver that also writes down each frame that it is asked about. -/
def FrameResolver.recording {σ : Type} (resolver : FrameResolver σ) :
    FrameResolver (σ × List BuildIdFrame) :=
  fun state frame =>
    let (name, next) := resolver state.1 frame
    (name, next, state.2 ++ [frame])

theorem FrameResolver.resolveEach_recording {σ : Type} (resolver : FrameResolver σ) (state : σ)
    (asked frames : List BuildIdFrame) :
    resolveEach resolver.recording (state, asked) frames =
      ((resolveEach resolver state frames).1, (resolveEach resolver state frames).2,
        asked ++ frames) := by
  induction frames generalizing state asked with
  | nil => rw [List.append_nil]; rfl
  | cons frame rest ih =>
      simp only [resolveEach, recording, ih, List.append_assoc, List.singleton_append]

namespace BuildIdTable

variable {σ β : Type} [Backend β] {table : BuildIdTable} {backend after : β} {id : StackId}

theorem run_symbols {frames : List BuildIdFrame}
    (found : Backend.run backend (table.frames id) = (.ok frames, after))
    (resolver : FrameResolver σ) (state : σ) :
    Backend.run backend (table.symbols resolver state id) =
      (.ok (resolveEach resolver state frames), after) := by
  rw [symbols, Backend.run_bind, found]
  rfl

/-- What the three ways to read a stack come to, of which only these frames are valid. The resolver
is asked about them in turn and about nothing else, and a text is given for each. -/
structure Reads (table : BuildIdTable) (resolver : FrameResolver σ) (state : σ) (backend : β)
    (id : StackId) (stored valid : List BuildIdFrame) (after : β) : Prop where
  raw : Backend.run backend (table.raw id) = (.ok (some stored), after)
  frames : Backend.run backend (table.frames id) = (.ok valid, after)
  symbols : ∃ names last,
    Backend.run backend (table.symbols resolver state id) = (.ok (names, last), after) ∧
      Resolves resolver state valid names last
  asked : ∀ earlier, ∃ names last,
    Backend.run backend (table.symbols resolver.recording (state, earlier) id) =
      (.ok (names, last, earlier ++ valid), after)

theorem reads_of_raw {stored : List BuildIdFrame}
    (ran : Backend.run backend (table.raw id) = (.ok (some stored), after))
    (resolver : FrameResolver σ) (state : σ) :
    table.Reads resolver state backend id stored (stored.takeWhile BuildIdFrame.isValid) after := by
  have found : Backend.run backend (table.frames id) =
      (.ok (stored.takeWhile BuildIdFrame.isValid), after) := by
    rw [frames, Backend.run_bind, ran]
    rfl
  refine ⟨ran, found, ⟨_, _, run_symbols found resolver state, resolves_resolveEach ..⟩, ?_⟩
  intro earlier
  have asked := run_symbols found resolver.recording (state, earlier)
  rw [resolver.resolveEach_recording] at asked
  exact ⟨_, _, asked⟩

end BuildIdTable

/-- A stack of frames is read as these frames with empty ones behind them. Only the longest front of
valid ones is resolved, each once and in order, so that none behind an invalid frame is. -/
theorem build_id_stack_ends_at_first_invalid {σ β : Type} [Backend β] {table : BuildIdTable}
    {depth : Nat} (holds : table.map.HoldsFrames 32 depth) {frames : List BuildIdFrame}
    (fits : frames.length ≤ depth) (resolver : FrameResolver σ) (state : σ) {backend after : β}
    {id : StackId}
    (finds : table.map.Finds backend id (.ok (some (stackOf depth frames))) after) :
    ∃ valid, LongestFront (fun frame => frame.status = 1) frames valid ∧
      table.Reads resolver state backend id
        (frames ++ List.replicate (127 - frames.length) .empty) valid after ∧
      ∀ before frame behind, frames = before ++ frame :: behind → frame.status ≠ 1 →
        valid <+: before := by
  have raw : Backend.run backend (table.raw id) = _ := finds.run_storedFrames holds
  simp only [Except.map, Option.map_some, framesOf_stackOf holds.bounded fits] at raw
  have reads := BuildIdTable.reads_of_raw raw resolver state
  rw [takeWhile_append_replicate (by rfl)] at reads
  have longest := longestFront_takeWhile BuildIdFrame.isValid_iff frames
  refine ⟨_, longest, reads, ?_⟩
  intro before frame behind split invalid
  exact longest.before split invalid

def objectTraces : Descriptor :=
  { traceMap with valueSize := 128 }

def frameInObject (status : Int32) (offset : UInt64) : BuildIdFrame :=
  ⟨status, Block.ofBytes 20 [0xab, 0xcd], offset⟩

def objectFrames : List BuildIdFrame :=
  [frameInObject 1 0x1000, frameInObject (-2) 7, frameInObject 1 0x2000]

def objectStacks : Simulation :=
  .ofStore (.hash 8 (OrderedMap.empty.insert [3, 0, 0, 0] (stackOf 4 objectFrames)))

def countingResolver : FrameResolver Nat :=
  fun asked _ => (none, asked + 1)

theorem object_stack_ends_at_second_frame :
    objectTraces.HoldsFrames 32 4 ∧ objectFrames.length ≤ 4 ∧
    ∃ table, BuildIdTable.ofMap objectTraces = .ok table ∧ ∃ after,
      LongestFront (fun frame => frame.status = 1) objectFrames [frameInObject 1 0x1000] ∧
      table.Reads countingResolver 0 objectStacks ⟨3⟩
        (objectFrames ++ List.replicate 124 .empty) [frameInObject 1 0x1000] after := by
  have holds : objectTraces.HoldsFrames 32 4 := ⟨by decide, rfl, by decide, by decide, rfl⟩
  obtain ⟨table, made, sameMap⟩ : ∃ table, BuildIdTable.ofMap objectTraces = .ok table ∧
      table.map = objectTraces := ⟨_, rfl, rfl⟩
  have fills : (stackOf 4 objectFrames).length = 128 := stackOf_length (by decide)
  obtain ⟨after, finds⟩ : ∃ after,
      objectTraces.Finds objectStacks ⟨3⟩ (.ok (some (stackOf 4 objectFrames))) after := by
    -- the bytes of the stack would be gone through one by one if they were written out here
    generalize stored : stackOf 4 objectFrames = value at fills
    rw [objectStacks, stored]
    have replied : (Backend.answer (objectTraces.stackRequest ⟨3⟩) (Simulation.ofStore
        (.hash 8 (OrderedMap.empty.insert [3, 0, 0, 0] value)))).1 = Store.copyTo 128 value := rfl
    rw [Store.copyTo, if_pos fills] at replied
    exact ⟨_, .stored (by decide) fills (Prod.ext replied rfl)⟩
  obtain ⟨valid, longest, reads, unreached⟩ := build_id_stack_ends_at_first_invalid
    (sameMap ▸ holds : table.map.HoldsFrames 32 4) (by decide) countingResolver 0
    (sameMap ▸ finds)
  have short : valid <+: [frameInObject 1 0x1000] :=
    unreached [frameInObject 1 0x1000] (frameInObject (-2) 7) _ rfl (by decide)
  have long : [frameInObject 1 0x1000] <+: valid :=
    longest.longest _ ⟨_, rfl⟩ (List.forall_mem_singleton.2 rfl)
  obtain rfl := short.eq_of_length_le long.length_le
  exact ⟨holds, by decide, table, made, after, longest, reads⟩

end KernelMaps
