import KernelMaps.Stack.Trace

/-!
Stacks of build-id frames: each names an object file and a place in it, or says that it could not.
A stack is resolved up to its first frame that is not valid.
-/

namespace KernelMaps

structure BuildIdFrame where
  status : Int32
  buildId : Block 20
  offset : UInt64
  deriving DecidableEq

namespace BuildIdFrame

def empty : BuildIdFrame := ⟨0, Block.ofBytes 20 [], 0⟩

def validStatus : Int32 := 1

def isValid (frame : BuildIdFrame) : Bool :=
  frame.status == validStatus

instance : Element BuildIdFrame :=
  Element.ofBijection
    (Element.pair inferInstance
      (Element.pair (Block.element 20 (by decide)) inferInstance (by decide)) (by decide))
    (fun frame => (frame.status, frame.buildId, frame.offset))
    (fun parts => ⟨parts.1, parts.2.1, parts.2.2⟩) (fun _ => rfl) (fun _ => rfl)

end BuildIdFrame

/-- Names frames, and may change with each of them. -/
abbrev FrameResolver (σ : Type) := σ → BuildIdFrame → Option String × σ

structure BuildIdTable where
  map : Descriptor
  summary : String

namespace BuildIdTable

def ofMap (map : Descriptor) : Except MapError BuildIdTable := do
  map.checkFrames (Element.size BuildIdFrame)
  return ⟨map, s!"build-id stack table '{map.name}' ({map.capacity.toNat} stacks)"⟩

def raw (table : BuildIdTable) (id : StackId) : Attempt (Option (List BuildIdFrame)) :=
  storedFrames BuildIdFrame .empty table.map id

def frames (table : BuildIdTable) (id : StackId) : Attempt (List BuildIdFrame) := do
  match ← table.raw id with
  | none => return []
  | some frames => return frames.takeWhile BuildIdFrame.isValid

def symbols {σ : Type} (table : BuildIdTable) (resolver : FrameResolver σ) (state : σ)
    (id : StackId) : Attempt (List String × σ) := do
  let frames ← table.frames id
  return resolveEach resolver state frames

def clear (table : BuildIdTable) : Attempt Unit :=
  clearIndices table.map

def capacity (table : BuildIdTable) : Nat :=
  table.map.capacity.toNat

end BuildIdTable

end KernelMaps
