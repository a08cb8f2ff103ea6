import KernelMaps.Map.Typed

/-!
Queues and stacks: containers without keys. Which element comes next is decided by the kind of
the map.
-/

namespace KernelMaps

structure SequenceMap (α : Type) where
  map : Descriptor
  summary : String

namespace SequenceMap

variable {α : Type} [Element α]

def ofMap (α : Type) [Element α] (map : Descriptor) : Except MapError (SequenceMap α) := do
  map.checkSingle .queueStack 0 (Element.size α)
  return ⟨map, s!"{map.kind.name} '{map.name}' ({map.capacity.toNat} entries)"⟩

def isStack (container : SequenceMap α) : Bool :=
  container.map.kind = .stack

def capacity (container : SequenceMap α) : Nat :=
  container.map.capacity.toNat

def push (container : SequenceMap α) (value : α) (flags : UInt64) : Attempt Unit :=
  container.map.update [] (Element.encode value) flags

def present (found : Option Bytes) : Except MapError α :=
  match found with
  | none => .error .empty
  | some bytes => readElement α bytes

def pop (container : SequenceMap α) : Attempt α := do
  liftM (present (← container.map.take []))

def head (container : SequenceMap α) : Attempt α := do
  liftM (present (← container.map.lookup []))

end SequenceMap

end KernelMaps
