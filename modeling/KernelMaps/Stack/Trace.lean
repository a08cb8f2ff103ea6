import KernelMaps.Log
import KernelMaps.Map.Raw
import KernelMaps.Map.Strided
import KernelMaps.Stack.Symbols

/-!
Stacks of addresses. A stored stack holds up to 127 addresses and ends at its first zero; names
come from a cache per process that is made when it is first needed.
-/

namespace KernelMaps

def maxStackDepth : Nat := 127

namespace Descriptor

def checkFrames (map : Descriptor) (frameSize : Nat) : Except MapError Unit := do
  map.checkFamily .stackTrace
  map.checkSize .key 4 map.keySize
  let full := maxStackDepth * frameSize
  if map.valueSize = 0 ∨ map.valueSize % frameSize ≠ 0 ∨ full < map.valueSize then
    throw (.sizeMismatch map.name .value full map.valueSize)

end Descriptor

/-- The frames in a stored value, followed by empty ones up to the most there can be. -/
def framesOf (α : Type) [Element α] (empty : α) (bytes : Bytes) : List α :=
  let stored := (slots (bytes.length / Element.size α) (Element.size α) bytes).map Element.decode
  stored.take maxStackDepth ++ List.replicate (maxStackDepth - stored.length) empty

def storedFrames (α : Type) [Element α] (empty : α) (map : Descriptor) (id : StackId) :
    Attempt (Option (List α)) :=
  match id.key? with
  | none => return none
  | some key => do
      let found ← map.lookup (Element.encode key)
      return found.map (framesOf α empty)

def withoutEmptyTail {α : Type} [BEq α] (empty : α) (frames : List α) : List α :=
  (frames.reverse.dropWhile (· == empty)).reverse

def untilZero (addresses : List UInt64) : List UInt64 :=
  addresses.takeWhile fun address => address != 0

structure StackTable (σ χ : Type) where
  map : Descriptor
  options : SymbolOptions
  symbolizing : σ
  caches : SymbolCaches χ
  events : List SymbolEvent
  summary : String

namespace StackTable

variable {σ χ : Type}

def ofMap (map : Descriptor) (options : SymbolOptions) (symbolizer : Symbolizer σ χ) :
    Except MapError (StackTable σ χ) := do
  map.checkFrames 8
  let depth := map.valueSize / 8
  return ⟨map, options, symbolizer.start, [], [],
    s!"stack trace table '{map.name}' ({map.capacity.toNat} stacks, depth {depth})"⟩

def raw (table : StackTable σ χ) (id : StackId) : Attempt (Option (List UInt64)) :=
  storedFrames UInt64 0 table.map id

def addresses (table : StackTable σ χ) (id : StackId) : Attempt (List UInt64) := do
  match ← table.raw id with
  | none => return []
  | some frames => return untilZero frames

/-- The cache of a process. Without one it is made, by a symbolizer that may change with that. -/
def obtain (table : StackTable σ χ) (symbolizer : Symbolizer σ χ) (pid : Pid) :
    χ × StackTable σ χ × List LogLine :=
  match table.caches.find? pid with
  | some cache => (cache, table, [])
  | none =>
      let (cache, symbolizing) := symbolizer.create table.symbolizing pid table.options
      (cache, { table with
        symbolizing
        events := .created pid table.options :: table.events },
        [.debug s!"creating symbol cache for {pid.label}"])

/-- Names addresses in the context of a process. Without addresses no cache is touched. -/
def name (table : StackTable σ χ) (symbolizer : Symbolizer σ χ) (pid : Pid)
    (addresses : List UInt64) : List String × StackTable σ χ × List LogLine :=
  if addresses.isEmpty then ([], table, [])
  else
    let pid := pid.normalized
    let (cache, table, lines) := table.obtain symbolizer pid
    let (names, cache) := resolveEach symbolizer.resolve cache addresses
    let asked := addresses.map (SymbolEvent.resolved pid)
    (names, { table with
      caches := table.caches.insert pid cache
      events := asked.reverse ++ table.events }, lines)

def symbols (table : StackTable σ χ) (symbolizer : Symbolizer σ χ) (id : StackId) (pid : Pid) :
    Attempt (List String × StackTable σ χ × List LogLine) := do
  let addresses ← table.addresses id
  return table.name symbolizer pid addresses

def release (table : StackTable σ χ) (pid : Pid) : Bool × StackTable σ χ × List LogLine :=
  match table.caches.find? pid.normalized with
  | none => (false, table, [])
  | some _ =>
      (true, { table with
        caches := table.caches.erase pid.normalized
        events := .released pid.normalized :: table.events },
        [.debug s!"released symbol cache for {pid.label}"])

def clear (table : StackTable σ χ) : Attempt Unit :=
  clearIndices table.map

def created (table : StackTable σ χ) : List (Pid × SymbolOptions) :=
  table.events.reverse.filterMap fun
    | .created pid options => some (pid, options)
    | _ => none

def resolved (table : StackTable σ χ) : List UInt64 :=
  table.events.reverse.filterMap fun
    | .resolved _ address => some address
    | _ => none

def cacheCount (table : StackTable σ χ) : Nat :=
  table.caches.length

def capacity (table : StackTable σ χ) : Nat :=
  table.map.capacity.toNat

def maxDepth (table : StackTable σ χ) : Nat :=
  min (table.map.valueSize / 8) maxStackDepth

def farewell (table : StackTable σ χ) : List LogLine :=
  if table.caches.isEmpty then []
  else [.debug s!"releasing {table.cacheCount} symbol cache(s) of '{table.map.name}'"]

end StackTable

end KernelMaps
