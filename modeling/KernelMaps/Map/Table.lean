import KernelMaps.Map.Raw
import KernelMaps.Map.Strided

/-!
Access through text to a map of any kind: keys and values go through the descriptor's codecs, and
a per-CPU value is one text for every CPU.
-/

namespace KernelMaps

structure Table where
  map : Descriptor
  factor : Nat := Descriptor.textFactor

namespace Table

def refuse {α : Type} (table : Table) (refusal : Refusal) : Attempt α :=
  throw (.unsupported table.map.name refusal)

def shares (table : Table) (value : Bytes) : List Bytes :=
  (slots (value.length / table.map.slotSize) table.map.slotSize value).map fun slot =>
    slot.take table.map.valueSize

def shareText (table : Table) (share : Bytes) : Except MapError String :=
  if share.length < table.map.valueSize then .error (.codec .outOfBounds)
  else table.map.valueText table.factor share

def shareTexts (table : Table) (value : Bytes) : Except MapError (List String) :=
  (table.shares value).mapM table.shareText

def valueText (table : Table) (value : Bytes) : Except MapError String := do
  if !table.map.kind.isPerCpu then table.map.valueText table.factor value
  else
    let texts ← table.shareTexts value
    let row := " ".intercalate texts
    return s!"[ {row} ]"

def lookup (table : Table) (key : String) : Attempt Bytes := do
  let key ← liftM (table.map.keyOfText key)
  match ← table.map.lookup key with
  | none => throw .keyNotFound
  | some value => return value

def get (table : Table) (key : String) : Attempt String := do
  if table.map.kind.isPerCpu then table.refuse .readPerCpu
  let value ← table.lookup key
  liftM (table.map.valueText table.factor value)

def getPerCpu (table : Table) (key : String) : Attempt (List String) := do
  if !table.map.kind.isPerCpu then table.refuse .notPerCpu
  let value ← table.lookup key
  liftM (table.shareTexts value)

def update (table : Table) (key value : String) : Attempt Unit := do
  if table.map.kind.isPerCpu then table.refuse .writePerCpu
  let key ← liftM (table.map.keyOfText key)
  let value ← liftM (table.map.valueOfText value)
  table.map.update key value 0

def shareOfText (table : Table) (text : String) : Except MapError Bytes :=
  if table.map.slotSize < table.map.valueSize then .error (.codec .outOfBounds)
  else table.map.valueOfText text

/-- The texts that have slots in the buffer for their element. -/
def reached (table : Table) (values : List String) : List String :=
  values.take (table.map.bufferSize / table.map.slotSize)

/-- Takes exactly one text per CPU; the values are read before the key. -/
def updatePerCpu (table : Table) (key : String) (values : List String) : Attempt Unit := do
  if !table.map.kind.isPerCpu then table.refuse .notPerCpu
  if values.length ≠ table.map.cpus then throw (.badValueSize table.map.cpus values.length)
  let shares ← (table.reached values).mapM fun value => liftM (table.shareOfText value)
  let key ← liftM (table.map.keyOfText key)
  let filled := shares.flatMap fun share => fitted table.map.slotSize share
  table.map.update key (fitted table.map.bufferSize filled) 0

def remove (table : Table) (key : String) : Attempt Unit := do
  let key ← liftM (table.map.keyOfText key)
  table.map.delete key

/-- Every element as bytes; a key that has vanished ends the walk. -/
def dumpBytes (table : Table) (budget : Nat) : Attempt (Option (List (Bytes × Bytes))) :=
  collectKeys table.map (fun key => do
    match ← table.map.lookup key with
    | none => return none
    | some value => return some (key, value)) budget

def entryTexts (table : Table) (entry : Bytes × Bytes) : Except MapError (String × String) := do
  let key ← table.map.keyText table.factor entry.1
  let value ← table.valueText entry.2
  return (key, value)

def dump (table : Table) (budget : Nat) : Attempt (Option (List (String × String))) := do
  match ← table.dumpBytes budget with
  | none => return none
  | some entries => return some (← liftM (entries.mapM table.entryTexts))

def clear (table : Table) (budget : Nat) : Attempt (Option Unit) :=
  match table.map.kind with
  | .hash | .lruHash | .percpuHash | .lruPercpuHash | .hashOfMaps => clearKeys table.map budget
  | .array | .percpuArray => table.refuse .arrayElementsStay
  | .progArray | .perfEventArray | .stackTrace | .arrayOfMaps => do
      clearIndices table.map
      return some ()
  | kind => table.refuse (.clearingKind kind)

end Table

end KernelMaps
