import KernelMaps.Log
import KernelMaps.Map.Raw
import KernelMaps.Map.Strided

/-!
Typed access to maps of keys and values. A view exists only over a map of a kind its family stands
over and of the sizes its types have; how a value travels and how the map is emptied depend on the
family.
-/

namespace KernelMaps

structure Content (ν : Type) where
  pack : ν → Except MapError Bytes
  unpack : Bytes → Except MapError ν

namespace Content

def single (α : Type) [Element α] : Content α where
  pack value := .ok (Element.encode value)
  unpack := readElement α

def perCpu (α : Type) [Element α] (cpus : Nat) : Content (List α) where
  pack values :=
    if values.length ≠ cpus then .error (.badValueSize cpus values.length)
    else .ok (writeSlots (Element.size α) values)
  unpack := readSlots α cpus (Element.size α)

end Content

inductive Clearing where
  | byFirstKey
  | byIndex
  deriving DecidableEq

structure TypedMap (κ ν : Type) where
  map : Descriptor
  content : Content ν
  clearing : Clearing
  summary : String

namespace TypedMap

variable {κ ν α : Type} [Element κ]

def get (view : TypedMap κ ν) (key : κ) : Attempt ν := do
  match ← view.map.lookup (Element.encode key) with
  | none => throw .keyNotFound
  | some bytes => liftM (view.content.unpack bytes)

def updateWith (view : TypedMap κ ν) (key : κ) (value : ν) (flags : UInt64) : Attempt Unit := do
  let bytes ← liftM (view.content.pack value)
  view.map.update (Element.encode key) bytes flags

def update (view : TypedMap κ ν) (key : κ) (value : ν) : Attempt Unit :=
  view.updateWith key value 0

def remove (view : TypedMap κ ν) (key : κ) : Attempt Unit :=
  view.map.delete (Element.encode key)

def capacity (view : TypedMap κ ν) : Nat :=
  view.map.capacity.toNat

/-- The element under a key that a walk handed out; a key that has vanished ends the walk. -/
def visit (view : TypedMap κ ν) (key : Bytes) : Attempt (Option (κ × ν)) := do
  let key ← liftM (readElement κ key)
  tryCatch (do
    let value ← view.get key
    return some (key, value)) fun error =>
    match error with
    | .keyNotFound => return none
    | error => throw error

def enumerate (view : TypedMap κ ν) (budget : Nat) : Attempt (Option (List (κ × ν))) :=
  collectKeys view.map view.visit budget

def clear (view : TypedMap κ ν) (budget : Nat) : Attempt (Option Unit) :=
  match view.clearing with
  | .byFirstKey => clearKeys view.map budget
  | .byIndex => do
      clearIndices view.map
      return some ()

def valuesFrom (view : TypedMap UInt32 ν) (before : List ν) (first : Nat) :
    (count : Nat) → Attempt (List ν)
  | 0 => return before.reverse
  | count + 1 => do
      let value ← view.get (UInt32.ofNat first)
      view.valuesFrom (value :: before) (first + 1) count

def snapshot (view : TypedMap UInt32 ν) : Attempt (List ν) :=
  view.valuesFrom [] 0 view.capacity

end TypedMap

namespace Descriptor

def checkSingle (map : Descriptor) (family : Family) (keySize valueSize : Nat) :
    Except MapError Unit := do
  map.checkFamily family
  map.checkSize .key keySize map.keySize
  map.checkSize .value valueSize map.valueSize

theorem checkSingle_eq_ok {map : Descriptor} {family : Family} {keySize valueSize : Nat}
    {result : Unit} :
    map.checkSingle family keySize valueSize = .ok result ↔
      map.kind ∈ family.kinds ∧ map.keySize = keySize ∧ map.valueSize = valueSize := by
  simp only [checkSingle, bind_eq_ok, checkFamily_eq_ok, checkSize_eq_ok, exists_and_left,
    exists_const]

/-- Whether a map has the kind and the sizes of a view with a value per CPU, whose slots have to be
filled by whole values. -/
def checkPerCpu (map : Descriptor) (family : Family) (keySize valueSize : Nat) :
    Except MapError Unit := do
  map.checkFamily family
  map.checkSize .key keySize map.keySize
  if valueSize % slotAlignment ≠ 0 then throw (.misalignedValue map.name valueSize)
  map.checkSize .value valueSize map.valueSize

theorem checkPerCpu_eq_ok {map : Descriptor} {family : Family} {keySize valueSize : Nat}
    {result : Unit} :
    map.checkPerCpu family keySize valueSize = .ok result ↔
      map.kind ∈ family.kinds ∧ map.keySize = keySize ∧ valueSize % slotAlignment = 0 ∧
        map.valueSize = valueSize := by
  by_cases aligned : valueSize % slotAlignment = 0
  · simp only [checkPerCpu, aligned, ne_eq, not_true_eq_false, if_false, bind_eq_ok,
      checkFamily_eq_ok, checkSize_eq_ok, exists_and_left, exists_const, true_and]
  · simp only [checkPerCpu, aligned, ne_eq, not_false_eq_true, if_true, bind_eq_ok, false_and,
      and_false, iff_false]
    rintro ⟨_, _, _, _, _, thrown, _⟩
    cases thrown

end Descriptor

namespace TypedMap

variable (κ α : Type) [Element κ] [Element α]

def single (family : Family) (clearing : Clearing) (summary : Descriptor → String)
    (map : Descriptor) : Except MapError (TypedMap κ α) := do
  map.checkSingle family (Element.size κ) (Element.size α)
  return ⟨map, Content.single α, clearing, summary map⟩

variable {κ α} in
/-- A view exists only over a map of its kind and sizes, and keeps to it. -/
theorem single_eq_ok {family : Family} {clearing : Clearing} {summary : Descriptor → String}
    {map : Descriptor} {view : TypedMap κ α} :
    single κ α family clearing summary map = .ok view ↔
      (map.kind ∈ family.kinds ∧ map.keySize = Element.size κ ∧ map.valueSize = Element.size α) ∧
        ⟨map, Content.single α, clearing, summary map⟩ = view := by
  simp only [single, bind_eq_ok, Descriptor.checkSingle_eq_ok, exists_and_left, exists_const]
  exact and_congr_right fun _ => ⟨fun same => Except.ok.inj same, fun same => congrArg _ same⟩

def perCpu (family : Family) (summary : Descriptor → String) (map : Descriptor) :
    Except MapError (TypedMap κ (List α)) := do
  map.checkPerCpu family (Element.size κ) (Element.size α)
  return ⟨map, Content.perCpu α map.cpus, .byFirstKey, summary map⟩

variable {κ α} in
theorem perCpu_eq_ok {family : Family} {summary : Descriptor → String} {map : Descriptor}
    {view : TypedMap κ (List α)} :
    perCpu κ α family summary map = .ok view ↔
      (map.kind ∈ family.kinds ∧ map.keySize = Element.size κ ∧
        Element.size α % Descriptor.slotAlignment = 0 ∧ map.valueSize = Element.size α) ∧
          ⟨map, Content.perCpu α map.cpus, .byFirstKey, summary map⟩ = view := by
  simp only [perCpu, bind_eq_ok, Descriptor.checkPerCpu_eq_ok, exists_and_left, exists_const]
  exact and_congr_right fun _ => ⟨fun same => Except.ok.inj same, fun same => congrArg _ same⟩

/-- A fixed-size array. It also stands over per-CPU arrays, where every read and write then fails
for the size of the value. -/
def array : Descriptor → Except MapError (TypedMap UInt32 α) :=
  single UInt32 α .array .byFirstKey fun map =>
    s!"array table '{map.name}' ({map.capacity.toNat} entries)"

def perCpuArray : Descriptor → Except MapError (TypedMap UInt32 (List α)) :=
  perCpu UInt32 α .perCpuArray fun map =>
    s!"percpu array table '{map.name}' ({map.capacity.toNat} entries x {map.cpus} CPUs)"

def hash : Descriptor → Except MapError (TypedMap κ α) :=
  single κ α .hash .byFirstKey fun map =>
    s!"hash table '{map.name}' ({map.kind.name}, {map.capacity.toNat} entries)"

def perCpuHash : Descriptor → Except MapError (TypedMap κ (List α)) :=
  perCpu κ α .perCpuHash fun map =>
    s!"percpu hash table '{map.name}' ({map.capacity.toNat} entries x {map.cpus} CPUs)"

def references (family : Family) : Descriptor → Except MapError (TypedMap UInt32 Int32) :=
  single UInt32 Int32 family .byIndex fun map =>
    s!"{map.kind.name} '{map.name}' ({map.capacity.toNat} slots)"

def mapInMap (map : Descriptor) : Except MapError (TypedMap κ Int32) :=
  single κ Int32 .mapInMap (if map.kind = .arrayOfMaps then .byIndex else .byFirstKey)
    (fun map => s!"{map.kind.name} '{map.name}' ({map.capacity.toNat} entries)") map

def sockhash : Descriptor → Except MapError (TypedMap κ Int32) :=
  single κ Int32 .sockhash .byFirstKey fun map =>
    s!"sockhash '{map.name}' ({map.capacity.toNat} entries)"

def localStorage (family : Family) : Descriptor → Except MapError (TypedMap Int32 α) :=
  single Int32 α family .byFirstKey fun map => s!"{map.kind.name} '{map.name}'"

def cgroupStorage : Descriptor → Except MapError (TypedMap CgroupKey α) :=
  single CgroupKey α .cgroupStorage .byFirstKey fun map => s!"cgroup storage '{map.name}'"

def perCpuCgroupStorage : Descriptor → Except MapError (TypedMap CgroupKey (List α)) :=
  perCpu CgroupKey α .perCpuCgroupStorage fun map =>
    s!"percpu cgroup storage '{map.name}' ({map.cpus} CPUs)"

end TypedMap

end KernelMaps
