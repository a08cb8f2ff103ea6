import KernelMaps.Codec.Basic
import KernelMaps.Map.Kind

/-!
What is known of a map before it is used: its name, kind and sizes, the codecs for its keys and
values, and how large a buffer one of its values takes.
-/

namespace KernelMaps

/-- The facts about one map. A value is one CPU's share for the per-CPU kinds, and `cpuCount` is the
number of CPUs that have one, of which the kernel knows at most some thousands. -/
structure Descriptor where
  name : String
  kind : Kind
  keySize : Nat
  valueSize : Nat
  capacity : UInt32
  fd : Int
  ownsFd : Bool
  cpuCount : UInt16
  keyCodec : Codec
  valueCodec : Codec

namespace Descriptor

def cpus (map : Descriptor) : Nat :=
  map.cpuCount.toNat

def slotAlignment : Nat := 8

/-- A size rounded up to whole slots. It wraps around to nothing behind the last of them. -/
def slotSize (map : Descriptor) : Nat :=
  max slotAlignment
    (machineSize ((map.valueSize + slotAlignment - 1) / slotAlignment * slotAlignment))

def bufferSize (map : Descriptor) : Nat :=
  if map.kind.isPerCpu then machineSize (map.cpus * map.slotSize) else map.valueSize

theorem bufferSize_of_single {map : Descriptor} (single : map.kind.isPerCpu = false) :
    map.bufferSize = map.valueSize := by
  rw [bufferSize, single, if_neg Bool.false_ne_true]

theorem bufferSize_of_perCpu {map : Descriptor} (perCpu : map.kind.isPerCpu = true) :
    map.bufferSize = machineSize (map.cpus * map.slotSize) :=
  if_pos perCpu

/-- Whether the sizes of what all CPUs hold are their own words. -/
structure SlotsFit (map : Descriptor) : Prop where
  slot : map.valueSize + slotAlignment ≤ bitRange 64
  buffer : map.cpus * map.slotSize < bitRange 64

def callKeySize (map : Descriptor) : Nat :=
  if map.kind.isKeyless then 0 else map.keySize

def checkFamily (map : Descriptor) (family : Family) : Except MapError Unit :=
  if map.kind ∈ family.kinds then .ok () else .error (.unexpectedKind map.name map.kind family)

def checkSize (map : Descriptor) (side : Side) (expected actual : Nat) : Except MapError Unit :=
  if actual = expected then .ok () else .error (.sizeMismatch map.name side expected actual)

theorem callKeySize_of_keyed {map : Descriptor} (keyed : map.kind.isKeyless = false) :
    map.callKeySize = map.keySize := by
  simp [callKeySize, keyed]

theorem callKeySize_of_keyless {map : Descriptor} (keyless : map.kind.isKeyless = true) :
    map.callKeySize = 0 :=
  if_pos keyless

theorem checkFamily_eq_ok {map : Descriptor} {family : Family} {result : Unit} :
    map.checkFamily family = .ok result ↔ map.kind ∈ family.kinds := by
  rw [checkFamily]
  split
  · next listed => simp [listed]
  · next other => simp [other]

theorem checkSize_eq_ok {map : Descriptor} {side : Side} {expected actual : Nat} {result : Unit} :
    map.checkSize side expected actual = .ok result ↔ actual = expected := by
  rw [checkSize]
  split
  · next same => simp [same]
  · next other => simp [other]

end Descriptor

end KernelMaps
