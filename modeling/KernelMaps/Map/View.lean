import KernelMaps.Map.ElementType
import KernelMaps.Map.Typed

/-!
Typed views whose family and types are chosen at run time. A family that fixes the type of its
keys or values takes that one, whatever was asked for.
-/

namespace KernelMaps

inductive ValueShape where
  | single (type : ElementType)
  | perCpu (type : ElementType)
  deriving DecidableEq

abbrev ValueShape.Carrier : ValueShape → Type
  | single type => type.Carrier
  | perCpu type => List type.Carrier

structure AnyMap where
  key : ElementType
  value : ValueShape
  view : TypedMap key.Carrier value.Carrier

namespace Family

def view? (family : Family) (key value : ElementType) (map : Descriptor) :
    Option (Except MapError AnyMap) :=
  let single := fun (key value : ElementType)
    (made : Except MapError (TypedMap key.Carrier value.Carrier)) =>
      some (made.map fun view => AnyMap.mk key (.single value) view)
  let perCpu := fun (key : ElementType)
    (made : Except MapError (TypedMap key.Carrier (List value.Carrier))) =>
      some (made.map fun view => AnyMap.mk key (.perCpu value) view)
  match family with
  | array => single .u32 value (TypedMap.array value.Carrier map)
  | perCpuArray => perCpu .u32 (TypedMap.perCpuArray value.Carrier map)
  | hash => single key value (TypedMap.hash key.Carrier value.Carrier map)
  | perCpuHash => perCpu key (TypedMap.perCpuHash key.Carrier value.Carrier map)
  | mapInMap => single key .i32 (TypedMap.mapInMap key.Carrier map)
  | sockhash => single key .i32 (TypedMap.sockhash key.Carrier map)
  | progArray | cgroupArray | devmap | xskmap | sockmap =>
      single .u32 .i32 (TypedMap.references family map)
  | skStorage | inodeStorage | taskStorage =>
      single .i32 value (TypedMap.localStorage value.Carrier family map)
  | cgroupStorage => single .cgroupKey value (TypedMap.cgroupStorage value.Carrier map)
  | perCpuCgroupStorage => perCpu .cgroupKey (TypedMap.perCpuCgroupStorage value.Carrier map)
  | queueStack | stackTrace | perfEventArray => none

end Family

end KernelMaps
