import KernelMaps.Codec.Hex
import KernelMaps.Log
import KernelMaps.Map.Descriptor
import KernelMaps.Text.Path
import KernelMaps.Text.Utf8

/-!
Maps that are pinned to a path. The kernel knows the kind and the sizes of such a map and up to
sixteen bytes of its name; a map without a name goes by the name of its path.
-/

namespace KernelMaps

structure MapFacts where
  number : Nat
  keySize : UInt32
  valueSize : UInt32
  capacity : UInt32
  name : Bytes

structure Pin where
  path : String
  facts : MapFacts
  opening : Option Errno := none
  querying : Option Errno := none

namespace MapFacts

def nameRoom : Nat := 16

def nameText (facts : MapFacts) : String :=
  let kept := (facts.name.take nameRoom).takeWhile fun byte => byte != 0
  String.ofList (Text.decodeUtf8Lossy kept)

end MapFacts

namespace Pin

def find (pins : List Pin) (path : String) : Except IoError Pin :=
  if path.toList.contains '\x00' then .error (.invalidInput "path contains a NUL byte")
  else
    match pins.find? fun pin => pin.path = path with
    | none => .error (.system .noEntry)
    | some pin =>
        match pin.opening with
        | some errno => .error (.system errno)
        | none => .ok pin

def facts? (pin : Pin) : Except Errno MapFacts :=
  match pin.querying with
  | some errno => .error errno
  | none => .ok pin.facts

/-- Describes an opened map, which goes by hexadecimal keys and values at first. -/
def describe (pin : Pin) (fd : Int) (cpus : UInt16) : Except MapError Descriptor := do
  let facts ← pin.facts?.mapError fun errno => .call .queryingInfo (.system errno)
  match Kind.ofNumber? facts.number with
  | none => throw (.unsupportedKind facts.number)
  | some kind =>
      let name := facts.nameText
      let pathName := String.ofList ((Text.fileName? pin.path.toList).getD [])
      return {
        name := if name.isEmpty then pathName else name
        kind
        keySize := facts.keySize.toNat
        valueSize := facts.valueSize.toNat
        capacity := facts.capacity
        fd
        ownsFd := true
        cpuCount := cpus
        keyCodec := Codec.hex
        valueCodec := Codec.hex }

def openMap (pins : List Pin) (path : String) (fd : Int) (cpus : UInt16) :
    Except MapError Descriptor := do
  let pin ← (find pins path).mapError (.call .openingPin)
  pin.describe fd cpus

end Pin

def Descriptor.pinSummary (map : Descriptor) : LogLine :=
  let sizes := s!"key {map.keySize} B, value {map.valueSize} B, {map.capacity.toNat} entries"
  .debug s!"opened pinned map '{map.name}' ({map.kind.name}, {sizes})"

end KernelMaps
