import KernelMaps.Map.Element

/-!
Typed buffers: one value that fills a buffer, or a row of values in slots of equal size. Writing
widens slots that are too small for a value, reading refuses them. The size of a row wraps around,
and a row that is smaller for it takes fewer values.
-/

namespace KernelMaps

def checkLength (α : Type) [Element α] (length : Nat) : Except MapError Unit :=
  if length = Element.size α then .ok ()
  else .error (.badValueSize (Element.size α) length)

def readElement (α : Type) [Element α] (bytes : Bytes) : Except MapError α :=
  (checkLength α bytes.length).map fun _ => Element.decode bytes

theorem readElement_of_length {α : Type} [Element α] {bytes : Bytes}
    (exact : bytes.length = Element.size α) :
    readElement α bytes = .ok (Element.decode bytes) := by
  rw [readElement, checkLength, if_pos exact]
  rfl

/-- The values back to back, each at the start of its slot and zeros behind it, as far as the room
for them goes. -/
def writeSlots {α : Type} [Element α] (stride : Nat) (values : List α) : Bytes :=
  let width := max stride (Element.size α)
  let room := machineSize (values.length * width)
  fitted room ((values.take (room / width)).flatMap fun value => fitted width (Element.encode value))

def slots : (count stride : Nat) → Bytes → List Bytes
  | 0, _, _ => []
  | count + 1, stride, bytes => bytes.take stride :: slots count stride (bytes.drop stride)

def checkSlots (α : Type) [Element α] (count stride length : Nat) : Except MapError Unit :=
  let expected := machineSize (count * stride)
  if stride < Element.size α ∨ length ≠ expected then .error (.badValueSize expected length)
  else .ok ()

def readSlots (α : Type) [Element α] (count stride : Nat) (bytes : Bytes) :
    Except MapError (List α) :=
  (checkSlots α count stride bytes.length).map fun _ =>
    (slots (bytes.length / stride) stride bytes).map fun slot =>
      Element.decode (slot.take (Element.size α))

end KernelMaps
