import KernelMaps.Map.Descriptor
import KernelMaps.Text.Hexadecimal
import KernelMaps.Text.Json

/-!
What the commands print: texts of whole lines, or JSON.
-/

namespace KernelMaps.Cli

def line (text : String) : String :=
  text ++ "\n"

def lines (texts : List String) : String :=
  "".intercalate (texts.map line)

def infoText (map : Descriptor) : String :=
  let share := if map.kind.isPerCpu then " per CPU" else ""
  lines [s!"name:        {map.name}", s!"kind:        {map.kind.name}",
    s!"key size:    {map.keySize} bytes", s!"value size:  {map.valueSize} bytes{share}",
    s!"max entries: {map.capacity.toNat}"]

def infoJson (map : Descriptor) : String :=
  Text.jsonObject "" [("name", Text.jsonString map.name), ("kind", Text.jsonString map.kind.name),
    ("key_size", Text.jsonNumber map.keySize), ("value_size", Text.jsonNumber map.valueSize),
    ("max_entries", Text.jsonNumber map.capacity.toNat), ("percpu", Text.jsonBool map.kind.isPerCpu)]

def entriesText (entries : List (String × String)) : String :=
  lines (entries.map fun entry => s!"{entry.1}: {entry.2}")

def entriesJson (entries : List (String × String)) : String :=
  Text.jsonList "" (entries.map fun entry =>
    Text.jsonObject "  " [("key", Text.jsonString entry.1), ("value", Text.jsonString entry.2)])

def sharesText (values : List String) : String :=
  lines (values.zipIdx.map fun (value, cpu) => s!"cpu {cpu}: {value}")

def sampleText (bytes : Bytes) : String :=
  let digits := String.ofList (Text.hexPairs bytes)
  line s!"{bytes.length} bytes: {digits}"

end KernelMaps.Cli
