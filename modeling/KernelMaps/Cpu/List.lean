import KernelMaps.Error
import KernelMaps.Text.Utf8

/-!
Lists of CPUs as the kernel publishes them: numbers and inclusive ranges between commas. Reading
keeps the order and the repeats of the text; the canonical text of a set has maximal ranges in
ascending order.
-/

namespace KernelMaps.CpuList

def readCpu (text : List Char) : Option Cpu :=
  match Text.readNatural 10 (bitRange 32 - 1) text with
  | .ok number => some (UInt32.ofNat number)
  | .error _ => none

def range (first last : Cpu) : List Cpu :=
  (List.range' first.toNat (last.toNat + 1 - first.toNat)).map UInt32.ofNat

/-- One piece between commas: a number, or two around the first dash in ascending order. -/
def readPiece (piece : List Char) : Option (List Cpu) :=
  match Text.splitFirst '-' piece with
  | none => (readCpu piece).map fun cpu => [cpu]
  | some (before, after) => do
      let first ← readCpu before
      let last ← readCpu after
      if first ≤ last then return range first last else failure

def pieces (text : String) : List (List Char) :=
  (Text.splitAll ',' (Text.trim text.toList)).filter fun piece => !piece.isEmpty

def readPieces : List (List Char) → Except IoError (List Cpu)
  | [] => .ok []
  | piece :: rest =>
      match readPiece piece with
      | none => .error (.invalidData s!"invalid CPU range '{String.ofList piece}'")
      | some cpus => (readPieces rest).map fun others => cpus ++ others

def parse (text : String) : Except IoError (List Cpu) :=
  readPieces (pieces text)

def ofFile (contents : Except Errno Bytes) : Except MapError (List Cpu) :=
  match contents with
  | .error errno => .error (.cpuTopology (.system errno))
  | .ok bytes =>
      match Text.decodeUtf8? bytes with
      | none => .error (.cpuTopology (.invalidData "stream did not contain valid UTF-8"))
      | some text => (parse (String.ofList text)).mapError .cpuTopology

def extendRuns (cpu : Cpu) : List (Cpu × Cpu) → List (Cpu × Cpu)
  | [] => [(cpu, cpu)]
  | (first, last) :: rest =>
      if cpu.toNat + 1 = first.toNat then (cpu, last) :: rest
      else (cpu, cpu) :: (first, last) :: rest

def runs (cpus : List Cpu) : List (Cpu × Cpu) :=
  cpus.foldr extendRuns []

def renderRun (run : Cpu × Cpu) : List Char :=
  if run.1 = run.2 then Text.decimal run.1.toNat
  else Text.decimal run.1.toNat ++ '-' :: Text.decimal run.2.toNat

def render (cpus : List Cpu) : String :=
  String.ofList ([','].intercalate ((runs cpus).map renderRun))

end KernelMaps.CpuList
