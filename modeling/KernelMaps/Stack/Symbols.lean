import KernelMaps.Error

/-!
Processes, stack numbers and the symbol caches kept per process. Every negative process number
stands for the kernel.
-/

namespace KernelMaps

structure Pid where
  number : Int32
  deriving DecidableEq

namespace Pid

def kernel : Pid := ⟨-1⟩

def normalized (pid : Pid) : Pid :=
  if pid.number < 0 then kernel else pid

def label (pid : Pid) : String :=
  s!"PID:{pid.number.toInt}"

end Pid

/-- What the kernel answers when it stores a stack: a map key, or a negative error. -/
structure StackId where
  number : Int64
  deriving DecidableEq

namespace StackId

def isValid (id : StackId) : Bool :=
  0 ≤ id.number

def key? (id : StackId) : Option UInt32 :=
  let number := id.number.toInt
  if 0 ≤ number ∧ number < bitRange 32 then some (UInt32.ofNat number.toNat) else none

end StackId

structure SymbolOptions where
  useDebugFile : Bool := true
  checkDebugFileCrc : Bool := true
  deriving DecidableEq

/-- What makes symbol caches, from a state that may change with each of them, and what the caches
answer. -/
structure Symbolizer (σ χ : Type) where
  start : σ
  create : σ → Pid → SymbolOptions → χ × σ
  resolve : χ → UInt64 → Option String × χ

def unknownSymbol : String := "[UNKNOWN]"

inductive SymbolEvent where
  | created (pid : Pid) (options : SymbolOptions)
  | resolved (pid : Pid) (address : UInt64)
  | released (pid : Pid)
  deriving DecidableEq

abbrev SymbolCaches (χ : Type) := List (Pid × χ)

namespace SymbolCaches

variable {χ : Type}

def find? (caches : SymbolCaches χ) (pid : Pid) : Option χ :=
  (List.find? (fun entry => entry.1 == pid) caches).map Prod.snd

def erase (caches : SymbolCaches χ) (pid : Pid) : SymbolCaches χ :=
  List.filter (fun entry => !(entry.1 == pid)) caches

def insert (caches : SymbolCaches χ) (pid : Pid) (cache : χ) : SymbolCaches χ :=
  (pid, cache) :: caches.erase pid

end SymbolCaches

/-- Asks about one subject after the other; a text stands for each that has no name. -/
def resolveEach {σ α : Type} (resolve : σ → α → Option String × σ) (state : σ) :
    List α → List String × σ
  | [] => ([], state)
  | subject :: rest =>
      let (name, state) := resolve state subject
      let (names, state) := resolveEach resolve state rest
      (name.getD unknownSymbol :: names, state)

end KernelMaps
