import KernelMaps.Errno
import KernelMaps.Map.Kind
import KernelMaps.Text.Numeral

/-!
What can go wrong: a text that is no element, a map that does not suit a view, a call that the
kernel refuses. Each cause has its message, its status code and the chain of causes behind it.
-/

namespace KernelMaps

inductive ParseReason where
  | oddDigits
  | notHex
  | numeral (fault : Text.NumeralFault)
  | outOfRange (bits : Nat)
  | notBraced
  | fieldCount (expected actual : Nat)
  | stated (text : String)
  deriving DecidableEq

def ParseReason.message : ParseReason → String
  | oddDigits => "odd number of hex digits"
  | notHex => "not hex"
  | numeral fault => fault.message
  | outOfRange bits => s!"out of range for {bits}-bit integer"
  | notBraced => "expected '\x7b ... \x7d'"
  | fieldCount expected actual => s!"expected {expected} fields, got {actual}"
  | stated text => text

inductive CodecError where
  | overflow (limit : Nat)
  | parse (text : String) (reason : ParseReason)
  | width (expected actual : Nat)
  | invalidUtf8
  /-- No answer of a codec: a slice reaches behind the end, and the program is over. -/
  | outOfBounds
  deriving DecidableEq

def CodecError.message : CodecError → String
  | overflow limit => s!"text form does not fit the {limit}-byte encode buffer"
  | parse text reason => s!"cannot parse '{text}': {reason.message}"
  | width expected actual => s!"codec expects {expected} bytes, got {actual}"
  | invalidUtf8 => "codec produced invalid UTF-8"
  | outOfBounds => "slice index out of range"

/-- A CPU's number, which is also its slot in arrays indexed by CPU. -/
abbrev Cpu := UInt32

def Cpu.label (cpu : Cpu) : String :=
  s!"CPU:{cpu.toNat}"

inductive Side where
  | key
  | value
  deriving DecidableEq

def Side.name : Side → String
  | key => "key"
  | value => "value"

inductive Operation where
  | gettingValue
  | updatingValue
  | deletingValue
  | poppingValue
  | gettingNextKey
  | openingPin
  | queryingInfo
  | readingRing
  deriving DecidableEq

def Operation.phrase : Operation → String
  | gettingValue => "getting value"
  | updatingValue => "updating value"
  | deletingValue => "deleting value"
  | poppingValue => "popping value"
  | gettingNextKey => "getting next key"
  | openingPin => "opening pinned map"
  | queryingInfo => "querying map info"
  | readingRing => "reading perf buffer"

inductive Refusal where
  | readPerCpu
  | writePerCpu
  | notPerCpu
  | arrayElementsStay
  | clearingKind (kind : Kind)
  | ringsClosed
  | notOpened
  deriving DecidableEq

def Refusal.reason : Refusal → String
  | readPerCpu => "per-CPU table, use get_value_percpu"
  | writePerCpu => "per-CPU table, use update_value_percpu"
  | notPerCpu => "not a per-CPU table"
  | arrayElementsStay => "array map does not support clearing elements"
  | clearingKind kind => s!"clearing {kind.name} tables is not supported"
  | ringsClosed => "perf buffer is closed"
  | notOpened => "must be opened before async registration"

inductive PerCpuResource where
  | ring
  | counter
  deriving DecidableEq

def PerCpuResource.name : PerCpuResource → String
  | ring => "perf buffer"
  | counter => "perf event"

inductive MapError where
  | unexpectedKind (table : String) (kind : Kind) (expected : Family)
  | unsupportedKind (number : Nat)
  | misalignedValue (table : String) (size : Nat)
  | sizeMismatch (table : String) (side : Side) (expected actual : Nat)
  | badKeySize (expected actual : Nat)
  | badValueSize (expected actual : Nat)
  | keyNotFound
  | empty
  | call (operation : Operation) (source : IoError)
  | codec (source : CodecError)
  | unsupported (table : String) (refusal : Refusal)
  | invalidPageCount (count : Nat)
  | openOnCpu (resource : PerCpuResource) (cpu : Cpu) (source : MapError)
  | alreadyOpen (table : String)
  | closeFailed (count : Nat) (details : String)
  | cpuTopology (source : IoError)
  | io (source : IoError)
  deriving DecidableEq

namespace MapError

def message : MapError → String
  | unexpectedKind table kind expected =>
      s!"Table '{table}' is not a {expected.description} table (map kind is {kind.name})"
  | unsupportedKind number => s!"Map type {number} is not supported on this kernel"
  | misalignedValue table size =>
      s!"Table '{table}': leaf must be aligned to 8 bytes, got {size} bytes"
  | sizeMismatch table side expected actual =>
      s!"Table '{table}': {side.name} size is {actual} bytes, expected {expected}"
  | badKeySize expected actual => s!"bad key size: expected {expected} bytes, got {actual}"
  | badValueSize expected actual => s!"bad value size: expected {expected}, got {actual}"
  | keyNotFound => "Key not found"
  | empty => "Container is empty"
  | call operation source => s!"Error {operation.phrase}: {source.message}"
  | codec source => source.message
  | unsupported table refusal => s!"{table}: {refusal.reason}"
  | invalidPageCount count => s!"Invalid page count {count}: must be a non-zero power of two"
  | openOnCpu resource cpu source =>
      s!"Failed to open {resource.name} on {cpu.label}: {source.message}"
  | alreadyOpen table => s!"{table}: previously opened per-CPU resources were not closed"
  | closeFailed count details => s!"Failed to close {count} CPU reader(s): {details}"
  | cpuTopology source => s!"Failed to query CPU topology: {source.message}"
  | io source => source.message

/-- The number of the system error behind a failure, or -1 where the system has no part in it. -/
def code : MapError → Int
  | call _ source | cpuTopology source | io source =>
      match source.errno? with
      | some errno => errno.number
      | none => -1
  | keyNotFound | empty => Errno.noEntry.number
  | openOnCpu _ _ source => source.code
  | _ => -1

def isConstruction : MapError → Bool
  | unexpectedKind .. | unsupportedKind .. | misalignedValue .. | sizeMismatch .. => true
  | _ => false

def chain : MapError → List String
  | call operation source => [(call operation source).message, source.message]
  | openOnCpu resource cpu source => (openOnCpu resource cpu source).message :: source.chain
  | cpuTopology source => [(cpuTopology source).message, source.message]
  | error => [error.message]

end MapError

theorem bind_eq_ok {ε α β : Type} {first : Except ε α} {next : α → Except ε β} {result : β} :
    first >>= next = .ok result ↔ ∃ value, first = .ok value ∧ next value = .ok result := by
  cases first with
  | error error => simp [bind, Except.bind]
  | ok value => simp [bind, Except.bind]

end KernelMaps
