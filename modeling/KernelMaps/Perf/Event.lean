import KernelMaps.Error
import KernelMaps.Perf.Ring

/-!
Opening perf events: the attributes that make an event a ring of program output or a plain
counter, and what becomes of the request when the kernel grants or refuses it. An event counts as
open only when it has been enabled too.
-/

namespace KernelMaps

structure EventAttributes where
  kind : UInt32
  config : UInt64
  samplePeriod : UInt64
  sampleType : UInt64
  wakeupEvents : UInt32
  deriving DecidableEq

namespace EventAttributes

def size : Nat := 112

end EventAttributes

/-- A request to open an event; the group is none and the descriptor is closed on exec. -/
structure EventRequest where
  attributes : EventAttributes
  pid : Int32
  cpu : Int32
  deriving DecidableEq

namespace EventRequest

def group : Int := -1

def flags : Nat := 8

end EventRequest

structure RingRequest where
  cpu : Cpu
  pages : Nat
  wakeup : Option UInt32
  deriving DecidableEq

structure CounterRequest where
  kind : UInt32
  config : UInt64
  pid : Int32
  cpu : Cpu
  deriving DecidableEq

def maxEventCpu : Nat := bitRange 31 - 1

def eventOn (cpu : Cpu) (pid : Int32) (attributes : EventAttributes) : Option EventRequest :=
  if cpu.toNat ≤ maxEventCpu then some ⟨attributes, pid, Int32.ofNat cpu.toNat⟩ else none

/-- A ring carries the output of programs: software event 10, every record, raw data only. -/
def RingRequest.event? (request : RingRequest) : Option EventRequest :=
  eventOn request.cpu (-1) ⟨1, 10, 1, 1024, request.wakeup.getD 0⟩

def CounterRequest.event? (request : CounterRequest) : Option EventRequest :=
  eventOn request.cpu request.pid ⟨request.kind, request.config, 0x7FFFFFFFFFFFFFFF, 0, 0⟩

structure EventPolicy where
  opening : Option Errno := none
  enabling : Option Errno := none

namespace EventPolicy

def open? (policy : EventPolicy) (event : Option EventRequest) : Except Errno EventRequest :=
  match event, policy.opening with
  | none, _ => .error .invalid
  | some _, some errno => .error errno
  | some event, none => .ok event

def enable (policy : EventPolicy) : Except Errno Unit :=
  match policy.enabling with
  | some errno => .error errno
  | none => .ok ()

def openCounter (policy : EventPolicy) (request : CounterRequest) : Except Errno Unit := do
  let _ ← policy.open? request.event?
  policy.enable

/-- Opens a ring, maps its memory and starts it. The size of the area has to fit a word and that of
the mapping, which has one page more, must not wrap around to nothing before it is asked whether
there is room for it. -/
def openRing (policy : EventPolicy) (request : RingRequest) : Except Errno KernelRing := do
  let _ ← policy.open? request.event?
  let size := KernelRing.pageSize * request.pages
  if bitRange 64 ≤ size ∨ machineSize (size + KernelRing.pageSize) = 0 then throw .invalid
  if addressSpace ≤ size then throw .noMemory
  policy.enable
  return .empty request.pages

end EventPolicy

end KernelMaps
