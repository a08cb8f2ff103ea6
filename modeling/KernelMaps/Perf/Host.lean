import KernelMaps.Map.Simulation
import KernelMaps.Perf.Event

/-!
What stands behind a perf buffer: the perf event array, and the rings that are open. Rings are
granted or refused by a plan that may say something else each time, descriptors are never given
out twice, and what the buffer hands to its receivers, opens, drops and logs is written down.
-/

namespace KernelMaps

structure RingOutcome (ρ : Type) where
  content : Except Errno ρ
  watching : Option Errno := none
  /-- Whether the ring goes by another descriptor when it is asked for it again. -/
  renumbered : Bool := false

structure LiveRing (ρ : Type) where
  fd : Nat
  cpu : Cpu
  content : ρ

structure Received where
  receiver : Nat
  ring : Nat
  delivery : Delivery
  deriving DecidableEq

structure EventHost (β : Type := Simulation) where
  backend : β
  lines : List LogLine := []

namespace EventHost

variable {β : Type}

def log (host : EventHost β) (line : LogLine) : EventHost β :=
  { host with lines := line :: host.lines }

def onMap {α : Type} [Backend β] (host : EventHost β) (program : Attempt α) :
    Except MapError α × EventHost β :=
  let (result, backend) := Backend.run host.backend program
  (result, { host with backend })

end EventHost

structure PerfHost (ρ : Type) (β : Type := Simulation) extends EventHost β where
  plan : Nat → RingRequest → RingOutcome ρ
  requests : Nat := 0
  nextFd : Nat := 3
  rings : List (LiveRing ρ) := []
  /-- The rings in the order in which they were last found ready, oldest first. -/
  arrivals : List Nat := []
  opened : List RingRequest := []
  dropped : List Cpu := []
  received : List Received := []

structure OpenedRing where
  fd : Nat
  reported : Nat
  watching : Option Errno

namespace PerfHost

variable {ρ β : Type}

def log (host : PerfHost ρ β) (line : LogLine) : PerfHost ρ β :=
  { host with toEventHost := host.toEventHost.log line }

def ring? (host : PerfHost ρ β) (fd : Nat) : Option (LiveRing ρ) :=
  host.rings.find? fun ring => ring.fd = fd

theorem ring?_fd {host : PerfHost ρ β} {fd : Nat} {ring : LiveRing ρ}
    (found : host.ring? fd = some ring) : ring.fd = fd := by
  simpa using List.find?_some found

def setContent (host : PerfHost ρ β) (fd : Nat) (content : ρ) : PerfHost ρ β :=
  { host with rings := host.rings.map fun ring =>
      if ring.fd = fd then { ring with content } else ring }

def openRing (host : PerfHost ρ β) (request : RingRequest) :
    Except Errno OpenedRing × PerfHost ρ β :=
  let outcome := host.plan host.requests request
  let asked := { host with requests := host.requests + 1 }
  match outcome.content with
  | .error errno => (.error errno, asked)
  | .ok content =>
      let fd := host.nextFd
      (.ok ⟨fd, if outcome.renumbered then fd + 1 else fd, outcome.watching⟩, { asked with
        nextFd := fd + 2
        rings := host.rings ++ [{ fd, cpu := request.cpu, content }]
        opened := request :: host.opened })

def closeRing (host : PerfHost ρ β) (ring : LiveRing ρ) : PerfHost ρ β :=
  { host with
    rings := host.rings.filter fun other => other.fd ≠ ring.fd
    dropped := ring.cpu :: host.dropped }

def arrive (host : PerfHost ρ β) (ring : LiveRing ρ) (content : ρ) : PerfHost ρ β :=
  let arrivals := if ring.fd ∈ host.arrivals then host.arrivals else host.arrivals ++ [ring.fd]
  { host.setContent ring.fd content with arrivals }

def onMap {α : Type} [Backend β] (host : PerfHost ρ β) (program : Attempt α) :
    Except MapError α × PerfHost ρ β :=
  let (result, base) := host.toEventHost.onMap program
  (result, { host with toEventHost := base })

end PerfHost

end KernelMaps
