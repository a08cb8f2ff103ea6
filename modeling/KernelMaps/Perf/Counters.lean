import KernelMaps.Perf.Buffer

/-!
Counters of events on CPUs, for programs to read: an array of them holds under each CPU the
descriptor of the counter there. The same rules hold as for perf buffers, without rings to watch.
-/

namespace KernelMaps

structure LiveCounter where
  cpu : Cpu
  fd : Nat
  deriving DecidableEq

/-- What grants counters or refuses them, and can be shared by several arrays. What happened has the
newest first. -/
structure CounterKernel where
  plan : Nat → CounterRequest → Except Errno Unit
  requests : List CounterRequest := []
  opened : List CounterRequest := []

def CounterKernel.ofPolicy (policy : EventPolicy) : CounterKernel where
  plan _ := policy.openCounter

structure CounterHost (β : Type := Simulation) extends EventHost β, CounterKernel where
  nextFd : Nat := 3
  closed : List Nat := []

namespace CounterHost

variable {β : Type}

def log (host : CounterHost β) (line : LogLine) : CounterHost β :=
  { host with toEventHost := host.toEventHost.log line }

def openCounter (host : CounterHost β) (request : CounterRequest) :
    Except Errno Nat × CounterHost β :=
  let asked := { host with requests := request :: host.requests }
  match host.plan host.requests.length request with
  | .error errno => (.error errno, asked)
  | .ok _ => (.ok host.nextFd, { asked with
      nextFd := host.nextFd + 1
      opened := request :: host.opened })

def closeCounter (host : CounterHost β) (fd : Nat) : CounterHost β :=
  { host with closed := fd :: host.closed }

def onMap {α : Type} [Backend β] (host : CounterHost β) (program : Attempt α) :
    Except MapError α × CounterHost β :=
  let (result, base) := host.toEventHost.onMap program
  (result, { host with toEventHost := base })

end CounterHost

structure CounterArray (β : Type := Simulation) where
  map : Descriptor
  host : CounterHost β
  counters : List LiveCounter := []

structure CounterOptions where
  kind : UInt32
  config : UInt64
  pid : Int32

namespace CounterArray

variable {β : Type}

def ofMap (map : Descriptor) (host : CounterHost β) : Except MapError (CounterArray β) := do
  map.checkEvents
  return { map, host }

def cpus (array : CounterArray β) : List Cpu :=
  array.counters.map LiveCounter.cpu

def onMap {α : Type} [Backend β] (array : CounterArray β) (program : Attempt α) :
    Except MapError α × CounterArray β :=
  let (result, host) := array.host.onMap program
  (result, { array with host })

def install (array : CounterArray β) (counter : LiveCounter) : CounterArray β :=
  let replaced := array.counters.filter fun other => other.cpu = counter.cpu
  let before := array.counters.filter fun other => other.cpu < counter.cpu
  let behind := array.counters.filter fun other => counter.cpu < other.cpu
  { array with
    counters := before ++ counter :: behind
    host := replaced.foldl (fun host other => host.closeCounter other.fd) array.host }

def openOne [Backend β] (array : CounterArray β) (options : CounterOptions) (cpu : Cpu) :
    Except MapError Unit × CounterArray β :=
  match array.host.openCounter ⟨options.kind, options.config, options.pid, cpu⟩ with
  | (.error errno, host) => (.error (.io (.system errno)), { array with host })
  | (.ok fd, host) =>
      match { array with host }.onMap (array.map.storeEvent cpu fd) with
      | (.error error, array) => (.error error, { array with host := array.host.closeCounter fd })
      | (.ok _, array) => (.ok (), array.install ⟨cpu, fd⟩)

def openEach [Backend β] (array : CounterArray β) (options : CounterOptions) :
    List Cpu → Except MapError Unit × CounterArray β
  | [] => (.ok (), array)
  | cpu :: rest =>
      match array.openOne options cpu with
      | (.error source, array) => (.error (.openOnCpu .counter cpu source), array)
      | (.ok _, array) => array.openEach options rest

def openOn [Backend β] (array : CounterArray β) (cpus : List Cpu) (options : CounterOptions) :
    Except MapError Unit × CounterArray β :=
  if array.counters ≠ [] then (.error (.alreadyOpen array.map.name), array)
  else
    match array.openEach options cpus with
    | (.error error, array) => (.error error, array)
    | (.ok _, array) =>
        let count := array.counters.length
        let event := s!"{options.kind.toNat}/{options.config.toNat}"
        (.ok (), { array with host := array.host.log (.info
          s!"perf event array '{array.map.name}': counter {event} open on {count} CPU(s)") })

def openAll [Backend β] (array : CounterArray β) (online : Except Errno Bytes)
    (options : CounterOptions) : Except MapError Unit × CounterArray β :=
  match CpuList.ofFile online with
  | .error error => (.error error, array)
  | .ok cpus => array.openOn cpus options

def closeOne [Backend β] (array : CounterArray β) (counter : LiveCounter) :
    List String × CounterArray β :=
  let (erased, array) := array.onMap (array.map.eraseEvent counter.cpu)
  let failures := match erased with
    | .ok _ => []
    | .error error => [s!"{counter.cpu.label}: {error.message}"]
  (failures, { array with host := array.host.closeCounter counter.fd })

def closeEach [Backend β] (array : CounterArray β) :
    List LiveCounter → List String × CounterArray β
  | [] => ([], array)
  | counter :: rest =>
      let (failures, array) := array.closeOne counter
      let (more, array) := array.closeEach rest
      (failures ++ more, array)

def close [Backend β] (array : CounterArray β) : Except MapError Unit × CounterArray β :=
  let (failures, closed) := { array with counters := [] }.closeEach array.counters
  (closingResult failures, closed)

def drop [Backend β] (array : CounterArray β) : CounterHost β :=
  if array.counters = [] then array.host
  else
    match array.close with
    | (.ok _, closed) => closed.host
    | (.error error, closed) =>
        closed.host.log (.warn s!"closing perf event array '{array.map.name}': {error.message}")

end CounterArray

end KernelMaps
