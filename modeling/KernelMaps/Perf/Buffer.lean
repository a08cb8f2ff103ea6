import KernelMaps.Cpu.List
import KernelMaps.Map.Raw
import KernelMaps.Perf.Host

/-!
Perf buffers: one ring per CPU, watched together and drained into a receiver. While a buffer is
open, the perf event array holds under each of its CPUs the descriptor of the ring there, so that
what programs emit on that CPU lands in it. What was opened before a failure stays open; closing
tries everything and reports all failures together.
-/

namespace KernelMaps

structure PerfOptions where
  pages : Nat := 8
  wakeup : Option UInt32 := none

namespace PerfOptions

def validate (options : PerfOptions) : Except MapError Unit :=
  if options.pages = bitRange options.pages.log2 then .ok ()
  else .error (.invalidPageCount options.pages)

end PerfOptions

structure PerfReader where
  cpu : Cpu
  fd : Nat
  /-- The descriptor the ring reports now, which should be the one it was opened with. -/
  reported : Nat
  deriving DecidableEq

structure Watch where
  fd : Nat
  cpu : Cpu
  deriving DecidableEq

/-- Readers stand in ascending order of their CPUs. A closed buffer watches nothing and has no
receiver; the totals count from its making on and wrap around. -/
structure PerfBuffer (ρ : Type) (β : Type := Simulation) where
  map : Descriptor
  host : PerfHost ρ β
  readers : List PerfReader := []
  watched : Option (List Watch) := none
  receiver : Option Nat := none
  samples : UInt64 := 0
  lost : UInt64 := 0

namespace Descriptor

def checkEvents (map : Descriptor) : Except MapError Unit := do
  map.checkFamily .perfEventArray
  map.checkSize .key 4 map.keySize
  map.checkSize .value 4 map.valueSize

def storeEvent (map : Descriptor) (cpu : Cpu) (fd : Nat) : Attempt Unit :=
  map.update (wordBytes 4 cpu.toNat) (wordBytes 4 fd) 0

def eraseEvent (map : Descriptor) (cpu : Cpu) : Attempt Unit :=
  tryCatch (map.delete (wordBytes 4 cpu.toNat)) fun error =>
    match error with
    | .keyNotFound => return ()
    | error => throw error

end Descriptor

def closingResult : List String → Except MapError Unit
  | [] => .ok ()
  | failures => .error (.closeFailed failures.length ("; ".intercalate failures))

namespace PerfBuffer

variable {ρ β : Type}

def ofMap (map : Descriptor) (host : PerfHost ρ β) : Except MapError (PerfBuffer ρ β) := do
  map.checkEvents
  return { map, host }

def isOpen (buffer : PerfBuffer ρ β) : Bool :=
  buffer.watched.isSome

def cpus (buffer : PerfBuffer ρ β) : List Cpu :=
  buffer.readers.map PerfReader.cpu

def log (buffer : PerfBuffer ρ β) (line : LogLine) : PerfBuffer ρ β :=
  { buffer with host := buffer.host.log line }

def onMap {α : Type} [Backend β] (buffer : PerfBuffer ρ β) (program : Attempt α) :
    Except MapError α × PerfBuffer ρ β :=
  let (result, host) := buffer.host.onMap program
  (result, { buffer with host })

def release (buffer : PerfBuffer ρ β) (fd : Nat) : PerfBuffer ρ β :=
  match buffer.host.ring? fd with
  | none => buffer
  | some ring => { buffer with
      host := buffer.host.closeRing ring
      watched := buffer.watched.map fun watched => watched.filter fun watch => watch.fd ≠ fd }

def unwatch (buffer : PerfBuffer ρ β) (fd : Nat) : Except Errno Unit × PerfBuffer ρ β :=
  match buffer.watched with
  | none => (.ok (), buffer)
  | some watched =>
      if watched.any fun watch => watch.fd = fd then
        (.ok (), { buffer with watched := some (watched.filter fun watch => watch.fd ≠ fd) })
      else (.error .noEntry, buffer)

def install (buffer : PerfBuffer ρ β) (reader : PerfReader) : PerfBuffer ρ β :=
  let replaced := buffer.readers.filter fun other => other.cpu = reader.cpu
  let before := buffer.readers.filter fun other => other.cpu < reader.cpu
  let behind := buffer.readers.filter fun other => reader.cpu < other.cpu
  replaced.foldl (fun buffer other => buffer.release other.fd)
    { buffer with readers := before ++ reader :: behind }

def abandon (buffer : PerfBuffer ρ β) (cpu : Cpu) (fd : Nat) : PerfBuffer ρ β :=
  match buffer.unwatch fd with
  | (.ok _, buffer) => buffer.release fd
  | (.error errno, buffer) =>
      (buffer.log (.warn
        s!"perf reader on {cpu.label}: epoll removal after failed open: {errno.message}")).release fd

/-- Opens the ring of one CPU. Its descriptor is stored last, so that a failure leaves none. -/
def openOne [Backend β] (buffer : PerfBuffer ρ β) (request : RingRequest) :
    Except MapError Unit × PerfBuffer ρ β :=
  match buffer.watched with
  | none => (.error (.unsupported buffer.map.name .ringsClosed), buffer)
  | some watched =>
      match buffer.host.openRing request with
      | (.error errno, host) => (.error (.io (.system errno)), { buffer with host })
      | (.ok ring, host) =>
          let cpu := request.cpu
          match ring.watching with
          | some errno => (.error (.io (.system errno)), { buffer with host }.release ring.fd)
          | none =>
              let watch : Watch := ⟨ring.fd, cpu⟩
              let buffer := { buffer with host, watched := some (watched ++ [watch]) }
              match buffer.onMap (buffer.map.storeEvent cpu ring.fd) with
              | (.error error, buffer) => (.error error, buffer.abandon cpu ring.fd)
              | (.ok _, buffer) =>
                  let line := s!"perf reader for '{buffer.map.name}' open on {cpu.label}"
                  (.ok (), (buffer.log (.debug line)).install ⟨cpu, ring.fd, ring.reported⟩)

def openEach [Backend β] (buffer : PerfBuffer ρ β) (options : PerfOptions) :
    List Cpu → Except MapError Unit × PerfBuffer ρ β
  | [] => (.ok (), buffer)
  | cpu :: rest =>
      match buffer.openOne ⟨cpu, options.pages, options.wakeup⟩ with
      | (.error source, buffer) => (.error (.openOnCpu .ring cpu source), buffer)
      | (.ok _, buffer) => buffer.openEach options rest

def openOn [Backend β] (buffer : PerfBuffer ρ β) (cpus : List Cpu) (receiver : Nat)
    (options : PerfOptions) : Except MapError Unit × PerfBuffer ρ β :=
  match options.validate with
  | .error error => (.error error, buffer)
  | .ok _ =>
      if buffer.isOpen ∨ buffer.readers ≠ [] then
        (.error (.alreadyOpen buffer.map.name), buffer)
      else
        match { buffer with watched := some [], receiver := some receiver }.openEach options cpus with
        | (.error error, buffer) => (.error error, buffer)
        | (.ok _, buffer) =>
            let count := buffer.readers.length
            (.ok (), buffer.log (.info
              s!"perf buffer '{buffer.map.name}' open on {count} CPU(s), {options.pages} page(s) each"))

def openAll [Backend β] (buffer : PerfBuffer ρ β) (online : Except Errno Bytes) (receiver : Nat)
    (options : PerfOptions) : Except MapError Unit × PerfBuffer ρ β :=
  match options.validate, CpuList.ofFile online with
  | .error error, _ => (.error error, buffer)
  | .ok _, .error error => (.error error, buffer)
  | .ok _, .ok cpus => buffer.openOn cpus receiver options

/-- Hands what a drain brought to the receiver, and adds it to the totals. Samples count only when
the drain ran to its end. -/
def deliver (buffer : PerfBuffer ρ β) (receiver : Nat) (reader : PerfReader) (drained : Drained) :
    PerfBuffer ρ β :=
  let lostLines := (drained.deliveries.filterMap Delivery.lost?).map fun count => LogLine.warn
    s!"perf buffer '{buffer.map.name}' lost {count} sample(s) on {reader.cpu.label}"
  let received := drained.deliveries.map fun delivery => ⟨receiver, reader.fd, delivery⟩
  { buffer with
    lost := buffer.lost + Delivery.sumLost drained.deliveries
    samples := buffer.samples +
      UInt64.ofNat (if drained.failure.isSome then 0 else drained.samples)
    host := { buffer.host with
      received := received.reverse ++ buffer.host.received
      lines := (lostLines ++ drained.lines).reverse ++ buffer.host.lines } }

variable [RingContent ρ]

def drainCpu (buffer : PerfBuffer ρ β) (cpu : Cpu) : Except MapError Nat × PerfBuffer ρ β :=
  match buffer.receiver, buffer.readers.find? fun reader => reader.cpu = cpu with
  | some receiver, some reader =>
      match buffer.host.ring? reader.fd with
      | none => (.ok 0, buffer)
      | some ring =>
          let (drained, content) := RingContent.drain ring.content
          let buffer := { buffer with host := buffer.host.setContent reader.fd content }
          let buffer := buffer.deliver receiver reader drained
          match drained.failure with
          | some errno => (.error (.call .readingRing (.system errno)), buffer)
          | none => (.ok drained.samples, buffer)
  | _, _ => (.ok 0, buffer)

def drainEach (buffer : PerfBuffer ρ β) : List Cpu → Except MapError Nat × PerfBuffer ρ β
  | [] => (.ok 0, buffer)
  | cpu :: rest =>
      match buffer.drainCpu cpu with
      | (.error error, buffer) => (.error error, buffer)
      | (.ok count, buffer) =>
          match buffer.drainEach rest with
          | (.error error, buffer) => (.error error, buffer)
          | (.ok more, buffer) => (.ok (count + more), buffer)

def consume (buffer : PerfBuffer ρ β) : Except MapError Nat × PerfBuffer ρ β :=
  buffer.drainEach buffer.cpus

def readyWatches (buffer : PerfBuffer ρ β) : List Watch :=
  let isReady := fun (watch : Watch) =>
    (buffer.host.ring? watch.fd).any fun ring => RingContent.ready ring.content
  ((buffer.watched.getD []).filter isReady).mergeSort fun first second =>
    buffer.host.arrivals.idxOf first.fd ≤ buffer.host.arrivals.idxOf second.fd

/-- Drains the rings that are ready, without waiting for others, and says how many they were. -/
def poll (buffer : PerfBuffer ρ β) : Except MapError Nat × PerfBuffer ρ β :=
  if buffer.readers.isEmpty then (.ok 0, buffer)
  else
    let ready := buffer.readyWatches.take buffer.readers.length
    let noted := { buffer with host := { buffer.host with arrivals := ready.map Watch.fd } }
    match noted.drainEach (ready.map Watch.cpu) with
    | (.error error, buffer) => (.error error, buffer)
    | (.ok _, buffer) => (.ok ready.length, buffer)

def holdsRecord (buffer : PerfBuffer ρ β) : Bool :=
  buffer.readers.any fun reader =>
    (buffer.host.ring? reader.fd).any fun ring => RingContent.holds ring.content

/-- Polls as soon as a ring holds a record. Nothing is answered and nothing is polled where that
would wait, even if a ring is still ready from a drain that was cut short. -/
def awaitPoll (buffer : PerfBuffer ρ β) : Option (Except MapError Nat) × PerfBuffer ρ β :=
  if buffer.holdsRecord then
    let (result, buffer) := buffer.poll
    (some result, buffer)
  else (none, buffer)

omit [RingContent ρ]

def checkAwaitable (buffer : PerfBuffer ρ β) : Except MapError Unit :=
  if buffer.isOpen then .ok () else .error (.unsupported "perf buffer" .notOpened)

def closeOne [Backend β] (buffer : PerfBuffer ρ β) (reader : PerfReader) :
    List String × PerfBuffer ρ β :=
  let (unwatched, buffer) := buffer.unwatch reader.reported
  let (erased, buffer) := buffer.onMap (buffer.map.eraseEvent reader.cpu)
  let watching := match unwatched with
    | .ok _ => []
    | .error errno => [s!"{reader.cpu.label}: epoll removal: {errno.message}"]
  let storing := match erased with
    | .ok _ => []
    | .error error => [s!"{reader.cpu.label}: {error.message}"]
  let line := s!"perf reader for '{buffer.map.name}' closed on {reader.cpu.label}"
  (watching ++ storing, (buffer.release reader.fd).log (.debug line))

def closeEach [Backend β] (buffer : PerfBuffer ρ β) :
    List PerfReader → List String × PerfBuffer ρ β
  | [] => ([], buffer)
  | reader :: rest =>
      let (failures, buffer) := buffer.closeOne reader
      let (more, buffer) := buffer.closeEach rest
      (failures ++ more, buffer)

def close [Backend β] (buffer : PerfBuffer ρ β) : Except MapError Unit × PerfBuffer ρ β :=
  let (failures, closed) := { buffer with readers := [] }.closeEach buffer.readers
  (closingResult failures, { closed with watched := none, receiver := none })

def drop [Backend β] (buffer : PerfBuffer ρ β) : PerfHost ρ β :=
  if buffer.isOpen then
    match buffer.close with
    | (.ok _, closed) => closed.host
    | (.error error, closed) =>
        closed.host.log (.warn s!"closing perf buffer '{buffer.map.name}': {error.message}")
  else buffer.host

end PerfBuffer

end KernelMaps
