import KernelMaps.Perf.Buffer
import KernelMaps.Perf.Counters

/-!
The lives of perf buffers and counter arrays as sequences of events: what their owner does with
them, and what arrives at their rings in between. Once a buffer or an array is dropped only the
state behind it is left.
-/

namespace KernelMaps

inductive BufferEvent where
  | openOn (cpus : List Cpu) (receiver : Nat) (options : PerfOptions)
  | openAll (online : Except Errno Bytes) (receiver : Nat) (options : PerfOptions)
  | poll
  | awaitPoll
  | consume
  | close
  | drop
  | arrive (ring : Nat) (delivery : Delivery)
  /-- The next drain of a ring fails behind some deliveries. -/
  | spoil (ring : Nat) (count : Nat) (errno : Errno)

inductive BufferAnswer where
  | done
  | count (number : Nat)
  | waiting
  | noReader
  | gone
  deriving DecidableEq

inductive BufferLife where
  | alive (buffer : PerfBuffer QueuedRing)
  | ended (host : PerfHost QueuedRing)

namespace BufferLife

def host : BufferLife → PerfHost QueuedRing
  | alive buffer => buffer.host
  | ended host => host

def onHost (change : PerfHost QueuedRing → PerfHost QueuedRing) : BufferLife → BufferLife
  | alive buffer => alive { buffer with host := change buffer.host }
  | ended host => ended (change host)

def atRing (life : BufferLife) (fd : Nat)
    (change : PerfHost QueuedRing → LiveRing QueuedRing → PerfHost QueuedRing) :
    Except MapError BufferAnswer × BufferLife :=
  match life.host.ring? fd with
  | none => (.ok .noReader, life)
  | some ring => (.ok .done, life.onHost fun host => change host ring)

def operate (buffer : PerfBuffer QueuedRing) :
    BufferEvent → Except MapError BufferAnswer × BufferLife
  | .openOn cpus receiver options =>
      let (result, buffer) := buffer.openOn cpus receiver options
      (result.map fun _ => .done, alive buffer)
  | .openAll online receiver options =>
      let (result, buffer) := buffer.openAll online receiver options
      (result.map fun _ => .done, alive buffer)
  | .poll =>
      let (result, buffer) := buffer.poll
      (result.map .count, alive buffer)
  | .awaitPoll =>
      match buffer.awaitPoll with
      | (none, buffer) => (.ok .waiting, alive buffer)
      | (some result, buffer) => (result.map .count, alive buffer)
  | .consume =>
      let (result, buffer) := buffer.consume
      (result.map .count, alive buffer)
  | .close =>
      let (result, buffer) := buffer.close
      (result.map fun _ => .done, alive buffer)
  | .drop => (.ok .done, ended buffer.drop)
  | .arrive .. | .spoil .. => (.ok .done, alive buffer)

def step (life : BufferLife) (event : BufferEvent) : Except MapError BufferAnswer × BufferLife :=
  match event, life with
  | .arrive fd delivery, _ =>
      life.atRing fd fun host ring => host.arrive ring (ring.content.push delivery)
  | .spoil fd count errno, _ =>
      let fault := some (count, errno)
      life.atRing fd fun host ring => host.setContent ring.fd { ring.content with fault }
  | event, alive buffer => operate buffer event
  | _, ended host => (.ok .gone, ended host)

def run (life : BufferLife) : List BufferEvent → List (Except MapError BufferAnswer) × BufferLife
  | [] => ([], life)
  | event :: rest =>
      let (answer, life) := life.step event
      let (answers, life) := life.run rest
      (answer :: answers, life)

end BufferLife

inductive CounterEvent where
  | openOn (cpus : List Cpu) (options : CounterOptions)
  | openAll (online : Except Errno Bytes) (options : CounterOptions)
  | close
  | drop

inductive CounterLife where
  | alive (array : CounterArray)
  | ended (host : CounterHost)

namespace CounterLife

def host : CounterLife → CounterHost
  | alive array => array.host
  | ended host => host

def onHost (change : CounterHost → CounterHost) : CounterLife → CounterLife
  | alive array => alive { array with host := change array.host }
  | ended host => ended (change host)

def step (life : CounterLife) (event : CounterEvent) :
    Option (Except MapError Unit) × CounterLife :=
  match life with
  | ended host => (none, ended host)
  | alive array =>
      match event with
      | .openOn cpus options =>
          let (result, array) := array.openOn cpus options
          (some result, alive array)
      | .openAll online options =>
          let (result, array) := array.openAll online options
          (some result, alive array)
      | .close =>
          let (result, array) := array.close
          (some result, alive array)
      | .drop => (some (.ok ()), ended array.drop)

def run (life : CounterLife) :
    List CounterEvent → List (Option (Except MapError Unit)) × CounterLife
  | [] => ([], life)
  | event :: rest =>
      let (answer, life) := life.step event
      let (answers, life) := life.run rest
      (answer :: answers, life)

end CounterLife

end KernelMaps
