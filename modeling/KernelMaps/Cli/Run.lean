import KernelMaps.Cli.Arguments
import KernelMaps.Cli.Preflight
import KernelMaps.Cli.Report
import KernelMaps.Map.Pinned
import KernelMaps.Map.Table
import KernelMaps.Perf.Numbering

/-!
Runs of the command line against a machine: its user, its files, the maps pinned on it and the
rings of its CPUs. A run ends with a status and with what it printed. The status of a failure is
told by words in the message that is printed for it.
-/

namespace KernelMaps.Cli

inductive Failure where
  | preflight (fault : PreflightFault)
  | opening (path : String) (error : MapError)
  | dumping (error : MapError)
  | map (error : MapError)
  | oneValueOnly (name : String)
  deriving DecidableEq

namespace Failure

def chain : Failure → List String
  | preflight fault => [fault.message]
  | opening path error => s!"Failed to open pinned map {path}" :: error.chain
  | dumping error => "Failed to dump table" :: error.chain
  | map error => error.chain
  | oneValueOnly name => [s!"{name} is not a per-CPU map: pass exactly one value"]

def message (failure : Failure) : String :=
  ": ".intercalate failure.chain

end Failure

def exitSuccess : Nat := 0

def exitError : Nat := 1

def exitUsage : Nat := 2

def exitNoPermission : Nat := 77

def mentions (phrase : List Char) : List Char → Bool
  | [] => phrase.isEmpty
  | char :: rest => phrase.isPrefixOf (char :: rest) || mentions phrase rest

def exitCode (message : String) : Nat :=
  let text := message.toList.map Char.toLower
  let holds := fun (phrase : String) => mentions phrase.toList text
  if holds "permission denied" || holds "operation not permitted" then exitNoPermission
  else if holds "cannot parse" || holds "codec expects" then exitUsage
  else exitError

structure PinnedMap where
  pin : Pin
  backend : Simulation

structure Machine where
  user : Nat := 0
  version : String
  node? : String → Option Text.Node
  online : Except Errno Bytes
  possibleCpus : UInt16
  maps : List PinnedMap
  events : EventPolicy := {}
  records : Cpu → Bytes := fun _ => []

structure Printed where
  out : String := ""
  error : String := ""
  deriving DecidableEq

abbrev Step := ExceptT Failure (StateM (Machine × Printed))

namespace Step

def machine : Step Machine := do
  return (← get).1

def print (text : String) : Step Unit :=
  modify fun (machine, printed) => (machine, { printed with out := printed.out ++ text })

def printError (text : String) : Step Unit :=
  modify fun (machine, printed) => (machine, { printed with error := printed.error ++ text })

end Step

namespace Machine

def backend? (machine : Machine) (path : String) : Option Simulation :=
  (machine.maps.find? fun map => map.pin.path = path).map PinnedMap.backend

def setBackend (machine : Machine) (path : String) (backend : Simulation) : Machine :=
  { machine with maps := machine.maps.map fun map =>
      if map.pin.path = path then { map with backend } else map }

def openRing (machine : Machine) (opened : List Cpu) (request : RingRequest) :
    Except Errno KernelRing := do
  let ring ← machine.events.openRing request
  let waiting := machine.records (shownCpu opened request.cpu)
  return { ring.write 0 waiting with head := waiting.length }

end Machine

def mapFd : Int := 3

def openPath (path : String) : Step Descriptor := do
  let machine ← Step.machine
  let _ ← liftM ((do
    checkUser machine.user
    checkKernel machine.version
    checkPath path (machine.node? path) : Except PreflightFault (List LogLine)).mapError
      Failure.preflight)
  liftM ((Pin.openMap (machine.maps.map PinnedMap.pin) path mapFd machine.possibleCpus).mapError
    (Failure.opening path))

def openTable (arguments : MapArguments) : Step Table := do
  let map ← openPath arguments.path
  return { map := { map with
    keyCodec := arguments.keyFormat.codec
    valueCodec := arguments.valueFormat.codec } }

def onBackend {α : Type} (path : String) (failure : MapError → Failure)
    (run : Simulation → Except MapError α × Simulation) : Step α := do
  let machine ← Step.machine
  match machine.backend? path with
  | none => throw (failure (.io (.system .badFile)))
  | some backend =>
      let (result, backend) := run backend
      modify fun (machine, printed) => (machine.setBackend path backend, printed)
      liftM (result.mapError failure)

def onTable {α : Type} (arguments : MapArguments) (program : Attempt α) : Step α :=
  onBackend arguments.path .map fun backend => backend.run program

def watchSession (machine : Machine) (map : Descriptor) (arguments : WatchArguments)
    (backend : Simulation) : Except MapError (PerfBuffer KernelRing) × PerfHost KernelRing :=
  let cpus := (CpuList.ofFile machine.online).toOption.getD []
  let plan := fun (before : Nat) (request : RingRequest) =>
    ({ content := machine.openRing (cpus.take (before + 1)) request } : RingOutcome KernelRing)
  match PerfBuffer.ofMap map { backend, plan } with
  | .error error => (.error error, { backend, plan })
  | .ok buffer =>
      match buffer.openAll machine.online 0 ⟨arguments.pages, arguments.wakeup⟩ with
      | (.error error, buffer) => (.error error, buffer.drop)
      | (.ok _, buffer) =>
          match buffer.consume with
          | (.error error, buffer) => (.error error, buffer.drop)
          | (.ok _, buffer) =>
              let (result, closed) := buffer.close
              (result.map fun _ => buffer, closed.host)

/-- Watches until it is interrupted, which happens when it would wait for the first time. -/
def watch (arguments : WatchArguments) : Step Unit := do
  let map ← openPath arguments.path
  let machine ← Step.machine
  match machine.backend? arguments.path with
  | none => throw (.map (.io (.system .badFile)))
  | some backend =>
      let (result, host) := watchSession machine map arguments backend
      modify fun (machine, printed) => (machine.setBackend arguments.path host.backend, printed)
      let samples := host.received.reverse.filterMap fun received => received.delivery.sample?
      if !arguments.quiet then Step.print ("".intercalate (samples.map sampleText))
      let buffer ← liftM (result.mapError Failure.map)
      Step.printError (line s!"{buffer.samples} samples, {buffer.lost} lost")

def perform : Command → Step Unit
  | .info arguments json => do
      let table ← openTable arguments
      Step.print (if json then line (infoJson table.map) else infoText table.map)
  | .dump arguments json => do
      let table ← openTable arguments
      let entries ← onBackend arguments.path .dumping fun backend => backend.runWalk table.dump
      Step.print (if json then line (entriesJson entries) else entriesText entries)
  | .get arguments key => do
      let table ← openTable arguments
      if table.map.kind.isPerCpu then
        Step.print (sharesText (← onTable arguments (table.getPerCpu key)))
      else Step.print (line (← onTable arguments (table.get key)))
  | .update arguments key values => do
      let table ← openTable arguments
      if table.map.kind.isPerCpu then onTable arguments (table.updatePerCpu key values)
      else match values with
        | [value] => onTable arguments (table.update key value)
        | _ => throw (.oneValueOnly table.map.name)
  | .delete arguments key => do
      let table ← openTable arguments
      onTable arguments (table.remove key)
  | .clear arguments => do
      let table ← openTable arguments
      onBackend arguments.path .map fun backend => backend.runWalk table.clear
  | .watch arguments => watch arguments

structure Ending where
  exit : Nat
  printed : Printed
  deriving DecidableEq

def runCommand (command : Command) (machine : Machine) : Ending × Machine :=
  match ((perform command).run).run (machine, {}) with
  | (.ok _, machine, printed) => (⟨exitSuccess, printed⟩, machine)
  | (.error failure, machine, printed) =>
      let message := failure.message
      (⟨exitCode message, { printed with error := printed.error ++ line s!"error: {message}" }⟩,
        machine)

def run (words : List String) (machine : Machine) : Except UsageFault Ending × Machine :=
  match parse words with
  | .error fault => (.error fault, machine)
  | .ok command =>
      let (ending, machine) := runCommand command machine
      (.ok ending, machine)

def runEach : List (List String) → Machine → List (Except UsageFault Ending) × Machine
  | [], machine => ([], machine)
  | words :: rest, machine =>
      let (ending, machine) := run words machine
      let (endings, machine) := runEach rest machine
      (ending :: endings, machine)

end KernelMaps.Cli
