import KernelMaps.Map.Store

/-!
A store that can be made to fail: its calls are counted and recorded, and a schedule says which of
them are refused. A call that is refused changes nothing.
-/

namespace KernelMaps

inductive Primitive where
  | lookup
  | update
  | delete
  | take
  | nextKey
  deriving DecidableEq

namespace Primitive

def name : Primitive → String
  | lookup => "lookup"
  | update => "update"
  | delete => "delete"
  | take => "lookup_and_delete"
  | nextKey => "next_key"

def ofName? (name : String) : Option Primitive :=
  [lookup, update, delete, take, nextKey].find? fun primitive => primitive.name == name

end Primitive

def Request.primitive : Request → Primitive
  | lookup .. => .lookup
  | update .. => .update
  | delete .. => .delete
  | take .. => .take
  | nextKey .. => .nextKey

/-- Lets some calls of a primitive pass and refuses the next ones. -/
structure Fault where
  primitive : Primitive
  passing : Nat
  refusing : Nat
  errno : Errno

namespace Fault

def ofCalls (primitive : Primitive) (first times : Nat) (errno : Errno) : Fault where
  primitive
  passing := first - 1
  refusing := if first = 0 then times - 1 else times
  errno

def refuses (fault : Fault) (primitive : Primitive) : Bool :=
  fault.primitive = primitive && fault.passing = 0 && fault.refusing ≠ 0

def pass (fault : Fault) (primitive : Primitive) : Fault :=
  if fault.primitive ≠ primitive then fault
  else if fault.passing = 0 then { fault with refusing := fault.refusing - 1 }
  else { fault with passing := fault.passing - 1 }

end Fault

structure Exchange where
  request : Request
  reply : Reply

/-- What stands behind a descriptor. A descriptor whose number names no map is refused everything
and nothing is recorded. -/
structure Simulation where
  store : Store
  faults : List Fault
  mapped : Bool
  journal : List Exchange

namespace Simulation

def ofStore (store : Store) : Simulation := ⟨store, [], true, []⟩

/-- Every call counts for the schedule, also one that is refused. -/
def record (simulation : Simulation) (request : Request) (reply : Reply) (store : Store) :
    Reply × Simulation :=
  let faults := simulation.faults.map fun fault => fault.pass request.primitive
  let journal := ⟨request, reply⟩ :: simulation.journal
  (reply, { simulation with store, faults, journal })

def answer (request : Request) (simulation : Simulation) : Reply × Simulation :=
  if !simulation.mapped then (.error .badFile, simulation)
  else
    match simulation.faults.find? fun fault => fault.refuses request.primitive with
    | some fault => simulation.record request (.error fault.errno) simulation.store
    | none =>
        let (reply, store) := simulation.store.answer request
        simulation.record request reply store

instance : Backend Simulation := ⟨answer⟩

def run {α : Type} (simulation : Simulation) (attempt : Attempt α) :
    Except MapError α × Simulation :=
  Access.run answer attempt.run simulation

@[simp] theorem run_pure {α : Type} (simulation : Simulation) (result : α) :
    simulation.run (pure result) = (.ok result, simulation) := rfl

@[simp] theorem run_throw {α : Type} (simulation : Simulation) (error : MapError) :
    simulation.run (throw error : Attempt α) = (.error error, simulation) := rfl

@[simp] theorem run_liftM {α : Type} (simulation : Simulation) (result : Except MapError α) :
    simulation.run (liftM result : Attempt α) = (result, simulation) := rfl

@[simp] theorem run_perform (simulation : Simulation) (request : Request) :
    simulation.run (Attempt.perform request) =
      (.ok (simulation.answer request).1, (simulation.answer request).2) := rfl

theorem run_lift {α : Type} (simulation : Simulation) (program : Access α) :
    simulation.run (ExceptT.lift program) =
      (.ok (program.run answer simulation).1, (program.run answer simulation).2) := by
  rw [run, ExceptT.run_lift, ← bind_pure_comp, Access.run_bind]
  rfl

theorem run_bind {α β : Type} (simulation : Simulation) (first : Attempt α)
    (next : α → Attempt β) :
    simulation.run (first >>= next) =
      match simulation.run first with
      | (.ok result, after) => after.run (next result)
      | (.error error, after) => (.error error, after) := by
  rw [run, ExceptT.run_bind, Access.run_bind]
  cases found : simulation.run first with
  | mk result after =>
      rw [run] at found
      rw [found]
      cases result with
      | ok result => rfl
      | error error => rfl

theorem run_tryCatch {α : Type} (simulation : Simulation) (program : Attempt α)
    (handle : MapError → Attempt α) :
    simulation.run (tryCatch program handle) =
      match simulation.run program with
      | (.ok result, after) => (.ok result, after)
      | (.error error, after) => after.run (handle error) := by
  rw [run, ExceptT.run_tryCatch, Access.run_bind]
  cases found : simulation.run program with
  | mk result after =>
      rw [run] at found
      rw [found]
      cases result with
      | ok result => rfl
      | error error => rfl

theorem run_loop_succ {σ α : Type} (simulation : Simulation) (step : σ → Attempt (σ ⊕ α))
    (budget : Nat) (state : σ) :
    simulation.run (Attempt.loop step (budget + 1) state) =
      match simulation.run (step state) with
      | (.ok (.inl state), after) => after.run (Attempt.loop step budget state)
      | (.ok (.inr result), after) => (.ok (some result), after)
      | (.error error, after) => (.error error, after) := by
  rw [Attempt.loop, run_bind]
  cases simulation.run (step state) with
  | mk outcome after =>
      cases outcome with
      | error error => rfl
      | ok outcome => cases outcome <;> rfl

/-- Runs a walk with as many steps as the store can make it take; the default stands in for a walk
that is still not over, which does not happen. -/
def runWalk {α : Type} [Inhabited α] (simulation : Simulation)
    (walk : Nat → Attempt (Option α)) : Except MapError α × Simulation :=
  let (outcome, simulation) := simulation.run (walk simulation.store.walkBudget)
  (outcome.map (·.getD default), simulation)

end Simulation

end KernelMaps
