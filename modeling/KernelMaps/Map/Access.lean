import KernelMaps.Error
import KernelMaps.Bytes

/-!
Calls on one kernel map as data. A program is a tree that branches on the replies it gets, so
what it asks for can be stated for every map that could stand behind it; running it threads the
state of one map through the calls.
-/

namespace KernelMaps

/-- The five calls on the elements of a map. Only a queue or stack is asked without a key, and the
first key is the next one after none; `room` is the size of the caller's buffer. -/
inductive Request where
  | lookup (key : Option Bytes) (room : Nat)
  | update (key : Option Bytes) (value : Bytes) (flags : UInt64)
  | delete (key : Bytes)
  | take (key : Option Bytes) (room : Nat)
  | nextKey (key : Option Bytes) (room : Nat)
  deriving DecidableEq

abbrev Reply := Except Errno Bytes

inductive Access (α : Type) where
  | done (result : α)
  | call (request : Request) (resume : Reply → Access α)

namespace Access

def bind {α β : Type} (program : Access α) (next : α → Access β) : Access β :=
  match program with
  | done result => next result
  | call request resume => call request fun reply => (resume reply).bind next

instance : Monad Access where
  pure := done
  bind := bind

theorem bind_done {α : Type} (program : Access α) : program.bind done = program := by
  induction program with
  | done result => rfl
  | call request resume ih => simp [bind, ih]

theorem bind_bind {α β γ : Type} (program : Access α) (next : α → Access β)
    (last : β → Access γ) :
    (program.bind next).bind last = program.bind fun result => (next result).bind last := by
  induction program with
  | done result => rfl
  | call request resume ih => simp [bind, ih]

instance : LawfulMonad Access :=
  LawfulMonad.mk' Access bind_done (fun _ _ => rfl) bind_bind

def ask (request : Request) : Access Reply :=
  call request done

def run {α σ : Type} (answer : Request → σ → Reply × σ) : Access α → σ → α × σ
  | done result, state => (result, state)
  | call request resume, state =>
      let (reply, state) := answer request state
      (resume reply).run answer state

/-- The calls a program makes when it is given these replies; it is cut off where they end. -/
def requests {α : Type} : Access α → List Reply → List Request
  | done _, _ => []
  | call request _, [] => [request]
  | call request resume, reply :: replies => request :: (resume reply).requests replies

def Every {α : Type} (property : Request → Prop) : Access α → Prop
  | done _ => True
  | call request resume => property request ∧ ∀ reply, (resume reply).Every property

def AtMost {α : Type} : Nat → Access α → Prop
  | _, done _ => True
  | 0, call _ _ => False
  | bound + 1, call _ resume => ∀ reply, (resume reply).AtMost bound

@[simp] theorem run_done {α σ : Type} (answer : Request → σ → Reply × σ) (result : α) (state : σ) :
    (done result).run answer state = (result, state) := rfl

@[simp] theorem run_pure {α σ : Type} (answer : Request → σ → Reply × σ) (result : α) (state : σ) :
    (pure result : Access α).run answer state = (result, state) := rfl

@[simp] theorem run_ask {σ : Type} (answer : Request → σ → Reply × σ) (request : Request)
    (state : σ) : (ask request).run answer state = answer request state := rfl

theorem run_bind {α β σ : Type} (answer : Request → σ → Reply × σ) (program : Access α)
    (next : α → Access β) (state : σ) :
    (program >>= next).run answer state =
      (next (program.run answer state).1).run answer (program.run answer state).2 := by
  induction program generalizing state with
  | done result => rfl
  | call request resume ih => exact ih (answer request state).1 (answer request state).2

end Access

/-- A program that can fail; what it did to the map before stays done. -/
abbrev Attempt := ExceptT MapError Access

/-- What can stand behind a descriptor: it answers calls, and may change with each of them. -/
class Backend (β : Type) where
  answer : Request → β → Reply × β

def Backend.run {α β : Type} [Backend β] (backend : β) (attempt : Attempt α) :
    Except MapError α × β :=
  Access.run answer attempt.run backend

theorem Backend.run_bind {α γ β : Type} [Backend β] (backend : β) (first : Attempt α)
    (next : α → Attempt γ) :
    Backend.run backend (first >>= next) =
      match Backend.run backend first with
      | (.ok result, after) => Backend.run after (next result)
      | (.error error, after) => (.error error, after) := by
  rw [Backend.run, ExceptT.run_bind, Access.run_bind]
  cases found : Backend.run backend first with
  | mk outcome after =>
      rw [Backend.run] at found
      rw [found]
      cases outcome <;> rfl

namespace Attempt

def perform (request : Request) : Attempt Reply :=
  ExceptT.lift (Access.ask request)

def loop {σ α : Type} (step : σ → Attempt (σ ⊕ α)) : Nat → σ → Attempt (Option α)
  | 0, _ => pure none
  | budget + 1, state => do
      match ← step state with
      | .inl state => loop step budget state
      | .inr result => return some result

end Attempt

end KernelMaps
