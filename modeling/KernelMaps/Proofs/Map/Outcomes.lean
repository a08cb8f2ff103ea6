import KernelMaps.Proofs.Map.Requests
import KernelMaps.Proofs.Refinement
import Mathlib.Data.List.Forall2

/-!
What programs come to, whatever is replied to them. A property that every result of a program has is
one of the results on any backend, and it is put together from the parts of the program. A program
that stops where a lookup succeeds makes nothing of what it finds.
-/

namespace KernelMaps

namespace Access

variable {α β : Type}

/-- Whether every result that a program can come to has a property. -/
def Yields (holds : α → Prop) : Access α → Prop
  | done result => holds result
  | call _ resume => ∀ reply, (resume reply).Yields holds

theorem Yields.mono {holds weaker : α → Prop} {program : Access α} (yields : program.Yields holds)
    (implies : ∀ result, holds result → weaker result) : program.Yields weaker := by
  induction program with
  | done result => exact implies result yields
  | call request resume ih => exact fun reply => ih reply (yields reply)

theorem yields_of_forall {holds : α → Prop} (always : ∀ result, holds result)
    (program : Access α) : program.Yields holds := by
  induction program with
  | done result => exact always result
  | call request resume ih => exact ih

theorem Yields.bind {between : α → Prop} {holds : β → Prop} {program : Access α}
    {next : α → Access β} (first : program.Yields between)
    (rest : ∀ result, between result → (next result).Yields holds) :
    (program >>= next).Yields holds := by
  induction program with
  | done result => exact rest result first
  | call request resume ih => exact fun reply => ih reply (first reply)

theorem Yields.run {σ : Type} {holds : α → Prop} {program : Access α}
    (yields : program.Yields holds) (answer : Request → σ → Reply × σ) (state : σ) :
    holds (program.run answer state).1 := by
  induction program generalizing state with
  | done result => exact yields
  | call request resume ih => exact ih _ (yields _) _

end Access

def Request.isLookup : Request → Bool
  | lookup .. => true
  | _ => false

namespace Access

variable {α β : Type}

def StopsAtLookup (result : α) : Access α → Prop
  | done _ => True
  | call request resume => ∀ reply,
      (request.isLookup = true → reply.isOk = true → resume reply = done result) ∧
        (resume reply).StopsAtLookup result

theorem StopsAtLookup.bind {program : Access α} {next : α → Access β} {result : α} {last : β}
    (first : program.StopsAtLookup result) (passes : next result = done last)
    (rest : ∀ other, (next other).StopsAtLookup last) : (program >>= next).StopsAtLookup last := by
  induction program with
  | done other => exact rest other
  | call request resume ih =>
      intro reply
      obtain ⟨stops, others⟩ := first reply
      refine ⟨?_, ih reply others⟩
      intro looks found
      have ended := stops looks found
      change resume reply >>= next = done last
      rw [ended]
      exact passes

theorem Every.stopsAtLookup {program : Access α}
    (every : program.Every fun request => request.isLookup = false) (result : α) :
    program.StopsAtLookup result := by
  induction program with
  | done other => trivial
  | call request resume ih =>
      intro reply
      refine ⟨fun looks => ?_, ih reply (every.2 reply)⟩
      rw [every.1] at looks
      contradiction

end Access

namespace Attempt

variable {α β : Type}

def Outcome (good : α → Prop) (bad : MapError → Prop) : Except MapError α → Prop
  | .ok result => good result
  | .error error => bad error

theorem Outcome.of_error {good : α → Prop} {bad : MapError → Prop} {outcome : Except MapError α}
    (holds : Outcome good bad outcome) {error : MapError} (failed : outcome = .error error) :
    bad error := by
  rwa [failed] at holds

theorem Outcome.map {bad : MapError → Prop} {outcome : Except MapError α}
    (holds : Outcome (fun _ => True) bad outcome) (change : α → β) :
    Outcome (fun _ => True) bad (outcome.map change) := by
  cases outcome with
  | ok result => trivial
  | error error => exact holds

/-- Whether all results of an attempt have one property and all its failures another. -/
def Ends (attempt : Attempt α) (good : α → Prop) (bad : MapError → Prop) : Prop :=
  attempt.run.Yields (Outcome good bad)

section

variable {good : α → Prop} {bad : MapError → Prop}

theorem ends_pure {result : α} (holds : good result) :
    (pure result : Attempt α).Ends good bad := holds

theorem ends_throw {error : MapError} (holds : bad error) :
    (throw error : Attempt α).Ends good bad := holds

theorem ends_liftM {outcome : Except MapError α} (results : ∀ result, outcome = .ok result → good result)
    (failures : ∀ error, outcome = .error error → bad error) :
    (liftM outcome : Attempt α).Ends good bad := by
  cases outcome with
  | ok result => exact results result rfl
  | error error => exact failures error rfl

theorem Ends.mono {attempt : Attempt α} {weaker : α → Prop} {milder : MapError → Prop}
    (ends : attempt.Ends good bad) (results : ∀ result, good result → weaker result)
    (failures : ∀ error, bad error → milder error) : attempt.Ends weaker milder := by
  refine Access.Yields.mono ends ?_
  intro outcome holds
  cases outcome with
  | ok result => exact results result holds
  | error error => exact failures error holds

theorem Ends.bind {attempt : Attempt α} {next : α → Attempt β} {last : β → Prop}
    (first : attempt.Ends good bad) (rest : ∀ result, good result → (next result).Ends last bad) :
    (attempt >>= next).Ends last bad := by
  rw [Ends, ExceptT.run_bind]
  refine Access.Yields.bind first ?_
  intro outcome holds
  cases outcome with
  | ok result => exact rest result holds
  | error error => exact holds

theorem ends_perform_bind {request : Request} {next : Reply → Attempt α}
    (rest : ∀ reply, (next reply).Ends good bad) : (perform request >>= next).Ends good bad :=
  rest

theorem ends_of_forall (results : ∀ result, good result) (failures : ∀ error, bad error)
    (attempt : Attempt α) : attempt.Ends good bad := by
  refine Access.yields_of_forall ?_ attempt.run
  intro outcome
  cases outcome with
  | ok result => exact results result
  | error error => exact failures error

theorem ends_of_run {attempt : Attempt α} {outcome : Except MapError α}
    (ran : attempt.run = .done outcome) (holds : Outcome good bad outcome) :
    attempt.Ends good bad := by
  rwa [Ends, ran]

theorem Ends.run {σ : Type} [Backend σ] {attempt : Attempt α} (ends : attempt.Ends good bad)
    (backend : σ) : Outcome good bad (Backend.run backend attempt).1 :=
  Access.Yields.run ends Backend.answer backend

theorem ends_lift {program : Access α} (yields : program.Yields good) :
    Ends (ExceptT.lift program) good bad := by
  rw [Ends, ExceptT.run_lift, ← bind_pure_comp]
  exact yields.bind fun _ holds => holds

theorem Ends.tryCatch {attempt : Attempt α} {handle : MapError → Attempt α}
    {caught : MapError → Prop} (first : attempt.Ends good caught)
    (rest : ∀ error, caught error → (handle error).Ends good bad) :
    (tryCatch attempt handle).Ends good bad := by
  rw [Ends, ExceptT.run_tryCatch]
  refine Access.Yields.bind first ?_
  intro outcome holds
  cases outcome with
  | ok result => exact holds
  | error error => exact rest error holds

theorem ends_loop {σ : Type} {step : σ → Attempt (σ ⊕ α)} (kept : σ → Prop)
    (each : ∀ state, kept state → (step state).Ends (Sum.elim kept fun _ => True) bad) (budget : Nat)
    {state : σ} (start : kept state) : (loop step budget state).Ends (fun _ => True) bad := by
  induction budget generalizing state with
  | zero => exact ends_pure trivial
  | succ budget ih =>
      refine (each state start).bind ?_
      intro outcome holds
      cases outcome with
      | inl state => exact ih holds
      | inr result => exact ends_pure trivial

end

def StopsAtLookup (attempt : Attempt α) (error : MapError) : Prop :=
  Access.StopsAtLookup (.error error) attempt.run

section

variable {error : MapError}

theorem stopsAtLookup_pure (result : α) : (pure result : Attempt α).StopsAtLookup error := trivial

theorem stopsAtLookup_throw (other : MapError) :
    (throw other : Attempt α).StopsAtLookup error := trivial

theorem stopsAtLookup_liftM (outcome : Except MapError α) :
    (liftM outcome : Attempt α).StopsAtLookup error := by
  cases outcome <;> trivial

theorem Asks.stopsAtLookup {attempt : Attempt α}
    (asks : attempt.Asks fun request => request.isLookup = false) (error : MapError) :
    attempt.StopsAtLookup error :=
  Access.Every.stopsAtLookup asks _

theorem StopsAtLookup.bind {attempt : Attempt α} {next : α → Attempt β}
    (first : attempt.StopsAtLookup error) (rest : ∀ result, (next result).StopsAtLookup error) :
    (attempt >>= next).StopsAtLookup error := by
  rw [StopsAtLookup, ExceptT.run_bind]
  refine Access.StopsAtLookup.bind first rfl ?_
  intro outcome
  cases outcome with
  | ok result => exact rest result
  | error other => trivial

theorem StopsAtLookup.tryCatch {attempt : Attempt α} {handle : MapError → Attempt α}
    (first : attempt.StopsAtLookup error) (passes : handle error = throw error)
    (rest : ∀ other, (handle other).StopsAtLookup error) :
    (tryCatch attempt handle).StopsAtLookup error := by
  rw [StopsAtLookup, ExceptT.run_tryCatch]
  refine Access.StopsAtLookup.bind first (congrArg ExceptT.run passes) ?_
  intro outcome
  cases outcome with
  | ok result => trivial
  | error other => exact rest other

theorem stopsAtLookup_loop {σ : Type} {step : σ → Attempt (σ ⊕ α)}
    (each : ∀ state, (step state).StopsAtLookup error) (budget : Nat) (state : σ) :
    (loop step budget state).StopsAtLookup error := by
  induction budget generalizing state with
  | zero => exact stopsAtLookup_pure none
  | succ budget ih =>
      refine (each state).bind ?_
      intro outcome
      cases outcome with
      | inl state => exact ih state
      | inr result => exact stopsAtLookup_pure (some result)

end

def outcomes {ι σ : Type} [Backend σ] (attempt : ι → Attempt Unit) (calls : List ι) (backend : σ) :
    List (Except MapError Unit) :=
  (runCalls (fun call backend => Backend.run backend (attempt call)) calls backend).1

/-- Whether operations fail only for reasons that they may have, on every run over any map. -/
def FailsOnly {ι : Type} (attempt : ι → Attempt Unit) (reason : ι → MapError → Prop) : Prop :=
  ∀ (σ : Type) [Backend σ] (backend : σ) (calls : List ι),
    List.Forall₂ (fun call outcome => ∀ error, outcome = .error error → reason call error) calls
      (outcomes attempt calls backend)

theorem failsOnly_of_ends {ι : Type} {attempt : ι → Attempt Unit} {reason : ι → MapError → Prop}
    (ends : ∀ call, (attempt call).Ends (fun _ => True) (reason call)) :
    FailsOnly attempt reason := by
  intro σ _ backend calls
  induction calls generalizing backend with
  | nil => exact .nil
  | cons call calls ih =>
      refine .cons ?_ (ih _)
      exact fun error failed => ((ends call).run backend).of_error failed

end Attempt

end KernelMaps
