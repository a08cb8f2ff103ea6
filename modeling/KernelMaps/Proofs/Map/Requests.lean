import KernelMaps.Map.Access

/-!
What programs can ask of a map. A property that every call of a program has, whatever is replied to
it, is one of all calls that arrive at any backend; and it is put together from the parts of the
program.
-/

namespace KernelMaps

namespace Access

variable {α β : Type} {property : Request → Prop}

theorem Every.bind {program : Access α} {next : α → Access β} (first : program.Every property)
    (rest : ∀ result, (next result).Every property) : (program >>= next).Every property := by
  induction program with
  | done result => exact rest result
  | call request resume ih => exact ⟨first.1, fun reply => ih reply (first.2 reply)⟩

theorem Every.mono {other : Request → Prop} {program : Access α}
    (weaker : ∀ request, property request → other request) (every : program.Every property) :
    program.Every other := by
  induction program with
  | done result => exact trivial
  | call request resume ih =>
      exact ⟨weaker request every.1, fun reply => ih reply (every.2 reply)⟩

end Access

namespace Attempt

variable {α β : Type} {property : Request → Prop}

/-- Whether every call that an attempt can make has a property, whatever is replied. -/
def Asks (attempt : Attempt α) (property : Request → Prop) : Prop :=
  Access.Every property attempt.run

theorem asks_pure (result : α) : (pure result : Attempt α).Asks property := trivial

theorem asks_throw (error : MapError) : (throw error : Attempt α).Asks property := trivial

theorem asks_liftM (result : Except MapError α) : (liftM result : Attempt α).Asks property := by
  cases result <;> trivial

theorem Asks.mono {other : Request → Prop} {attempt : Attempt α} (asks : attempt.Asks property)
    (weaker : ∀ request, property request → other request) : attempt.Asks other :=
  Access.Every.mono weaker asks

theorem asks_lift {program : Access α} (every : program.Every property) :
    Asks (ExceptT.lift program) property := by
  rw [Asks, ExceptT.run_lift, ← bind_pure_comp]
  exact every.bind fun _ => trivial

theorem Asks.bind {attempt : Attempt α} {next : α → Attempt β} (first : attempt.Asks property)
    (rest : ∀ result, (next result).Asks property) : (attempt >>= next).Asks property := by
  rw [Asks, ExceptT.run_bind]
  refine Access.Every.bind first ?_
  intro outcome
  cases outcome with
  | ok result => exact rest result
  | error error => exact trivial

theorem asks_perform_bind {request : Request} {next : Reply → Attempt β}
    (holds : property request) (rest : ∀ reply, (next reply).Asks property) :
    (perform request >>= next).Asks property :=
  ⟨holds, rest⟩

theorem asks_liftM_bind {result : Except MapError α} {next : α → Attempt β}
    (rest : ∀ value, result = .ok value → (next value).Asks property) :
    (liftM result >>= next : Attempt β).Asks property := by
  cases result with
  | ok value => exact rest value rfl
  | error error => exact trivial

theorem Asks.tryCatch {attempt : Attempt α} {handle : MapError → Attempt α}
    (first : attempt.Asks property) (rest : ∀ error, (handle error).Asks property) :
    (tryCatch attempt handle).Asks property := by
  rw [Asks, ExceptT.run_tryCatch]
  refine Access.Every.bind first ?_
  intro outcome
  cases outcome with
  | ok result => exact trivial
  | error error => exact rest error

theorem asks_loop {σ : Type} {step : σ → Attempt (σ ⊕ α)}
    (each : ∀ state, (step state).Asks property) (budget : Nat) (state : σ) :
    (loop step budget state).Asks property := by
  induction budget generalizing state with
  | zero => exact asks_pure none
  | succ budget ih =>
      refine (each state).bind ?_
      intro outcome
      cases outcome with
      | inl state => exact ih state
      | inr result => exact asks_pure (some result)

theorem asks_mapM {visit : α → Attempt β} (each : ∀ value, (visit value).Asks property)
    (values : List α) : (values.mapM visit).Asks property := by
  induction values with
  | nil => exact asks_pure []
  | cons value rest ih =>
      rw [List.mapM_cons]
      exact (each value).bind fun _ => ih.bind fun _ => asks_pure _

end Attempt

/-- A backend that notes what it is asked, newest first, and answers as another one does. -/
structure Noting (β : Type) where
  asked : List Request
  backend : β

instance {β : Type} [Backend β] : Backend (Noting β) where
  answer request noting :=
    let (reply, backend) := Backend.answer request noting.backend
    (reply, ⟨request :: noting.asked, backend⟩)

namespace Noting

variable {β : Type} {property : Request → Prop}

def AskedSince (property : Request → Prop) (before after : Noting β) : Prop :=
  ∃ asked, after.asked = asked ++ before.asked ∧ ∀ request ∈ asked, property request

theorem AskedSince.refl (noting : Noting β) : AskedSince property noting noting :=
  ⟨[], rfl, fun _ none => absurd none List.not_mem_nil⟩

theorem AskedSince.trans {first second third : Noting β}
    (lower : AskedSince property first second) (upper : AskedSince property second third) :
    AskedSince property first third := by
  obtain ⟨early, fromFirst, earlyHold⟩ := lower
  obtain ⟨late, fromSecond, lateHold⟩ := upper
  refine ⟨late ++ early, by rw [fromSecond, fromFirst, List.append_assoc], ?_⟩
  intro request asked
  rcases List.mem_append.1 asked with asked | asked
  · exact lateHold request asked
  · exact earlyHold request asked

variable [Backend β]

theorem askedSince_run {α : Type} {program : Access α} (every : program.Every property)
    (noting : Noting β) :
    AskedSince property noting (program.run Backend.answer noting).2 := by
  induction program generalizing noting with
  | done result => exact .refl noting
  | call request resume ih =>
      have once : AskedSince property noting (Backend.answer request noting).2 := by
        refine ⟨[request], rfl, ?_⟩
        intro other asked
        rw [List.mem_singleton.1 asked]
        exact every.1
      exact once.trans (ih _ (every.2 _) _)

theorem askedSince_attempt {α : Type} {attempt : Attempt α} (asks : attempt.Asks property)
    (noting : Noting β) : AskedSince property noting (Backend.run noting attempt).2 :=
  askedSince_run asks noting

end Noting

end KernelMaps
