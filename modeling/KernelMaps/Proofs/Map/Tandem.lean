import KernelMaps.Proofs.Map.Outcomes

/-!
Two programs given the same replies. They make the same calls and end alike, except that one of them
may give up where a lookup succeeds. This is put together from their parts, and it tells of every
sequence of replies.
-/

namespace KernelMaps

namespace Access

variable {α β : Type}

/-- What a program has come to after some replies, if it needs no more of them. -/
def result? : Access α → List Reply → Option α
  | done result, _ => some result
  | call _ _, [] => none
  | call _ resume, reply :: replies => (resume reply).result? replies

def awaits : Access α → List Reply → Option Request
  | done _, _ => none
  | call request _, [] => some request
  | call _ resume, reply :: replies => (resume reply).awaits replies

def FindsNothing : Access α → List Reply → Prop
  | done _, _ => True
  | call _ _, [] => True
  | call request resume, reply :: replies =>
      (request.isLookup = true → reply.isOk = false) ∧ (resume reply).FindsNothing replies

theorem result?_bind {holds : α → Prop} {program : Access α} (yields : program.Yields holds)
    {next : α → Access β} {replies : List Reply} {last : β}
    (ended : (program >>= next).result? replies = some last) :
    ∃ first rest, holds first ∧ rest.length ≤ replies.length ∧
      (next first).result? rest = some last := by
  induction program generalizing replies with
  | done first => exact ⟨first, replies, yields, Nat.le_refl _, ended⟩
  | call request resume ih =>
      cases replies with
      | nil => cases ended
      | cons reply replies =>
          obtain ⟨first, rest, held, fewer, result⟩ := ih reply (yields reply) ended
          exact ⟨first, rest, held, Nat.le_succ_of_le fewer, result⟩

end Access

namespace Attempt

variable {α β γ δ : Type}

inductive EndAlike (belong : α → β → Prop) : Except MapError α → Except MapError β → Prop where
  | failed (error : MapError) : EndAlike belong (.error error) (.error error)
  | ended {first : α} {second : β} (related : belong first second) :
      EndAlike belong (.ok first) (.ok second)

/-- Whether a program makes the calls of another one and ends alike. If there is an error to stop
with, then it ends with that as soon as a lookup succeeds, whatever the other one goes on to. -/
inductive Tandem (belong : α → β → Prop) (stop : Option MapError) :
    Access (Except MapError α) → Access (Except MapError β) → Prop where
  | done {first : Except MapError α} {second : Except MapError β}
      (alike : EndAlike belong first second) : Tandem belong stop (.done first) (.done second)
  | call {request : Request} {resume : Reply → Access (Except MapError α)}
      {onwards : Reply → Access (Except MapError β)}
      (goesOn : ∀ reply, stop = none ∨ request.isLookup = false ∨ reply.isOk = false →
        Tandem belong stop (resume reply) (onwards reply))
      (stops : ∀ error bytes, stop = some error → request.isLookup = true →
        resume (.ok bytes) = .done (.error error)) :
      Tandem belong stop (.call request resume) (.call request onwards)

variable {belong : α → β → Prop} {stop : Option MapError}

theorem tandem_pure {first : α} {second : β} (related : belong first second) :
    Tandem belong stop (pure first : Attempt α).run (pure second : Attempt β).run :=
  .done (.ended related)

theorem tandem_throw (error : MapError) :
    Tandem belong stop (throw error : Attempt α).run (throw error : Attempt β).run :=
  .done (.failed error)

theorem Tandem.bind {later : γ → δ → Prop} {first : Attempt α} {second : Attempt β}
    {next : α → Attempt γ} {following : β → Attempt δ}
    (tandem : Tandem belong stop first.run second.run)
    (rest : ∀ left right, belong left right →
      Tandem later stop (next left).run (following right).run) :
    Tandem later stop (first >>= next).run (second >>= following).run := by
  rw [ExceptT.run_bind, ExceptT.run_bind]
  generalize first.run = front at tandem
  generalize second.run = other at tandem
  induction tandem with
  | done alike =>
      cases alike with
      | failed error => exact .done (.failed error)
      | ended related => exact rest _ _ related
  | call goesOn stops ih =>
      refine .call ih ?_
      intro error bytes same looks
      exact congrArg (· >>= ExceptT.bindCont next) (stops error bytes same looks)

theorem tandem_lift {holds : α → Prop} {program : Access α} (yields : program.Yields holds)
    (every : program.Every fun request => request.isLookup = false) :
    Tandem (fun left right => left = right ∧ holds left) stop
      (ExceptT.lift program : Attempt α).run (ExceptT.lift program : Attempt α).run := by
  rw [ExceptT.run_lift, ← bind_pure_comp]
  induction program with
  | done result => exact .done (.ended ⟨rfl, yields⟩)
  | call request resume ih =>
      refine .call (fun reply _ => ih reply (yields reply) (every.2 reply)) ?_
      intro error bytes _ looks
      rw [every.1] at looks
      contradiction

/-- Loops whose rounds go along with each other do so for as many rounds as they are given. -/
theorem tandem_loop {σ τ : Type} {step : σ → Attempt (σ ⊕ α)} {pace : τ → Attempt (τ ⊕ β)}
    (states : σ → τ → Prop)
    (each : ∀ left right, states left right →
      Tandem (Sum.LiftRel states belong) stop (step left).run (pace right).run)
    (budget : Nat) {left : σ} {right : τ} (start : states left right) :
    Tandem (Option.Rel belong) stop (loop step budget left).run (loop pace budget right).run := by
  induction budget generalizing left right with
  | zero => exact tandem_pure .none
  | succ budget ih =>
      refine (each left right start).bind ?_
      intro outcome other related
      cases related with
      | inl states => exact ih states
      | inr related => exact tandem_pure (.some related)

theorem le_length_of_loop_result? {σ : Type} {step : σ → Attempt (σ ⊕ α)} (going : σ → Prop)
    (each : ∀ state, going state → ∃ request resume, (step state).run = .call request resume ∧
      ∀ reply, (resume reply).Yields (Outcome (Sum.elim going fun _ => True) fun _ => True))
    {budget : Nat} {replies : List Reply} {state : σ} (start : going state)
    (ended : (loop step budget state).run.result? replies = some (.ok none)) :
    budget ≤ replies.length := by
  induction budget generalizing state replies with
  | zero => exact Nat.zero_le _
  | succ budget ih =>
      obtain ⟨request, resume, calls, yields⟩ := each state start
      rw [loop, ExceptT.run_bind, calls] at ended
      cases replies with
      | nil => cases ended
      | cons reply replies =>
          obtain ⟨outcome, rest, held, fewer, later⟩ := Access.result?_bind (yields reply) ended
          rcases outcome with error | next | result
          · cases later
          · exact Nat.succ_le_succ (Nat.le_trans (ih held later) fewer)
          · cases later

/-! Sequences of replies. -/

/-- Whether two programs make the same calls, whatever they are replied to, and come to the same
failure or to results that belong together at the same call. -/
structure Agree (belong : α → β → Prop) (first : Attempt α) (second : Attempt β) : Prop where
  requests : ∀ replies, first.run.requests replies = second.run.requests replies
  results : ∀ replies, Option.Rel (EndAlike belong) (first.run.result? replies)
    (second.run.result? replies)

/-- Whether two programs agree until a lookup succeeds. This is the last call of the first one,
which fails then. -/
structure AgreeUntilFound (belong : α → β → Prop) (error : MapError) (first : Attempt α)
    (second : Attempt β) : Prop where
  requests : ∀ replies, second.run.FindsNothing replies →
    first.run.requests replies = second.run.requests replies
  results : ∀ replies, second.run.FindsNothing replies →
    Option.Rel (EndAlike belong) (first.run.result? replies) (second.run.result? replies)
  stops : ∀ replies request bytes others, second.run.FindsNothing replies →
    second.run.awaits replies = some request → request.isLookup = true →
      first.run.requests (replies ++ .ok bytes :: others) = second.run.requests replies ∧
        first.run.result? (replies ++ .ok bytes :: others) = some (.error error)

theorem Tandem.along {front : Access (Except MapError α)} {other : Access (Except MapError β)}
    (tandem : Tandem belong stop front other) (replies : List Reply)
    (going : stop = none ∨ other.FindsNothing replies) :
    front.requests replies = other.requests replies ∧
      Option.Rel (EndAlike belong) (front.result? replies) (other.result? replies) := by
  induction tandem generalizing replies with
  | done alike => exact ⟨rfl, .some alike⟩
  | @call request resume onwards goesOn stops ih =>
      cases replies with
      | nil => exact ⟨rfl, .none⟩
      | cons reply replies =>
          have missed : stop = none ∨ request.isLookup = false ∨ reply.isOk = false := by
            refine going.imp_right ?_
            rintro ⟨fails, -⟩
            cases looks : request.isLookup with
            | false => exact .inl rfl
            | true => exact .inr (fails looks)
          obtain ⟨requests, results⟩ := ih reply missed replies (going.imp_right And.right)
          exact ⟨congrArg (request :: ·) requests, results⟩

theorem Tandem.agree {first : Attempt α} {second : Attempt β}
    (tandem : Tandem belong none first.run second.run) : Agree belong first second :=
  ⟨fun replies => (tandem.along replies (.inl rfl)).1,
    fun replies => (tandem.along replies (.inl rfl)).2⟩

theorem Tandem.stops_when_found {error : MapError} {front : Access (Except MapError α)}
    {other : Access (Except MapError β)} (tandem : Tandem belong (some error) front other)
    {replies : List Reply} (nothing : other.FindsNothing replies) {request : Request}
    (awaits : other.awaits replies = some request) (looks : request.isLookup = true) (bytes : Bytes)
    (others : List Reply) :
    front.requests (replies ++ .ok bytes :: others) = other.requests replies ∧
      front.result? (replies ++ .ok bytes :: others) = some (.error error) := by
  induction tandem generalizing replies with
  | done alike => contradiction
  | @call asked resume onwards goesOn stops ih =>
      cases replies with
      | nil =>
          obtain rfl := Option.some.inj awaits
          have ended := stops error bytes rfl looks
          simp only [List.nil_append, Access.requests, Access.result?, ended, and_self]
      | cons reply replies =>
          have missed : some error = none ∨ asked.isLookup = false ∨ reply.isOk = false := by
            cases inquires : asked.isLookup with
            | false => exact .inr (.inl rfl)
            | true => exact .inr (.inr (nothing.1 inquires))
          obtain ⟨requests, result⟩ := ih reply missed nothing.2 awaits
          exact ⟨congrArg (asked :: ·) requests, result⟩

theorem Tandem.agreeUntilFound {error : MapError} {first : Attempt α} {second : Attempt β}
    (tandem : Tandem belong (some error) first.run second.run) :
    AgreeUntilFound belong error first second where
  requests replies nothing := (tandem.along replies (.inr nothing)).1
  results replies nothing := (tandem.along replies (.inr nothing)).2
  stops _ _ bytes others nothing awaits looks :=
    tandem.stops_when_found nothing awaits looks bytes others

end Attempt

end KernelMaps
