import KernelMaps.Map.Simulation
import Mathlib.Data.List.Forall2
import Mathlib.Logic.Basic

/-!
Attempts of one call. They make it if their arguments are accepted and none otherwise, and one that
fails leaves the map as it was. Only a value that is taken out into a buffer of another size is lost.
-/

namespace KernelMaps

def Request.OnlyReads : Request → Prop
  | .lookup .. | .nextKey .. => True
  | .update .. | .delete .. | .take .. => False

def Store.taken? : Store → Option Bytes → Option Bytes
  | hash _ entries, some key => entries.get? key
  | sequence newestFirst _ items, _ => next? newestFirst items
  | _, _ => none

def Request.Takes : Request → Prop
  | .take .. => True
  | .lookup .. | .update .. | .delete .. | .nextKey .. => False

/-- Whether a call takes out a value that does not fit the buffer it is given. -/
def Request.Spills (request : Request) (store : Store) : Prop :=
  ∃ key room value, request = .take key room ∧ store.taken? key = some value ∧ value.length ≠ room

theorem Request.not_spills {request : Request} (leaves : ¬request.Takes) (store : Store) :
    ¬request.Spills store := by
  rintro ⟨key, room, value, rfl, _⟩
  exact leaves trivial

namespace Store

theorem settle_error {store : Store} {outcome : Except Errno Store} {errno : Errno} {after : Store}
    (refused : store.settle outcome = (.error errno, after)) : after = store := by
  cases outcome with
  | ok changed => simp [settle] at refused
  | error other =>
      simp only [settle, Prod.mk.injEq] at refused
      exact refused.2.symm

theorem take_error {store : Store} {key : Option Bytes} {room : Nat} {errno : Errno} {after : Store}
    (refused : store.take key room = (.error errno, after)) :
    after = store ∨ (Request.take key room).Spills store := by
  have kept {other : Errno} (same : ((.error other : Reply), store) = (.error errno, after)) :
      after = store := (Prod.mk.inj same).2.symm
  have spilled {value : Bytes} {changed : Store} (found : store.taken? key = some value)
      (copied : (copyTo room value, changed) = (.error errno, after)) :
      (Request.take key room).Spills store := by
    refine ⟨key, room, value, rfl, found, ?_⟩
    intro fits
    simp [copyTo, fits] at copied
  cases store with
  | array slots => exact .inl (kept refused)
  | references slots => exact .inl (kept refused)
  | hash capacity entries =>
      cases key with
      | none => exact .inl (kept refused)
      | some key =>
          simp only [take] at refused
          split at refused
          · exact .inl (kept refused)
          · next value found => exact .inr (spilled found refused)
  | sequence newestFirst capacity items =>
      simp only [take] at refused
      split at refused
      · exact .inl (kept refused)
      · next value found => exact .inr (spilled found refused)

theorem answer_error {store : Store} {request : Request} {errno : Errno} {after : Store}
    (refused : store.answer request = (.error errno, after)) :
    after = store ∨ request.Spills store := by
  cases request with
  | lookup key room => exact .inl (Prod.mk.inj refused).2.symm
  | update key value flags => exact .inl (settle_error refused)
  | delete key => exact .inl (settle_error refused)
  | take key room => exact take_error refused
  | nextKey key room => exact .inl (Prod.mk.inj refused).2.symm

theorem answer_of_onlyReads {request : Request} (reads : request.OnlyReads) (store : Store) :
    (store.answer request).2 = store := by
  cases request with
  | lookup key room => rfl
  | nextKey key room => rfl
  | update key value flags => exact reads.elim
  | delete key => exact reads.elim
  | take key room => exact reads.elim

end Store

namespace Simulation

variable {simulation after : Simulation} {request : Request}

theorem answer_cases (simulation : Simulation) (request : Request) :
    (∃ errno after, simulation.answer request = (.error errno, after) ∧
        after.store = simulation.store) ∨
      ∃ after, simulation.answer request = ((simulation.store.answer request).1, after) ∧
        after.store = (simulation.store.answer request).2 := by
  rw [answer]
  split
  · exact .inl ⟨.badFile, simulation, rfl, rfl⟩
  · split
    · next fault _ => exact .inl ⟨fault.errno, _, rfl, rfl⟩
    · exact .inr ⟨_, rfl, rfl⟩

theorem store_of_onlyReads (reads : request.OnlyReads) :
    (simulation.answer request).2.store = simulation.store := by
  rcases simulation.answer_cases request with ⟨errno, after, answered, kept⟩ | ⟨after, answered, kept⟩
  · rwa [answered]
  · rw [answered, kept, Store.answer_of_onlyReads reads]

theorem store_of_error {errno : Errno} (refused : simulation.answer request = (.error errno, after)) :
    after.store = simulation.store ∨ request.Spills simulation.store := by
  rcases simulation.answer_cases request with ⟨other, last, answered, kept⟩ | ⟨last, answered, kept⟩
  · rw [answered] at refused
    obtain rfl := (Prod.mk.inj refused).2
    exact .inl kept
  · rw [answered] at refused
    obtain ⟨reply, rfl⟩ := Prod.mk.inj refused
    rw [kept]
    exact Store.answer_error (Prod.ext reply rfl)

end Simulation

theorem exists_mapM_eq_ok {α β ε : Type} {visit : α → Except ε β} {values : List α} :
    (∃ results, values.mapM visit = .ok results) ↔
      ∀ value ∈ values, ∃ result, visit value = .ok result := by
  induction values with
  | nil => simp [pure, Except.pure]
  | cons value rest ih =>
      simp only [List.mapM_cons, bind_eq_ok, List.forall_mem_cons, ← ih, pure, Except.pure]
      constructor
      · rintro ⟨_, result, first, results, others, _⟩
        exact ⟨⟨result, first⟩, results, others⟩
      · rintro ⟨⟨result, first⟩, results, others⟩
        exact ⟨_, result, first, results, others, rfl⟩

theorem mapM_eq_ok_map {α β ε : Type} {visit : α → Except ε β} {results : α → β} {values : List α}
    (visits : ∀ value ∈ values, visit value = .ok (results value)) :
    values.mapM visit = .ok (values.map results) := by
  induction values with
  | nil => rfl
  | cons value rest ih =>
      rw [List.forall_mem_cons] at visits
      rw [List.mapM_cons, visits.1, ih visits.2]
      rfl

theorem forall₂_of_mapM {α β ε : Type} {visit : α → Except ε β} {values : List α}
    {results : List β} (visited : values.mapM visit = .ok results) :
    List.Forall₂ (fun value result => visit value = .ok result) values results := by
  induction values generalizing results with
  | nil =>
      obtain rfl := Except.ok.inj visited
      exact .nil
  | cons value rest ih =>
      simp only [List.mapM_cons, bind_eq_ok] at visited
      obtain ⟨result, first, others, visited, same⟩ := visited
      obtain rfl := Except.ok.inj same
      exact .cons first (ih visited)

theorem mapM_of_forall₂ {α β ε : Type} {visit : α → Except ε β} {values : List α}
    {results : List β}
    (visits : List.Forall₂ (fun value result => visit value = .ok result) values results) :
    values.mapM visit = .ok results := by
  induction visits with
  | nil => rfl
  | cons first others ih =>
      rw [List.mapM_cons, first, ih]
      rfl

theorem mapM_congr {α β ε : Type} {visit other : α → Except ε β} {values : List α}
    (same : ∀ value ∈ values, visit value = other value) :
    values.mapM visit = values.mapM other := by
  induction values with
  | nil => rfl
  | cons value rest ih =>
      rw [List.forall_mem_cons] at same
      rw [List.mapM_cons, List.mapM_cons, same.1, ih same.2]

theorem mapM_length {α β ε : Type} {visit : α → Except ε β} {values : List α} {results : List β}
    (visited : values.mapM visit = .ok results) : results.length = values.length :=
  (forall₂_of_mapM visited).length_eq.symm

namespace Attempt

variable {α β : Type}

def Quiet (attempt : Attempt α) : Prop :=
  ∃ outcome, attempt.run = .done outcome

/-- Whether an attempt makes one call and is then over. If the call can change the map, then the
attempt fails only where the call does. -/
def Single (attempt : Attempt α) (request : Request) : Prop :=
  ∃ resume, attempt.run = .call request resume ∧ ∀ reply, ∃ outcome, resume reply = .done outcome ∧
    (request.OnlyReads ∨ ∀ bytes, reply = .ok bytes → ∃ result, outcome = .ok result)

theorem quiet_pure (result : α) : (pure result : Attempt α).Quiet := ⟨.ok result, rfl⟩

theorem quiet_throw (error : MapError) : (throw error : Attempt α).Quiet := ⟨.error error, rfl⟩

theorem quiet_liftM (result : Except MapError α) : (liftM result : Attempt α).Quiet := ⟨result, rfl⟩

theorem Quiet.bind {attempt : Attempt α} {next : α → Attempt β} (first : attempt.Quiet)
    (rest : ∀ result, (next result).Quiet) : (attempt >>= next).Quiet := by
  obtain ⟨outcome, ends⟩ := first
  cases outcome with
  | ok result =>
      obtain ⟨last, after⟩ := rest result
      refine ⟨last, ?_⟩
      rw [ExceptT.run_bind, ends]
      exact after
  | error error =>
      refine ⟨.error error, ?_⟩
      rw [ExceptT.run_bind, ends]
      rfl

theorem mapM_liftM (visit : α → Except MapError β) (values : List α) :
    (values.mapM fun value => (liftM (visit value) : Attempt β)) = liftM (values.mapM visit) := by
  induction values with
  | nil => rfl
  | cons value rest ih =>
      rw [List.mapM_cons, List.mapM_cons, ih]
      cases visit value with
      | error error => rfl
      | ok result => cases rest.mapM visit <;> rfl

theorem Single.bind {attempt : Attempt α} {next : α → Attempt β} {request : Request}
    (single : attempt.Single request) (reads : request.OnlyReads)
    (rest : ∀ result, (next result).Quiet) : (attempt >>= next).Single request := by
  obtain ⟨resume, called, replied⟩ := single
  refine ⟨fun reply => resume reply >>= ExceptT.bindCont next, ?_, ?_⟩
  · exact congrArg (· >>= ExceptT.bindCont next) called
  · intro reply
    obtain ⟨outcome, ends, _⟩ := replied reply
    simp only [ends]
    cases outcome with
    | ok result =>
        obtain ⟨last, after⟩ := rest result
        exact ⟨last, after, .inl reads⟩
    | error error => exact ⟨.error error, rfl, .inl reads⟩

theorem Single.run {attempt : Attempt α} {request : Request} (single : attempt.Single request)
    (simulation : Simulation) :
    ∃ outcome, simulation.run attempt = (outcome, (simulation.answer request).2) ∧
      (request.OnlyReads ∨
        ∀ error, outcome = .error error → ∃ errno, (simulation.answer request).1 = .error errno) := by
  obtain ⟨resume, called, replied⟩ := single
  obtain ⟨outcome, ends, safe⟩ := replied (simulation.answer request).1
  refine ⟨outcome, ?_, safe.imp_right ?_⟩
  · simp only [Simulation.run, called, Access.run, ends]
  · rintro granted error rfl
    cases reply : (simulation.answer request).1 with
    | error errno => exact ⟨errno, rfl⟩
    | ok bytes =>
        obtain ⟨result, wrong⟩ := granted bytes reply
        contradiction

/-- Whether an attempt makes one call at most, and none unless its arguments are accepted. -/
structure CallsOnce (attempt : Attempt α) (accepted : Prop) : Prop where
  atMost : attempt.run.AtMost 1
  silent : attempt.run.AtMost 0 ↔ ¬accepted

structure Atomic {α : Type} (attempt : Attempt α) (accepted : Prop) : Prop extends
    CallsOnce attempt accepted where
  kept : ∀ (simulation : Simulation) (error : MapError) (after : Simulation),
    simulation.run attempt = (.error error, after) → after.store = simulation.store

/-- Whether an attempt that fails leaves the map as it was, unless the value that it took out has
another size than its buffer. -/
structure Taking {α : Type} (attempt : Attempt α) (accepted : Prop) (key : Option Bytes)
    (room : Nat) : Prop extends CallsOnce attempt accepted where
  kept : ∀ (simulation : Simulation) (error : MapError) (after : Simulation),
    simulation.run attempt = (.error error, after) →
      after.store = simulation.store ∨
        ∃ value, simulation.store.taken? key = some value ∧ value.length ≠ room

variable {attempt : Attempt α} {accepted : Prop}

theorem Quiet.atMost (quiet : attempt.Quiet) (bound : Nat) : attempt.run.AtMost bound := by
  obtain ⟨outcome, ends⟩ := quiet
  rw [ends]
  cases bound <;> trivial

theorem Quiet.run (quiet : attempt.Quiet) (simulation : Simulation) :
    (simulation.run attempt).2 = simulation := by
  obtain ⟨outcome, ends⟩ := quiet
  rw [Simulation.run, ends]
  rfl

theorem Single.atMost {request : Request} (single : attempt.Single request) :
    attempt.run.AtMost 1 := by
  obtain ⟨resume, called, replied⟩ := single
  rw [called]
  intro reply
  obtain ⟨outcome, ends, _⟩ := replied reply
  rw [ends]
  trivial

theorem Single.not_atMost_zero {request : Request} (single : attempt.Single request) :
    ¬attempt.run.AtMost 0 := by
  obtain ⟨resume, called, _⟩ := single
  rw [called]
  exact id

theorem CallsOnce.of_cases (quiet : ¬accepted → attempt.Quiet)
    (single : accepted → ∃ request, attempt.Single request) : attempt.CallsOnce accepted := by
  by_cases holds : accepted
  · obtain ⟨request, once⟩ := single holds
    exact ⟨once.atMost, iff_of_false once.not_atMost_zero (not_not_intro holds)⟩
  · exact ⟨(quiet holds).atMost 1, iff_of_true ((quiet holds).atMost 0) holds⟩

theorem Single.kept {request : Request} (single : attempt.Single request) {simulation : Simulation}
    {error : MapError} {after : Simulation}
    (failed : simulation.run attempt = (.error error, after)) :
    after.store = simulation.store ∨ request.Spills simulation.store := by
  obtain ⟨outcome, ran, safe⟩ := single.run simulation
  rw [failed] at ran
  obtain ⟨rfl, rfl⟩ := Prod.mk.inj ran
  rcases safe with reads | refused
  · exact .inl (Simulation.store_of_onlyReads reads)
  · obtain ⟨errno, reply⟩ := refused error rfl
    exact Simulation.store_of_error (Prod.ext reply rfl)

theorem Atomic.of_cases (quiet : ¬accepted → attempt.Quiet)
    (single : accepted → ∃ request, ¬request.Takes ∧ attempt.Single request) :
    Atomic attempt accepted := by
  refine ⟨.of_cases quiet fun holds => (single holds).imp fun _ => And.right, ?_⟩
  intro simulation error after failed
  by_cases holds : accepted
  · obtain ⟨request, leaves, once⟩ := single holds
    exact (once.kept failed).resolve_right (request.not_spills leaves _)
  · have same := (quiet holds).run simulation
    rw [failed] at same
    exact congrArg Simulation.store same

theorem Atomic.of_refused (quiet : attempt.Quiet) (refused : ¬accepted) : Atomic attempt accepted :=
  .of_cases (fun _ => quiet) fun holds => absurd holds refused

theorem Atomic.congr {other : Prop} (atomic : Atomic attempt accepted) (same : accepted ↔ other) :
    Atomic attempt other := by
  rwa [← propext same]

theorem Taking.of_cases {key : Option Bytes} {room : Nat} (quiet : ¬accepted → attempt.Quiet)
    (single : accepted → attempt.Single (.take key room)) :
    Taking attempt accepted key room := by
  refine ⟨.of_cases quiet fun holds => ⟨_, single holds⟩, ?_⟩
  intro simulation error after failed
  by_cases holds : accepted
  · refine ((single holds).kept failed).imp_right ?_
    rintro ⟨key, room, value, same, found, differs⟩
    cases same
    exact ⟨value, found, differs⟩
  · have same := (quiet holds).run simulation
    rw [failed] at same
    exact .inl (congrArg Simulation.store same)

end Attempt

end KernelMaps
