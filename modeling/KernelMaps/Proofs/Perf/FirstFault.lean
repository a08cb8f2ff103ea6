import KernelMaps.Perf.Counters
import Mathlib.Data.List.Induction

/-!
Opening on one CPU after the other. What opening on a CPU fails with can depend on the CPUs that
were opened before it. The first failure ends the opening and names its CPU, and no later CPU is tried.
-/

namespace KernelMaps

def Unhindered (fault : List Cpu → Cpu → Option MapError) (cpus : List Cpu) : Prop :=
  ∀ before cpu after, cpus = before ++ cpu :: after → fault before cpu = none

/-- The first of some CPUs that fails, with the CPUs in front of it and what it fails with. -/
structure FailsFirst (fault : List Cpu → Cpu → Option MapError) (cpus before : List Cpu) (cpu : Cpu)
    (source : MapError) : Prop where
  listed : before ++ [cpu] <+: cpus
  unhindered : Unhindered fault before
  failed : fault before cpu = some source

def OpeningEnds {σ : Type} (resource : PerCpuResource) (fault : List Cpu → Cpu → Option MapError)
    (opened : List Cpu → σ → Prop) (stopped : List Cpu → Cpu → σ → Prop) (cpus : List Cpu)
    (outcome : Except MapError Unit × σ) : Prop :=
  Unhindered fault cpus ∧ outcome.1 = .ok () ∧ opened cpus outcome.2 ∨
    ∃ before cpu source, FailsFirst fault cpus before cpu source ∧
      outcome.1 = .error (.openOnCpu resource cpu source) ∧ stopped before cpu outcome.2

section

variable {fault : List Cpu → Cpu → Option MapError}

theorem unhindered_append_singleton {cpus : List Cpu} {cpu : Cpu} :
    Unhindered fault (cpus ++ [cpu]) ↔ Unhindered fault cpus ∧ fault cpus cpu = none := by
  constructor
  · intro whole
    refine ⟨fun before other after split => ?_, whole cpus cpu [] rfl⟩
    exact whole before other (after ++ [cpu]) (by rw [split]; simp)
  · rintro ⟨front, last⟩ before other after split
    cases after using List.reverseRecOn with
    | nil =>
        obtain ⟨rfl, same⟩ := List.append_inj' split rfl
        obtain rfl : cpu = other := by simpa using same
        exact last
    | append_singleton after final =>
        have regrouped : cpus ++ [cpu] = (before ++ other :: after) ++ [final] := by
          simpa using split
        exact front before other after (List.append_inj' regrouped rfl).1

theorem unhindered_or_failsFirst (fault : List Cpu → Cpu → Option MapError) (cpus : List Cpu) :
    Unhindered fault cpus ∨ ∃ before cpu source, FailsFirst fault cpus before cpu source := by
  induction cpus using List.reverseRecOn with
  | nil =>
      left
      intro before cpu after split
      exact absurd split (by simp)
  | append_singleton cpus cpu ih =>
      rcases ih with whole | ⟨before, other, source, fails⟩
      · cases last : fault cpus cpu with
        | none => exact .inl (unhindered_append_singleton.2 ⟨whole, last⟩)
        | some source => exact .inr ⟨cpus, cpu, source, List.prefix_rfl, whole, last⟩
      · exact .inr ⟨before, other, source, fails.listed.trans (List.prefix_append ..),
          fails.unhindered, fails.failed⟩

end

theorem OpeningEnds.ne_alreadyOpen {σ : Type} {resource : PerCpuResource}
    {fault : List Cpu → Cpu → Option MapError} {opened : List Cpu → σ → Prop}
    {stopped : List Cpu → Cpu → σ → Prop} {cpus : List Cpu} {outcome : Except MapError Unit × σ}
    (ends : OpeningEnds resource fault opened stopped cpus outcome) (table : String) :
    outcome.1 ≠ .error (.alreadyOpen table) := by
  rcases ends with ⟨-, done, -⟩ | ⟨before, cpu, source, -, failed, -⟩
  · simp [done]
  · simp [failed]

def openingEach {σ : Type} (resource : PerCpuResource)
    (openOne : σ → Cpu → Except MapError Unit × σ) (state : σ) : List Cpu → Except MapError Unit × σ
  | [] => (.ok (), state)
  | cpu :: rest =>
      match openOne state cpu with
      | (.error source, after) => (.error (.openOnCpu resource cpu source), after)
      | (.ok _, after) => openingEach resource openOne after rest

section

variable {σ : Type} {resource : PerCpuResource} {openOne : σ → Cpu → Except MapError Unit × σ}
  {fault : List Cpu → Cpu → Option MapError} {opened : List Cpu → σ → Prop}
  {stopped : List Cpu → Cpu → σ → Prop}

theorem openingEach_append {state between : σ} {before : List Cpu}
    (passed : openingEach resource openOne state before = (.ok (), between)) (rest : List Cpu) :
    openingEach resource openOne state (before ++ rest) =
      openingEach resource openOne between rest := by
  induction before generalizing state with
  | nil =>
      obtain ⟨-, rfl⟩ := Prod.mk.inj passed
      rfl
  | cons cpu before ih =>
      rw [openingEach] at passed
      rw [List.cons_append, openingEach]
      rcases first : openOne state cpu with ⟨error | _, next⟩
      · rw [first] at passed
        cases passed
      · rw [first] at passed
        exact ih passed

variable
  (passes : ∀ before state cpu, opened before state → fault before cpu = none →
    ∃ next, openOne state cpu = (.ok (), next) ∧ opened (before ++ [cpu]) next)
include passes

theorem openingEach_passes {state : σ} (start : opened [] state) {cpus : List Cpu}
    (whole : Unhindered fault cpus) :
    ∃ after, openingEach resource openOne state cpus = (.ok (), after) ∧ opened cpus after := by
  induction cpus using List.reverseRecOn with
  | nil => exact ⟨state, rfl, start⟩
  | append_singleton cpus cpu ih =>
      obtain ⟨front, last⟩ := unhindered_append_singleton.1 whole
      obtain ⟨between, passed, reached⟩ := ih front
      obtain ⟨next, one, behind⟩ := passes cpus between cpu reached last
      refine ⟨next, ?_, behind⟩
      simp only [openingEach_append passed, openingEach, one]

variable
  (fails : ∀ before state cpu source, opened before state → fault before cpu = some source →
    ∃ next, openOne state cpu = (.error source, next) ∧ stopped before cpu next)
include fails

theorem openingEach_ends {state : σ} (start : opened [] state) (cpus : List Cpu) :
    OpeningEnds resource fault opened stopped cpus (openingEach resource openOne state cpus) := by
  rcases unhindered_or_failsFirst fault cpus with whole | ⟨before, cpu, source, first⟩
  · obtain ⟨after, passed, reached⟩ := openingEach_passes passes start whole
    rw [passed]
    exact .inl ⟨whole, rfl, reached⟩
  · obtain ⟨between, passed, reached⟩ := openingEach_passes passes start first.unhindered
    obtain ⟨next, failed, behind⟩ := fails before between cpu source reached first.failed
    obtain ⟨rest, rfl⟩ := first.listed
    rw [List.append_assoc, openingEach_append passed, List.singleton_append, openingEach, failed]
    refine .inr ⟨before, cpu, source, ?_, rfl, behind⟩
    rwa [List.append_assoc, List.singleton_append] at first

end

theorem PerfBuffer.openEach_eq {ρ β : Type} [Backend β] (buffer : PerfBuffer ρ β)
    (options : PerfOptions) (cpus : List Cpu) :
    buffer.openEach options cpus = openingEach .ring
      (fun buffer cpu => buffer.openOne ⟨cpu, options.pages, options.wakeup⟩) buffer cpus := by
  induction cpus generalizing buffer with
  | nil => rfl
  | cons cpu rest ih =>
      simp only [openEach, openingEach]
      rcases buffer.openOne ⟨cpu, options.pages, options.wakeup⟩ with ⟨error | _, after⟩
      · rfl
      · exact ih after

theorem CounterArray.openEach_eq {β : Type} [Backend β] (array : CounterArray β)
    (options : CounterOptions) (cpus : List Cpu) :
    array.openEach options cpus =
      openingEach .counter (fun array cpu => array.openOne options cpu) array cpus := by
  induction cpus generalizing array with
  | nil => rfl
  | cons cpu rest ih =>
      simp only [openEach, openingEach]
      rcases array.openOne options cpu with ⟨error | _, after⟩
      · rfl
      · exact ih after

namespace Descriptor

variable {β : Type} [Backend β]

def storing (map : Descriptor) (entries : List (Cpu × Nat)) (backend : β) : β :=
  entries.foldl (fun backend entry => (Backend.run backend (map.storeEvent entry.1 entry.2)).2)
    backend

theorem storing_append_singleton (map : Descriptor) (entries : List (Cpu × Nat)) (cpu : Cpu)
    (fd : Nat) (backend : β) :
    map.storing (entries ++ [(cpu, fd)]) backend =
      (Backend.run (map.storing entries backend) (map.storeEvent cpu fd)).2 := by
  simp only [storing, List.foldl_append, List.foldl_cons, List.foldl_nil]

end Descriptor

end KernelMaps
