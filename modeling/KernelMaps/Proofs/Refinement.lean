/-!
Machines that answer calls one after another. A machine whose every answer another one gives as
well, from states that belong together, gives the same answers on every run.
-/

namespace KernelMaps

def runCalls {ι ρ σ : Type} (answer : ι → σ → ρ × σ) : List ι → σ → List ρ × σ
  | [], state => ([], state)
  | call :: calls, state =>
      let (result, state) := answer call state
      let (results, state) := runCalls answer calls state
      (result :: results, state)

theorem runCalls_simulate {ι ρ σ τ : Type} {answer : ι → σ → ρ × σ} {model : ι → τ → ρ × τ}
    (agrees : σ → τ → Prop)
    (step : ∀ call state abstract, agrees state abstract →
      (answer call state).1 = (model call abstract).1 ∧
        agrees (answer call state).2 (model call abstract).2)
    (calls : List ι) {state : σ} {abstract : τ} (related : agrees state abstract) :
    (runCalls answer calls state).1 = (runCalls model calls abstract).1 ∧
      agrees (runCalls answer calls state).2 (runCalls model calls abstract).2 := by
  induction calls generalizing state abstract with
  | nil => exact ⟨rfl, related⟩
  | cons call calls ih =>
      obtain ⟨result, between⟩ := step call state abstract related
      obtain ⟨results, last⟩ := ih between
      refine ⟨?_, last⟩
      simp only [runCalls, result, results]

/-- What every answer of a machine has in states that keep to something, and that every call leads to
again, all answers of a run have. -/
theorem runCalls_forall {ι ρ σ : Type} {answer : ι → σ → ρ × σ} (kept : σ → Prop) {holds : ρ → Prop}
    (step : ∀ call state, kept state → holds (answer call state).1 ∧ kept (answer call state).2)
    (calls : List ι) {state : σ} (start : kept state) :
    ∀ result ∈ (runCalls answer calls state).1, holds result := by
  induction calls generalizing state with
  | nil => exact fun _ none => absurd none List.not_mem_nil
  | cons call calls ih =>
      obtain ⟨first, between⟩ := step call state start
      intro result member
      rcases List.mem_cons.1 member with rfl | later
      · exact first
      · exact ih between result later

end KernelMaps
