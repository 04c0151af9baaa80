/-!
# Runs under a condition

A run is a list of actions that a step function takes one after another. What one step keeps,
given that it meets a condition, every run keeps whose steps all meet it.
-/

namespace Flexiq

variable {σ α : Type} {step : σ → α → σ} {may : σ → α → Prop}

/-- Every step of the run meets the condition in the state it is taken in. -/
def EveryStep (step : σ → α → σ) (may : σ → α → Prop) (s : σ) : List α → Prop
  | [] => True
  | a :: acts => may s a ∧ EveryStep step may (step s a) acts

theorem EveryStep.keeps {Inv : σ → Prop} {s : σ} {acts : List α}
    (h : EveryStep step may s acts) (hs : Inv s)
    (hstep : ∀ {s}, Inv s → ∀ a, may s a → Inv (step s a)) : Inv (acts.foldl step s) := by
  induction acts generalizing s with
  | nil => exact hs
  | cons a acts ih => exact ih h.2 (hstep hs a h.1)

end Flexiq
