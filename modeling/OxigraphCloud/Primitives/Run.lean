import Mathlib

-- Runs of a deterministic system: a state, and events that take it from one state to the next.

namespace Run

variable {σ ε : Type} {step : σ → ε → σ} {s : σ} {es : List ε}

def run (step : σ → ε → σ) (s : σ) (es : List ε) : σ := es.foldl step s

theorem run_nil : run step s [] = s := rfl

theorem run_cons : run step s (e :: es) = run step (step s e) es := rfl

theorem run_append : run step s (es ++ es') = run step (run step s es) es' := List.foldl_append ..

-- Every step of the run satisfies `P`, where `P` is about the state before the step.
def Along (step : σ → ε → σ) (P : σ → ε → Prop) : σ → List ε → Prop
  | _, []      => True
  | s, e :: es => P s e ∧ Along step P (step s e) es

variable {P C : σ → ε → Prop} {I : σ → Prop}

theorem Along.and (h₁ : Along step P s es) (h₂ : Along step C s es) :
    Along step (fun s e => P s e ∧ C s e) s es := by
  induction es generalizing s
  case nil => trivial
  case cons e es hi => exact ⟨⟨h₁.left, h₂.left⟩, hi h₁.right h₂.right⟩

theorem Along.append (h₁ : Along step P s es) (h₂ : Along step P (run step s es) es') :
    Along step P s (es ++ es') := by
  induction es generalizing s
  case nil => exact h₂
  case cons e es hi => exact ⟨h₁.left, hi h₁.right h₂⟩

-- What each step keeps, if it satisfies `C`, is kept by a run of such steps.
theorem invariant (h₀ : I s) (hC : Along step C s es)
    (hI : ∀ {s e}, I s → C s e → I (step s e)) : I (run step s es) := by
  induction es generalizing s
  case nil => exact h₀
  case cons e es hi => exact hi (hI h₀ hC.left) hC.right

-- What the invariant says about each step is true along the run.
theorem Along.of_invariant (h₀ : I s) (hC : Along step C s es)
    (hI : ∀ {s e}, I s → C s e → I (step s e)) (hP : ∀ {s e}, I s → C s e → P s e) :
    Along step P s es := by
  induction es generalizing s
  case nil => trivial
  case cons e es hi => exact ⟨hP h₀ hC.left, hi (hI h₀ hC.left) hC.right⟩

-- What every step keeps is kept by every run.
theorem stays (hI : ∀ {s e}, I s → I (step s e)) (h₀ : I s) : I (run step s es) := by
  induction es generalizing s
  case nil => exact h₀
  case cons e es hi => exact hi (hI h₀)

-- Two systems that are related before a step and after it stay related.
theorem related {τ : Type} {step' : τ → ε → τ} {s' : τ} {R : σ → τ → Prop}
    (hR : ∀ {s s' e}, R s s' → R (step s e) (step' s' e)) (h₀ : R s s') :
    R (run step s es) (run step' s' es) := by
  induction es generalizing s s'
  case nil => exact h₀
  case cons e es hi => exact hi (hR h₀)

-- If a step that violates `P` leads to a state from which there is no way back, then a run that has
-- not got there consists of steps that satisfy `P`.
theorem Along.of_not_reached {B : σ → Prop} (h₀ : I s) (hI : ∀ {s e}, I s → I (step s e))
    (hP : ∀ {s e}, I s → ¬P s e → B (step s e)) (hB : ∀ {s e}, B s → B (step s e))
    (hn : ¬B (run step s es)) : Along step P s es := by
  induction es generalizing s
  case nil => trivial
  case cons e es hi =>
    refine ⟨by_contra fun h => hn ?_, hi (hI h₀) hn⟩
    rw [run_cons]
    exact stays hB (hP h₀ h)

-- The number of steps of the run that satisfy `p`.
def count (step : σ → ε → σ) (p : σ → ε → Bool) : σ → List ε → ℕ
  | _, []      => 0
  | s, e :: es => (p s e).toNat + count step p (step s e) es

-- A quantity that is raised and lowered by single steps.
theorem count_spec {f : σ → ℤ} {up down : σ → ε → Bool} (hC : Along step C s es)
    (hf : ∀ {s e}, C s e → f (step s e) = f s + (up s e).toNat - (down s e).toNat) :
    f (run step s es) = f s + count step up s es - count step down s es := by
  induction es generalizing s
  case nil => simp [run_nil, count]
  case cons e es hi =>
    rw [run_cons, hi hC.right, hf hC.left, count, count]
    push_cast
    ring

end Run
