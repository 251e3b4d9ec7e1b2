import Mathlib.Data.List.Count

/-!
# Labelled runs

The runs of a system of labelled steps, and the rules for them: what every step keeps holds at the
end (`Run.invariant`), a measure that the steps of a kind lower bounds how often they occur
(`Run.countP_add_le`), and a difference that steps of two kinds change by one is the difference of
their numbers (`Run.balance`).
-/

namespace Transition

variable {σ α : Type*} {step : σ → α → σ → Prop}

inductive Run (step : σ → α → σ → Prop) : σ → List α → σ → Prop
  | nil (s : σ) : Run step s [] s
  | cons {s s' s'' : σ} {a : α} {l : List α} :
    step s a s' → Run step s' l s'' → Run step s (a :: l) s''

/-- Some step of a kind can be taken. -/
def Can (step : σ → α → σ → Prop) (p : α → Bool) (s : σ) : Prop :=
  ∃ a s', p a = true ∧ step s a s'

namespace Run

variable {s s' : σ} {l : List α}

theorem append {s'' : σ} {l' : List α} (h : Run step s l s') (h' : Run step s' l' s'') :
    Run step s (l ++ l') s'' := by
  induction h with
  | nil => exact h'
  | cons hstep _ ih => exact .cons hstep (ih h')

theorem invariant {I : σ → Prop} (h : Run step s l s')
    (hI : ∀ {s a s'}, step s a s' → I s → I s') (hs : I s) : I s' := by
  induction h with
  | nil => exact hs
  | cons hstep _ ih => exact ih (hI hstep hs)

/-- A measure that no step raises and that the steps of a kind lower. -/
theorem countP_add_le {I : σ → Prop} {p : α → Bool} (h : Run step s l s') (μ : σ → Nat)
    (hI : ∀ {s a s'}, step s a s' → I s → I s')
    (hμ : ∀ {s a s'}, step s a s' → I s → μ s' + (if p a then 1 else 0) ≤ μ s) (hs : I s) :
    l.countP p + μ s' ≤ μ s := by
  induction h with
  | nil => simp
  | cons hstep _ ih =>
    have hlower := hμ hstep hs
    have htail := ih (hI hstep hs)
    rw [List.countP_cons]
    omega

/-- The steps of one kind add one to `f - g` and those of the other take one from it. -/
theorem balance {I : σ → Prop} {f g : σ → Nat} {p q : α → Bool} (h : Run step s l s')
    (hI : ∀ {s a s'}, step s a s' → I s → I s')
    (hstep : ∀ {s a s'}, step s a s' → I s →
      f s' + g s + (if p a then 1 else 0) = f s + g s' + (if q a then 1 else 0)) (hs : I s) :
    f s' + g s + l.countP p = f s + g s' + l.countP q := by
  induction h with
  | nil => simp
  | cons hone _ ih =>
    have hfirst := hstep hone hs
    have htail := ih (hI hone hs)
    rw [List.countP_cons, List.countP_cons]
    omega

end Run

end Transition
