import Mathlib

/-!
# Runs of a deterministic system

`Always Q` says that `Q` holds in every state a run passes through, and `Along P` that every action of the run
is taken in a state where `P` allows it. When an action keeps `Q` exactly if `P` allows it, the runs that keep
`Q` are the allowed ones (`always_iff_along`).
-/

namespace SocioWorkspace.Run
universe u v

section
variable {σ : Type u} {α : Type v} (step : σ → α → σ)

/-- `Q` holds before, between and after the actions. -/
def Always (Q : σ → Prop) : σ → List α → Prop
  | s, [] => Q s
  | s, a :: as => Q s ∧ Always Q (step s a) as

/-- Every action is taken in a state where `P` allows it. -/
def Along (P : σ → α → Prop) : σ → List α → Prop
  | _, [] => True
  | s, a :: as => P s a ∧ Along P (step s a) as

variable {step}

lemma Always.first {Q s as} (h : Always step Q s as) : Q s := by
  cases as with
  | nil => exact h
  | cons a as => exact h.1

/-- The runs that keep `Q` are those whose every action is allowed. -/
theorem always_iff_along {I Q : σ → Prop} {P : σ → α → Prop} (keep : ∀ s a, I s → I (step s a))
    (exact_step : ∀ s a, I s → Q s → (Q (step s a) ↔ P s a))
    {s as} (hI : I s) (hQ : Q s) : Always step Q s as ↔ Along step P s as := by
  induction as generalizing s with
  | nil => exact iff_of_true hQ trivial
  | cons a as ih =>
    have hstep := exact_step s a hI hQ
    refine ⟨fun h => ?_, fun h => ⟨hQ, ?_⟩⟩
    · have hQ' := h.2.first
      exact ⟨hstep.mp hQ', (ih (keep s a hI) hQ').mp h.2⟩
    · have hQ' := hstep.mpr h.1
      exact (ih (keep s a hI) hQ').mpr h.2
end

end SocioWorkspace.Run
