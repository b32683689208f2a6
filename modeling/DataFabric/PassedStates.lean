import DataFabric.TransitionRuns
import Mathlib.Data.List.Induction

set_option autoImplicit false

/-! # The states that a run passes through, and invariants that look back on it -/
namespace DataFabric.PassedStates
open TransitionRuns

variable {σ ε : Type*} {step : σ → ε → Option σ} {init s m : σ} {es : List ε} {e : ε}

def Passes (step : σ → ε → Option σ) (init : σ) (es : List ε) (m : σ) : Prop :=
  ∃ pre, pre <+: es ∧ run step init pre = some m

theorem Passes.snoc (h : Passes step init es m) (e : ε) : Passes step init (es ++ [e]) m := by
  obtain ⟨pre, part, ran⟩ := h
  exact ⟨pre, part.trans (List.prefix_append ..), ran⟩

theorem passes_before (h : run step init es = some s) (e : ε) : Passes step init (es ++ [e]) s :=
  ⟨es, List.prefix_append .., h⟩

theorem run_looking_back {P : List ε → σ → Prop} {Q : σ → ε → Prop} (h : run step init es = some s)
    (hQ : Throughout step Q init es) (start : P [] init)
    (kept : ∀ es e s s', run step init es = some s → P es s → Q s e → step s e = some s' → P (es ++ [e]) s') :
    P es s := by
  induction es using List.reverseRecOn generalizing s with
  | nil =>
    rw [run_nil, Option.some.injEq] at h
    exact h ▸ start
  | append_singleton es e ih =>
    rw [run_append, Option.bind_eq_some_iff] at h
    obtain ⟨m, before, last⟩ := h
    rw [run_cons, Option.bind_eq_some_iff] at last
    obtain ⟨s', stepped, rest⟩ := last
    rw [run_nil, Option.some.injEq] at rest
    subst rest
    have early : Throughout step Q init es := fun pre e' post k split =>
      hQ pre e' (post ++ [e]) k (by rw [split, List.append_assoc, List.cons_append])
    exact kept es e m s' before (ih before early) (hQ es e [] m rfl before) stepped

end DataFabric.PassedStates
