import Mathlib.Data.List.Forall2

set_option autoImplicit false

/-!
# Two runs of a stateful computation side by side

Runs from related states end with the same result, or the same error, in related states.
-/
namespace DataFabric.PairedRuns

universe u

variable {ε : Type u} {σ α β γ : Type u} {R : σ → σ → Prop}

/-- Two ends of a run that an observer of result and error cannot tell apart. -/
def SameEnd (R : σ → σ → Prop) : Except ε (α × σ) → Except ε (α × σ) → Prop
  | .ok (a, s), .ok (b, t) => a = b ∧ R s t
  | .error e, .error f => e = f
  | _, _ => False

def Paired (R : σ → σ → Prop) (x y : StateT σ (Except ε) α) : Prop :=
  ∀ s t, R s t → SameEnd R (x s) (y t)

theorem paired_pure (a : α) : Paired R (pure a : StateT σ (Except ε) α) (pure a) := fun _ _ h => ⟨rfl, h⟩

theorem paired_throw (e : ε) : Paired R (throw e : StateT σ (Except ε) α) (throw e) := fun _ _ _ => rfl

theorem paired_lift (x : Except ε α) : Paired R (StateT.lift x : StateT σ (Except ε) α) (StateT.lift x) := by
  intro s t h
  cases x with
  | error e => exact rfl
  | ok a => exact ⟨rfl, h⟩

theorem paired_bind {x y : StateT σ (Except ε) α} {f g : α → StateT σ (Except ε) β}
    (h : Paired R x y) (hfg : ∀ a, Paired R (f a) (g a)) : Paired R (x >>= f) (y >>= g) := by
  intro s t hst
  have hxy := h s t hst
  change SameEnd R ((x s).bind fun p => f p.1 p.2) ((y t).bind fun p => g p.1 p.2)
  cases hx : x s with
  | error e =>
    cases hy : y t with
    | error e' =>
      rw [hx, hy] at hxy
      exact hxy
    | ok p =>
      rw [hx, hy] at hxy
      exact hxy.elim
  | ok p =>
    cases hy : y t with
    | error e' =>
      rw [hx, hy] at hxy
      exact hxy.elim
    | ok q =>
      rw [hx, hy] at hxy
      obtain ⟨heq, hR⟩ := hxy
      change SameEnd R (f p.1 p.2) (g q.1 q.2)
      rw [← heq]
      exact hfg p.1 p.2 q.2 hR

theorem paired_ite {c : Prop} [Decidable c] {x y x' y' : StateT σ (Except ε) α} (h : Paired R x y)
    (h' : Paired R x' y') : Paired R (if c then x else x') (if c then y else y') := by
  by_cases hc : c
  · rw [if_pos hc, if_pos hc]
    exact h
  · rw [if_neg hc, if_neg hc]
    exact h'

theorem paired_mapM {f g : γ → StateT σ (Except ε) α} {xs ys : List γ}
    (h : List.Forall₂ (fun x y => Paired R (f x) (g y)) xs ys) : Paired R (xs.mapM f) (ys.mapM g) := by
  induction h with
  | nil => exact paired_pure []
  | cons hxy _ ih =>
    rw [List.mapM_cons, List.mapM_cons]
    exact paired_bind hxy fun a => paired_bind ih fun as => paired_pure (a :: as)

end DataFabric.PairedRuns
