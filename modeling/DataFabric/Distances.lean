import Mathlib.Data.Nat.Find

set_option autoImplicit false

/-! # Distances from a set of starting points -/
namespace DataFabric.Distances

variable {α : Type*}

inductive Reach (step : α → α → Prop) (start : α → Prop) : ℕ → α → Prop
  | start {x : α} : start x → Reach step start 0 x
  | step {n : ℕ} {x y : α} : Reach step start n x → step x y → Reach step start (n + 1) y

def At (step : α → α → Prop) (start : α → Prop) (n : ℕ) (x : α) : Prop :=
  Reach step start n x ∧ ∀ m < n, ¬ Reach step start m x

variable {step other : α → α → Prop} {start : α → Prop} {m n : ℕ} {x y : α}

theorem reach_zero : Reach step start 0 x ↔ start x := by
  constructor
  · intro h
    cases h with
    | start h => exact h
  · exact .start

theorem reach_succ : Reach step start (n + 1) y ↔ ∃ x, Reach step start n x ∧ step x y := by
  constructor
  · intro h
    cases h with
    | step before last => exact ⟨_, before, last⟩
  · rintro ⟨x, before, last⟩
    exact .step before last

theorem reach_mono (le : ∀ x y, step x y → other x y) (h : Reach step start n x) : Reach other start n x := by
  induction h with
  | start h => exact .start h
  | step before last ih => exact .step ih (le _ _ last)

theorem exists_at (h : Reach step start n x) : ∃ k ≤ n, At step start k x := by
  classical
  have some : ∃ k, Reach step start k x := ⟨n, h⟩
  exact ⟨Nat.find some, Nat.find_min' some h, Nat.find_spec some, fun k less => Nat.find_min some less⟩

theorem at_zero : At step start 0 x ↔ start x := by
  rw [At, reach_zero]
  exact and_iff_left fun k less => absurd less (Nat.not_lt_zero k)

theorem at_unique (h : At step start m x) (h' : At step start n x) : m = n := by
  rcases Nat.lt_trichotomy m n with less | same | more
  · exact absurd h.1 (h'.2 m less)
  · exact same
  · exact absurd h'.1 (h.2 n more)

theorem at_before (h : At step start (n + 1) y) (before : Reach step start n x) (last : step x y) : At step start n x :=
  ⟨before, fun k less shorter => h.2 (k + 1) (Nat.succ_lt_succ less) (.step shorter last)⟩

theorem at_pred (h : At step start (n + 1) y) : ∃ x, At step start n x ∧ step x y := by
  obtain ⟨x, before, last⟩ := reach_succ.mp h.1
  exact ⟨x, at_before h before last, last⟩

theorem at_below (h : At step start n x) (le : m ≤ n) : ∃ y, At step start m y := by
  induction n generalizing x with
  | zero =>
    obtain rfl := Nat.le_zero.mp le
    exact ⟨x, h⟩
  | succ n ih =>
    rcases Nat.le_succ_iff.mp le with below | rfl
    · obtain ⟨y, nearer, _⟩ := at_pred h
      exact ih nearer below
    · exact ⟨x, h⟩

theorem at_nearer (none : ∀ y, ¬ At step start n y) (h : Reach step start m x) : ∃ k < n, At step start k x := by
  obtain ⟨k, _, own⟩ := exists_at h
  refine ⟨k, ?_, own⟩
  by_contra far
  obtain ⟨y, there⟩ := at_below own (Nat.le_of_not_lt far)
  exact none y there

end DataFabric.Distances
