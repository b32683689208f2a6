import Mathlib.Data.List.Basic
import Mathlib.Order.Nat

set_option autoImplicit false

/-!
# Logs that are written and read more than once

A writer that starts over appends again what it has appended before, a reader that starts over applies it again.
What comes last stands.
-/
namespace DataFabric.ReplayedLogs

variable {α δ β : Type*}

/-- After some place of the item only items follow that it is related to. -/
def Standing (R : α → α → Prop) (x : α) (log : List α) : Prop :=
  ∃ front back, log = front ++ x :: back ∧ ∀ y ∈ back, R x y

section Standing
variable {R : α → α → Prop} {x y : α} {log more : List α}

theorem standing_mem (h : Standing R x log) : x ∈ log := by
  obtain ⟨front, back, rfl, _⟩ := h
  simp

theorem standing_append (h : Standing R x log) (later : ∀ y ∈ more, R x y) : Standing R x (log ++ more) := by
  obtain ⟨front, back, rfl, after⟩ := h
  refine ⟨front, back ++ more, by simp, fun y hy => ?_⟩
  exact (List.mem_append.mp hy).elim (after y) (later y)

theorem standing_run (inside : x ∈ more) (ordered : more.Pairwise R) : Standing R x (log ++ more) := by
  obtain ⟨front, back, rfl⟩ := List.append_of_mem inside
  have parts := List.pairwise_append.mp ordered
  refine ⟨log ++ front, back, by simp, fun y hy => ?_⟩
  exact (List.pairwise_cons.mp parts.2.1).1 y hy

theorem standing_last {i : ℕ} (h : Standing R x log) (at_ : log[i]? = some y) (unrelated : ¬ R x y)
    (last : ∀ j : ℕ, log[j]? = some x → j ≤ i) : y = x := by
  obtain ⟨front, back, rfl, after⟩ := h
  have bound : front.length ≤ i := last front.length (by simp)
  rw [List.getElem?_append_right bound] at at_
  cases place : i - front.length with
  | zero =>
    rw [place, List.getElem?_cons_zero] at at_
    exact (Option.some.inj at_).symm
  | succ k =>
    rw [place, List.getElem?_cons_succ] at at_
    exact absurd (after y (List.mem_of_getElem? at_)) unrelated

end Standing

section Reading
variable {π : Type*} (place : α → Option δ) (effect : α → β)

/-- What a place of the store shows: the effect of an item that no item read since has overwritten, or still what it
has shown before. -/
def Shows (before : δ → β) (logs : π → List α) (position : π → ℕ) (store : δ → β) (d : δ) : Prop :=
  (store d = before d ∧ ∀ p, ∀ j < position p, ∀ m, (logs p)[j]? = some m → place m ≠ some d) ∨
    ∃ p i m, (logs p)[i]? = some m ∧ place m = some d ∧ store d = effect m ∧
      ∀ j < position p, ∀ m', (logs p)[j]? = some m' → place m' = some d → j ≤ i

variable {place effect} {before : δ → β} {logs logs' : π → List α} {position position' : π → ℕ} {store : δ → β} {d : δ}

theorem shows_rewind (h : Shows place effect before logs position store d) (less : ∀ p, position' p ≤ position p) :
    Shows place effect before logs position' store d := by
  rcases h with ⟨same, none⟩ | ⟨p, i, m, at_, own, shown, last⟩
  · exact .inl ⟨same, fun p j hj => none p j (hj.trans_le (less p))⟩
  · exact .inr ⟨p, i, m, at_, own, shown, fun j hj => last j (hj.trans_le (less p))⟩

theorem shows_grow (h : Shows place effect before logs position store d) (read : ∀ p, position p ≤ (logs p).length)
    (grows : ∀ p, logs p <+: logs' p) : Shows place effect before logs' position store d := by
  have same : ∀ p, ∀ j < position p, (logs' p)[j]? = (logs p)[j]? := by
    intro p j hj
    obtain ⟨more, whole⟩ := grows p
    rw [← whole, List.getElem?_append_left (hj.trans_le (read p))]
  rcases h with ⟨unchanged, none⟩ | ⟨p, i, m, at_, own, shown, last⟩
  · refine .inl ⟨unchanged, fun p j hj m hm => none p j hj m ?_⟩
    rw [← same p j hj, hm]
  · refine .inr ⟨p, i, m, ?_, own, shown, fun j hj m' hm' => last j hj m' ?_⟩
    · obtain ⟨more, whole⟩ := grows p
      have inside : i < (logs p).length := (List.getElem?_eq_some_iff.mp at_).1
      rw [← whole, List.getElem?_append_left inside, at_]
    · rw [← same p j hj, hm']

variable [DecidableEq δ] [DecidableEq π]

theorem shows_read {q : π} {m : α} {store' : δ → β} (h : Shows place effect before logs position store d)
    (at_ : (logs q)[position q]? = some m) (own : place m = some d → store' d = effect m)
    (other : place m ≠ some d → store' d = store d) :
    Shows place effect before logs (Function.update position q (position q + 1)) store' d := by
  have passed : ∀ p, ∀ j < Function.update position q (position q + 1) p,
      j < position p ∨ p = q ∧ j = position q := by
    intro p j hj
    by_cases hp : p = q
    · subst hp
      rw [Function.update_self] at hj
      exact (Nat.lt_succ_iff_lt_or_eq.mp hj).imp_right fun same => ⟨rfl, same⟩
    · rw [Function.update_of_ne hp] at hj
      exact .inl hj
  by_cases written : place m = some d
  · refine .inr ⟨q, position q, m, at_, written, own written, fun j hj _ _ _ => ?_⟩
    rcases passed q j hj with earlier | ⟨_, rfl⟩
    · exact earlier.le
    · exact le_rfl
  · rcases h with ⟨same, none⟩ | ⟨p, i, m', at', own', shown, last⟩
    · refine .inl ⟨(other written).trans same, fun p j hj m' hm' => ?_⟩
      rcases passed p j hj with earlier | ⟨rfl, rfl⟩
      · exact none p j earlier m' hm'
      · rw [at_] at hm'
        cases hm'
        exact written
    · refine .inr ⟨p, i, m', at', own', (other written).trans shown, fun j hj m'' hm'' placed => ?_⟩
      rcases passed p j hj with earlier | ⟨rfl, rfl⟩
      · exact last j earlier m'' hm'' placed
      · rw [at_] at hm''
        cases hm''
        exact absurd placed written

end Reading

end DataFabric.ReplayedLogs
