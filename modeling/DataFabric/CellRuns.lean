import DataFabric.TransitionRuns
import Mathlib.Logic.Function.Basic
import Mathlib.Data.List.Basic

set_option autoImplicit false

/-!
# Runs whose events each write one cell of a store

Events of different cells do not see each other, so a cell holds at the end what its own events
leave.
-/
namespace DataFabric.CellRuns
open TransitionRuns

variable {κ δ ε : Type*} [DecidableEq κ] (cell : ε → Option κ) (write : ε → δ → δ)

def put (store : κ → δ) (e : ε) : κ → δ :=
  match cell e with
  | none => store
  | some k => Function.update store k (write e (store k))

def putAll (store : κ → δ) (es : List ε) : κ → δ := es.foldl (put cell write) store

variable {cell write} {store : κ → δ} {e : ε} {es : List ε} {k : κ}

theorem put_same (h : cell e = some k) : put cell write store e k = write e (store k) := by
  unfold put
  rw [h]
  exact Function.update_self k _ store

theorem put_other (h : cell e ≠ some k) : put cell write store e k = store k := by
  unfold put
  cases hc : cell e with
  | none => rfl
  | some j =>
    have hne : k ≠ j := fun heq => h (heq ▸ hc)
    exact Function.update_of_ne hne _ store

@[simp] theorem putAll_nil : putAll cell write store [] = store := rfl

@[simp] theorem putAll_cons :
    putAll cell write store (e :: es) = putAll cell write (put cell write store e) es := rfl

theorem putAll_congr {other : κ → δ} (h : store k = other k) :
    putAll cell write store es k = putAll cell write other es k := by
  induction es generalizing store other with
  | nil => exact h
  | cons e es ih =>
    rw [putAll_cons, putAll_cons]
    apply ih
    by_cases hc : cell e = some k
    · rw [put_same hc, put_same hc, h]
    · rw [put_other hc, put_other hc, h]

theorem putAll_filter {p : ε → Bool} (h : ∀ e ∈ es, cell e = some k → p e = true) :
    putAll cell write store es k = putAll cell write store (es.filter p) k := by
  induction es generalizing store with
  | nil => rfl
  | cons e es ih =>
    have hrest := fun store' => @ih store' fun f hf => h f (List.mem_cons_of_mem e hf)
    rw [putAll_cons, hrest]
    by_cases hp : p e = true
    · rw [List.filter_cons_of_pos hp, putAll_cons]
    · rw [List.filter_cons_of_neg hp]
      exact putAll_congr (put_other fun hc => hp (h e List.mem_cons_self hc))

section Refused

variable (on : ε → κ) (act : δ → ε → Option δ)

def step (store : κ → δ) (e : ε) : Option (κ → δ) := (act (store (on e)) e).map (Function.update store (on e))

variable {on act} {after : κ → δ}

end Refused

end DataFabric.CellRuns
