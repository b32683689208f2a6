import DataFabric.KeyedJoins
import Mathlib.Data.List.Perm.Subperm

set_option autoImplicit false

/-!
# How many different elements a list has
-/
namespace DataFabric.DistinctElements
open KeyedJoins

variable {α : Type*} [DecidableEq α]

theorem length_eraseDups_congr {xs ys : List α} (h : ∀ x, x ∈ xs ↔ x ∈ ys) :
    xs.eraseDups.length = ys.eraseDups.length := by
  apply List.Perm.length_eq
  rw [List.perm_ext_iff_of_nodup (nodup_eraseDups xs) (nodup_eraseDups ys)]
  intro x
  rw [List.mem_eraseDups, List.mem_eraseDups]
  exact h x

theorem length_eraseDups_le (xs : List α) : xs.eraseDups.length ≤ xs.length := by
  have hsub : xs.eraseDups ⊆ xs := fun x hx => List.mem_eraseDups.mp hx
  exact ((nodup_eraseDups xs).subperm hsub).length_le

theorem length_eraseDups_append (xs ys : List α) :
    (xs ++ ys).eraseDups.length = xs.eraseDups.length + (ys.filter fun y => y ∉ xs).eraseDups.length := by
  have hlacking : ys.removeAll xs = ys.filter fun y => y ∉ xs := by
    unfold List.removeAll
    apply List.filter_congr
    intro y _
    simp
  rw [List.eraseDups_append, List.length_append, hlacking]

theorem length_eraseDups_filter (p : α → Bool) (xs : List α) :
    xs.eraseDups.length = (xs.filter p).eraseDups.length + (xs.filter fun x => !p x).eraseDups.length := by
  have happend : xs.eraseDups.length = (xs.filter p ++ xs.filter fun x => !p x).eraseDups.length := by
    apply length_eraseDups_congr
    intro x
    rw [List.mem_append, List.mem_filter, List.mem_filter]
    cases p x <;> simp
  have hlacking : ((xs.filter fun x => !p x).filter fun y => y ∉ xs.filter p) = xs.filter fun x => !p x := by
    rw [List.filter_eq_self]
    intro x hx
    have hnot := (List.mem_filter.mp hx).2
    simp_all
  rw [happend, length_eraseDups_append, hlacking]

theorem length_eraseDups_snoc (xs : List α) (x : α) :
    (xs ++ [x]).eraseDups.length = xs.eraseDups.length + if x ∈ xs then 0 else 1 := by
  rw [length_eraseDups_append]
  by_cases hx : x ∈ xs
  · simp [hx]
  · simp [hx, List.eraseDups_cons]

end DataFabric.DistinctElements
