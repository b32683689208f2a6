import Mathlib.Data.List.Sort

set_option autoImplicit false

/-!
# Stable sorts

Mathlib's insertion sort keeps the order of rows that compare alike, so that it is the
result of every stable sort whose comparison is a total preorder on the rows at hand.
Such a sort does not care whether rows are dropped before or after it.
-/
namespace DataFabric.StableSorts

universe u

variable {α : Type u}

structure Comparable (r : α → α → Prop) (rows : List α) : Prop where
  total : ∀ a ∈ rows, ∀ b ∈ rows, r a b ∨ r b a
  trans : ∀ a ∈ rows, ∀ b ∈ rows, ∀ c ∈ rows, r a b → r b c → r a c

variable {r : α → α → Prop} {rows others : List α}

theorem Comparable.subset (comp : Comparable r rows) (sub : ∀ a ∈ others, a ∈ rows) : Comparable r others where
  total a ha b hb := comp.total a (sub a ha) b (sub b hb)
  trans a ha b hb c hc := comp.trans a (sub a ha) b (sub b hb) c (sub c hc)

theorem Comparable.tail {a : α} (comp : Comparable r (a :: rows)) : Comparable r rows :=
  comp.subset fun _ => List.mem_cons_of_mem a

variable [DecidableRel r]

theorem orderedInsert_of_forall {a : α} (least : ∀ b ∈ rows, r a b) : rows.orderedInsert r a = a :: rows := by
  cases rows with
  | nil => rfl
  | cons b rows => exact List.orderedInsert_cons_of_le r rows (least b List.mem_cons_self)

theorem pairwise_orderedInsert {a : α} (comp : Comparable r (a :: rows)) (sorted : rows.Pairwise r) :
    (rows.orderedInsert r a).Pairwise r := by
  induction rows with
  | nil => exact List.pairwise_singleton r a
  | cons b rows ih =>
    have sortedTail := List.pairwise_cons.mp sorted
    by_cases before : r a b
    · rw [List.orderedInsert_cons_of_le r rows before, List.pairwise_cons]
      refine ⟨?_, sorted⟩
      intro c inRows
      rcases List.mem_cons.mp inRows with rfl | inTail
      · exact before
      · exact comp.trans a List.mem_cons_self b (by simp) c (by simp [inTail]) before (sortedTail.1 c inTail)
    · rw [List.orderedInsert_of_not_le r rows before, List.pairwise_cons]
      constructor
      · intro c inserted
        rcases List.mem_cons.mp ((List.perm_orderedInsert r a rows).mem_iff.mp inserted) with rfl | inTail
        · exact (comp.total c List.mem_cons_self b (by simp)).resolve_left before
        · exact sortedTail.1 c inTail
      · apply ih _ sortedTail.2
        apply comp.subset
        intro c inList
        rcases List.mem_cons.mp inList with rfl | inTail
        · exact List.mem_cons_self
        · simp [inTail]

theorem pairwise_insertionSort (comp : Comparable r rows) : (rows.insertionSort r).Pairwise r := by
  induction rows with
  | nil => exact .nil
  | cons a rows ih =>
    rw [List.insertionSort_cons]
    apply pairwise_orderedInsert _ (ih comp.tail)
    apply comp.subset
    intro b inList
    rw [List.mem_cons, List.mem_insertionSort] at inList
    exact List.mem_cons.mpr inList

theorem filter_orderedInsert {a : α} (comp : Comparable r (a :: rows)) (sorted : rows.Pairwise r) (p : α → Bool) :
    (rows.orderedInsert r a).filter p = if p a then (rows.filter p).orderedInsert r a else rows.filter p := by
  induction rows with
  | nil =>
    by_cases keep : p a <;> simp [keep]
  | cons b rows ih =>
    have sortedTail := List.pairwise_cons.mp sorted
    by_cases before : r a b
    · have least : ∀ c ∈ (b :: rows).filter p, r a c := by
        intro c inList
        rcases List.mem_cons.mp (List.mem_filter.mp inList).1 with rfl | inTail
        · exact before
        · exact comp.trans a List.mem_cons_self b (by simp) c (by simp [inTail]) before (sortedTail.1 c inTail)
      rw [List.orderedInsert_cons_of_le r rows before, orderedInsert_of_forall least, List.filter_cons]
    · have tail : Comparable r (a :: rows) := by
        apply comp.subset
        intro c inList
        rcases List.mem_cons.mp inList with rfl | inTail
        · exact List.mem_cons_self
        · simp [inTail]
      rw [List.orderedInsert_of_not_le r rows before, List.filter_cons, List.filter_cons, ih tail sortedTail.2]
      by_cases keep : p b
      · rw [if_pos keep, if_pos keep, List.orderedInsert_of_not_le r _ before]
        split_ifs <;> rfl
      · rw [if_neg keep, if_neg keep]

theorem filter_insertionSort (comp : Comparable r rows) (p : α → Bool) :
    (rows.insertionSort r).filter p = (rows.filter p).insertionSort r := by
  induction rows with
  | nil => rfl
  | cons a rows ih =>
    have sortedTail : Comparable r (a :: rows.insertionSort r) := by
      apply comp.subset
      intro b inList
      rw [List.mem_cons, List.mem_insertionSort] at inList
      exact List.mem_cons.mpr inList
    rw [List.insertionSort_cons, filter_orderedInsert sortedTail (pairwise_insertionSort comp.tail), ih comp.tail,
      List.filter_cons]
    split_ifs
    · rw [List.insertionSort_cons]
    · rfl

theorem forall₂_orderedInsert {β : Type*} {R : α → β → Prop} {s : β → β → Prop} [DecidableRel s] {a : α} {b : β}
    {ys : List β} (hab : R a b) (h : List.Forall₂ R rows ys)
    (hrs : ∀ c d, R c d → (r a c ↔ s b d)) : List.Forall₂ R (rows.orderedInsert r a) (ys.orderedInsert s b) := by
  induction h with
  | nil => exact .cons hab .nil
  | @cons c d rows ys hcd hrest ih =>
    by_cases before : r a c
    · rw [List.orderedInsert_cons_of_le r rows before, List.orderedInsert_cons_of_le s ys ((hrs c d hcd).mp before)]
      exact .cons hab (.cons hcd hrest)
    · rw [List.orderedInsert_of_not_le r rows before, List.orderedInsert_of_not_le s ys fun h => before ((hrs c d hcd).mpr h)]
      exact .cons hcd ih

theorem forall₂_insertionSort {β : Type*} {R : α → β → Prop} {s : β → β → Prop} [DecidableRel s] {ys : List β}
    (h : List.Forall₂ R rows ys) (hrs : ∀ a b c d, R a b → R c d → (r a c ↔ s b d)) :
    List.Forall₂ R (rows.insertionSort r) (ys.insertionSort s) := by
  induction h with
  | nil => exact .nil
  | cons hab _ ih =>
    rw [List.insertionSort_cons, List.insertionSort_cons]
    exact forall₂_orderedInsert hab ih fun c d hcd => hrs _ _ c d hab hcd

end DataFabric.StableSorts
