import Mathlib.Data.List.Basic

set_option autoImplicit false

/-! # Taking apart a successful computation -/
namespace DataFabric.ExceptRules

universe u v

variable {ε : Type u} {α β : Type v}

@[simp] theorem ok_bind (a : α) (f : α → Except ε β) : (Except.ok a >>= f) = f a := rfl

@[simp] theorem ok_map (a : α) (f : α → β) : (Except.ok a : Except ε α).map f = .ok (f a) := rfl

theorem bind_ok {x : Except ε α} {f : α → Except ε β} {b : β} (h : (x >>= f) = .ok b) :
    ∃ a, x = .ok a ∧ f a = .ok b := by
  cases x with
  | error e => cases h
  | ok a => exact ⟨a, rfl, h⟩

theorem map_ok {x : Except ε α} {f : α → β} {b : β} (h : x.map f = .ok b) :
    ∃ a, x = .ok a ∧ f a = b := by
  cases x with
  | error e => cases h
  | ok a => exact ⟨a, rfl, Except.ok.inj h⟩

theorem mem_mapM_ok {γ : Type v} {f : γ → Except ε β} {xs : List γ} {ys : List β}
    (h : xs.mapM f = .ok ys) (y : β) : y ∈ ys ↔ ∃ x ∈ xs, f x = .ok y := by
  induction xs generalizing ys with
  | nil =>
    rw [List.mapM_nil] at h
    cases h
    simp
  | cons x xs ih =>
    rw [List.mapM_cons] at h
    obtain ⟨b, hb, h⟩ := bind_ok h
    obtain ⟨bs, hbs, h⟩ := bind_ok h
    cases h
    simp [ih hbs, hb, eq_comm]

theorem mapM_ok_of_mem {γ : Type v} {f : γ → Except ε β} {xs : List γ} {ys : List β}
    (h : xs.mapM f = .ok ys) {x : γ} (hx : x ∈ xs) : ∃ y, f x = .ok y ∧ y ∈ ys := by
  induction xs generalizing ys with
  | nil => cases hx
  | cons x' xs ih =>
    rw [List.mapM_cons] at h
    obtain ⟨b, hb, h⟩ := bind_ok h
    obtain ⟨bs, hbs, h⟩ := bind_ok h
    cases h
    obtain rfl | hx := List.mem_cons.mp hx
    · exact ⟨b, hb, List.mem_cons_self⟩
    · obtain ⟨y, hy, hmem⟩ := ih hbs hx
      exact ⟨y, hy, List.mem_cons_of_mem b hmem⟩

theorem mem_mapM_some {γ : Type v} {f : γ → Option β} {xs : List γ} {ys : List β}
    (h : xs.mapM f = some ys) (y : β) : y ∈ ys ↔ ∃ x ∈ xs, f x = some y := by
  induction xs generalizing ys with
  | nil =>
    rw [List.mapM_nil] at h
    cases h
    simp
  | cons x xs ih =>
    rw [List.mapM_cons] at h
    obtain ⟨b, hb, h⟩ := Option.bind_eq_some_iff.mp h
    obtain ⟨bs, hbs, h⟩ := Option.bind_eq_some_iff.mp h
    cases h
    simp [ih hbs, hb, eq_comm]

theorem mapM_some_of_mem {γ : Type v} {f : γ → Option β} {xs : List γ} {ys : List β}
    (h : xs.mapM f = some ys) {x : γ} (hx : x ∈ xs) : ∃ y, f x = some y ∧ y ∈ ys := by
  induction xs generalizing ys with
  | nil => cases hx
  | cons x' xs ih =>
    rw [List.mapM_cons] at h
    obtain ⟨b, hb, h⟩ := Option.bind_eq_some_iff.mp h
    obtain ⟨bs, hbs, h⟩ := Option.bind_eq_some_iff.mp h
    cases h
    obtain rfl | hx := List.mem_cons.mp hx
    · exact ⟨b, hb, List.mem_cons_self⟩
    · obtain ⟨y, hy, hmem⟩ := ih hbs hx
      exact ⟨y, hy, List.mem_cons_of_mem b hmem⟩

theorem mapM_some {γ : Type v} {f : γ → Option β} {xs : List γ}
    (h : ∀ x ∈ xs, ∃ y, f x = some y) : ∃ ys, xs.mapM f = some ys := by
  induction xs with
  | nil => exact ⟨[], rfl⟩
  | cons x xs ih =>
    obtain ⟨y, hy⟩ := h x List.mem_cons_self
    obtain ⟨ys, hys⟩ := ih fun x' hx' => h x' (List.mem_cons_of_mem x hx')
    refine ⟨y :: ys, ?_⟩
    rw [List.mapM_cons, hy, hys]
    rfl

end DataFabric.ExceptRules
