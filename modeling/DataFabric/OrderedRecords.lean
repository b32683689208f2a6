import Mathlib.Data.List.Basic
import Mathlib.Data.List.Nodup

set_option autoImplicit false

/-!
# Records with distinct keys in insertion order

An assignment to a present key keeps its place, a new key goes to the end.
-/
namespace DataFabric.OrderedRecords

universe u v

variable {κ : Type u} {ν : Type v}

structure Record (κ : Type u) (ν : Type v) where
  entries : List (κ × ν)
  distinct : (entries.map Prod.fst).Nodup

variable [DecidableEq κ]

instance [DecidableEq ν] : DecidableEq (Record κ ν) := fun r s =>
  decidable_of_iff (r.entries = s.entries) (by cases r; cases s; simp)

def assignEntry (k : κ) (v : ν) : List (κ × ν) → List (κ × ν)
  | [] => [(k, v)]
  | (l, w) :: rest => if l = k then (l, v) :: rest else (l, w) :: assignEntry k v rest

theorem assignEntry_keys (k : κ) (v : ν) (es : List (κ × ν)) :
    (assignEntry k v es).map Prod.fst =
      if k ∈ es.map Prod.fst then es.map Prod.fst else es.map Prod.fst ++ [k] := by
  induction es with
  | nil => rfl
  | cons e es ih =>
    obtain ⟨l, w⟩ := e
    unfold assignEntry
    by_cases h : l = k
    · simp [h]
    · have hne : k ≠ l := fun e => h e.symm
      rw [if_neg h, List.map_cons, ih]
      by_cases hk : k ∈ es.map Prod.fst
      · simp only [hk, if_true, List.map_cons, List.mem_cons, or_true]
      · simp only [hk, if_false, List.map_cons, List.mem_cons, hne, or_self, List.cons_append]

theorem assignEntry_nodup (k : κ) (v : ν) {es : List (κ × ν)} (h : (es.map Prod.fst).Nodup) :
    ((assignEntry k v es).map Prod.fst).Nodup := by
  rw [assignEntry_keys]
  by_cases hk : k ∈ es.map Prod.fst
  · rwa [if_pos hk]
  · rw [if_neg hk]
    refine List.nodup_append.mpr ⟨h, List.nodup_singleton k, ?_⟩
    intro a ha b hb heq
    rw [List.mem_singleton] at hb
    exact hk (hb ▸ heq ▸ ha)

theorem lookup_cons_ite (k l : κ) (w : ν) (es : List (κ × ν)) :
    ((l, w) :: es).lookup k = if k = l then some w else es.lookup k := by
  rw [List.lookup_cons]
  by_cases h : k = l
  · subst h
    rw [beq_self_eq_true, if_pos rfl]
  · rw [beq_eq_false_iff_ne.mpr h, if_neg h]

theorem lookup_assignEntry (k k' : κ) (v : ν) (es : List (κ × ν)) :
    (assignEntry k v es).lookup k' = if k' = k then some v else es.lookup k' := by
  induction es with
  | nil => exact lookup_cons_ite k' k v []
  | cons e es ih =>
    obtain ⟨l, w⟩ := e
    unfold assignEntry
    by_cases h : l = k
    · subst h
      rw [if_pos rfl, lookup_cons_ite, lookup_cons_ite]
      by_cases h' : k' = l <;> simp [h']
    · rw [if_neg h, lookup_cons_ite, lookup_cons_ite, ih]
      by_cases h' : k' = l
      · simp [h', h]
      · simp [h']

theorem lookup_eq_some_iff {es : List (κ × ν)} (h : (es.map Prod.fst).Nodup) (k : κ) (v : ν) :
    es.lookup k = some v ↔ (k, v) ∈ es := by
  induction es with
  | nil => simp
  | cons e es ih =>
    obtain ⟨l, w⟩ := e
    rw [List.map_cons, List.nodup_cons] at h
    rw [lookup_cons_ite, List.mem_cons, Prod.mk.injEq]
    by_cases hk : k = l
    · subst hk
      have hnot : (k, v) ∉ es := fun hmem => h.1 (List.mem_map.mpr ⟨_, hmem, rfl⟩)
      simp [hnot, eq_comm]
    · simp [hk, ih h.2]

namespace Record

def empty : Record κ ν := ⟨[], List.nodup_nil⟩

def get? (r : Record κ ν) (k : κ) : Option ν := r.entries.lookup k

def assign (r : Record κ ν) (k : κ) (v : ν) : Record κ ν :=
  ⟨assignEntry k v r.entries, assignEntry_nodup k v r.distinct⟩

@[simp] theorem get?_empty (k : κ) : (empty : Record κ ν).get? k = none := rfl

@[simp] theorem get?_assign (r : Record κ ν) (k k' : κ) (v : ν) :
    (r.assign k v).get? k' = if k' = k then some v else r.get? k' :=
  lookup_assignEntry k k' v r.entries

theorem get?_eq_some_iff (r : Record κ ν) (k : κ) (v : ν) :
    r.get? k = some v ↔ (k, v) ∈ r.entries := lookup_eq_some_iff r.distinct k v

def spread (r s : Record κ ν) : Record κ ν :=
  s.entries.foldl (fun acc e => acc.assign e.1 e.2) r

private theorem get?_foldl (es : List (κ × ν)) (h : (es.map Prod.fst).Nodup) (r : Record κ ν)
    (k : κ) :
    (es.foldl (fun acc e => acc.assign e.1 e.2) r).get? k = (es.lookup k).or (r.get? k) := by
  induction es generalizing r with
  | nil => rfl
  | cons e es ih =>
    obtain ⟨l, w⟩ := e
    rw [List.map_cons, List.nodup_cons] at h
    rw [List.foldl_cons, ih h.2, get?_assign, lookup_cons_ite]
    by_cases hk : k = l
    · subst hk
      have hnone : es.lookup k = none := by
        cases hl : es.lookup k with
        | none => rfl
        | some v => exact absurd (List.mem_map.mpr ⟨_, (lookup_eq_some_iff h.2 k v).mp hl, rfl⟩) h.1
      simp [hnone]
    · simp [hk]

theorem get?_foldl_update {μ : Type*} (f : κ → Option ν → μ → ν) {es : List (κ × μ)}
    (h : (es.map Prod.fst).Nodup) (r : Record κ ν) (k : κ) :
    (es.foldl (fun acc e => acc.assign e.1 (f e.1 (acc.get? e.1) e.2)) r).get? k =
      ((es.lookup k).map (f k (r.get? k))).or (r.get? k) := by
  induction es generalizing r with
  | nil => rfl
  | cons e es ih =>
    obtain ⟨l, w⟩ := e
    rw [List.map_cons, List.nodup_cons] at h
    rw [List.foldl_cons, ih h.2, get?_assign, lookup_cons_ite]
    by_cases hk : k = l
    · subst hk
      have hnone : es.lookup k = none := by
        cases hl : es.lookup k with
        | none => rfl
        | some v => exact absurd (List.mem_map.mpr ⟨_, (lookup_eq_some_iff h.2 k v).mp hl, rfl⟩) h.1
      simp [hnone]
    · simp [hk]

theorem get?_spread (r s : Record κ ν) (k : κ) : (r.spread s).get? k = (s.get? k).or (r.get? k) :=
  get?_foldl s.entries s.distinct r k

theorem get?_of_mem {r : Record κ ν} {e : κ × ν} (he : e ∈ r.entries) : r.get? e.1 = some e.2 :=
  (get?_eq_some_iff r e.1 e.2).mpr he

theorem eq_of_single {r s : Record κ ν} (hget : ∀ k, r.get? k = s.get? k)
    (hone : ∀ k k', r.get? k ≠ none → r.get? k' ≠ none → k = k') : r = s := by
  have hshort : ∀ t : Record κ ν, (∀ k, t.get? k = r.get? k) → t.entries.length ≤ 1 := by
    intro t ht
    match hentries : t.entries with
    | [] => exact Nat.zero_le 1
    | [e] => exact Nat.le_refl 1
    | e :: e' :: es =>
      have hheld : ∀ d ∈ t.entries, r.get? d.1 ≠ none := by
        intro d hd
        rw [← ht, get?_of_mem hd]
        exact Option.some_ne_none _
      rw [hentries] at hheld
      have hsame := hone e.1 e'.1 (hheld e (by simp)) (hheld e' (by simp))
      have hdistinct := t.distinct
      rw [hentries, List.map_cons, List.map_cons, List.nodup_cons] at hdistinct
      exact absurd (hsame ▸ List.mem_cons_self) hdistinct.1
  have hmem : ∀ e, e ∈ r.entries ↔ e ∈ s.entries := by
    intro e
    rw [← get?_eq_some_iff, ← get?_eq_some_iff, hget]
  have hperm : r.entries.Perm s.entries :=
    (List.perm_ext_iff_of_nodup r.distinct.of_map s.distinct.of_map).mpr hmem
  have hentries : r.entries = s.entries := by
    have hs := hshort s fun k => (hget k).symm
    match hs' : s.entries with
    | [] => rw [hs'] at hperm; exact hperm.eq_nil
    | [e] => rw [hs'] at hperm; exact List.perm_singleton.mp hperm
    | e :: e' :: es =>
      rw [hs', List.length_cons, List.length_cons] at hs
      omega
  cases r
  cases s
  rw [Record.mk.injEq]
  exact hentries

def restrict (r : Record κ ν) (p : κ → Bool) : Record κ ν :=
  ⟨r.entries.filter fun e => p e.1, r.distinct.sublist (List.filter_sublist.map _)⟩

theorem get?_restrict (r : Record κ ν) (p : κ → Bool) (k : κ) :
    (r.restrict p).get? k = if p k then r.get? k else none := by
  apply Option.ext
  intro v
  rw [get?_eq_some_iff, restrict, List.mem_filter]
  by_cases hk : p k
  · rw [if_pos hk, get?_eq_some_iff]
    exact and_iff_left hk
  · rw [if_neg hk]
    simp [hk]

theorem assignEntry_cons (k l : κ) (v w : ν) (es : List (κ × ν)) :
    assignEntry k v ((l, w) :: es) = if l = k then (l, v) :: es else (l, w) :: assignEntry k v es := rfl

theorem filter_assignEntry (p : κ → Bool) (k : κ) (v : ν) (es : List (κ × ν)) :
    (assignEntry k v es).filter (fun e => p e.1) =
      if p k then assignEntry k v (es.filter fun e => p e.1) else es.filter fun e => p e.1 := by
  induction es with
  | nil => by_cases hk : p k <;> simp [assignEntry, hk]
  | cons e es ih =>
    obtain ⟨l, w⟩ := e
    rw [assignEntry_cons]
    by_cases hl : l = k
    · subst hl
      by_cases hk : p l
      · simp [hk, assignEntry_cons]
      · simp [hk]
    · rw [if_neg hl, List.filter_cons, List.filter_cons, ih]
      by_cases hk : p k
      · rw [if_pos hk, if_pos hk]
        by_cases hp : p l
        · rw [if_pos hp, if_pos hp, assignEntry_cons, if_neg hl]
        · rw [if_neg hp, if_neg hp]
      · rw [if_neg hk, if_neg hk]

theorem restrict_assign (r : Record κ ν) (p : κ → Bool) (k : κ) (v : ν) :
    (r.assign k v).restrict p = if p k then (r.restrict p).assign k v else r.restrict p := by
  have hentries := filter_assignEntry p k v r.entries
  unfold restrict assign
  by_cases hk : p k
  · rw [if_pos hk] at hentries
    simp only [hk, if_true, hentries]
  · rw [if_neg hk] at hentries
    simp only [hk, if_false, hentries, Bool.false_eq_true]

theorem restrict_spread (r s : Record κ ν) (p : κ → Bool) :
    (r.spread s).restrict p = (r.restrict p).spread (s.restrict p) := by
  unfold spread
  change _ = (s.entries.filter fun e => p e.1).foldl (fun acc e => acc.assign e.1 e.2) (r.restrict p)
  generalize s.entries = es
  induction es generalizing r with
  | nil => rfl
  | cons e es ih =>
    rw [List.foldl_cons, ih, restrict_assign, List.filter_cons]
    by_cases hk : p e.1
    · rw [if_pos hk, if_pos hk, List.foldl_cons]
    · rw [if_neg hk, if_neg hk]

end Record

end DataFabric.OrderedRecords
