import Mathlib.Data.List.Sort

set_option autoImplicit false

/-!
# Reading a collection by pages behind a cursor

A page holds the first rows, by key, whose key is above the cursor. Where no two rows share a key,
the pages behind the last key of the page before cut the sorted collection into pieces.
-/
namespace DataFabric.KeysetPages

variable {ρ κ : Type*}

def lastKey (key : ρ → κ) (cursor : Option κ) (rows : List ρ) : Option κ := (rows.getLast?.map key).or cursor

theorem lastKey_append (key : ρ → κ) (cursor : Option κ) (rows more : List ρ) :
    lastKey key cursor (rows ++ more) = lastKey key (lastKey key cursor rows) more := by
  unfold lastKey
  rw [List.getLast?_append]
  cases more.getLast? <;> rfl

theorem lastKey_mem (key : ρ → κ) (cursor : Option κ) {rows : List ρ} (h : rows ≠ []) :
    ∃ r ∈ rows, lastKey key cursor rows = some (key r) := by
  refine ⟨rows.getLast h, List.getLast_mem h, ?_⟩
  unfold lastKey
  rw [List.getLast?_eq_some_getLast h]
  rfl

variable [LinearOrder κ] (key : ρ → κ)

def beyond (cursor : Option κ) (rows : List ρ) : List ρ :=
  (rows.filter fun r => cursor.all fun c => decide (c < key r)).insertionSort fun a b => key a ≤ key b

def page (cursor : Option κ) (limit : ℕ) (rows : List ρ) : List ρ := (beyond key cursor rows).take limit

variable {key} {cursor : Option κ} {rows : List ρ} {limit : ℕ} {r : ρ}

@[simp] theorem mem_beyond : r ∈ beyond key cursor rows ↔ r ∈ rows ∧ ∀ c ∈ cursor, c < key r := by
  unfold beyond
  rw [List.mem_insertionSort, List.mem_filter]
  cases cursor <;> simp

theorem mem_page (h : r ∈ page key cursor limit rows) : r ∈ rows ∧ ∀ c ∈ cursor, c < key r :=
  mem_beyond.mp (List.mem_of_mem_take h)

theorem beyond_sorted (key : ρ → κ) (cursor : Option κ) (rows : List ρ) :
    (beyond key cursor rows).Pairwise fun a b => key a ≤ key b := by
  have htotal : Std.Total fun a b : ρ => key a ≤ key b := ⟨fun a b => le_total (key a) (key b)⟩
  have htrans : IsTrans ρ fun a b => key a ≤ key b := ⟨fun _ _ _ => le_trans⟩
  exact List.pairwise_insertionSort _ _

theorem page_sorted (key : ρ → κ) (cursor : Option κ) (limit : ℕ) (rows : List ρ) :
    (page key cursor limit rows).Pairwise fun a b => key a ≤ key b :=
  (beyond_sorted key cursor rows).sublist (List.take_sublist _ _)

theorem page_eq_nil (hlimit : 0 < limit) (h : page key cursor limit rows = []) :
    beyond key cursor rows = [] := by
  rcases List.take_eq_nil_iff.mp h with hzero | hnil
  · omega
  · exact hnil

theorem page_short (h : (page key cursor limit rows).length < limit) :
    page key cursor limit rows = beyond key cursor rows := by
  unfold page at h ⊢
  rw [List.length_take] at h
  refine List.take_of_length_le ?_
  omega

theorem beyond_length_lt (hr : r ∈ beyond key cursor rows) :
    (beyond key (some (key r)) rows).length < (beyond key cursor rows).length := by
  unfold beyond at hr ⊢
  rw [List.length_insertionSort, List.length_insertionSort]
  rw [List.mem_insertionSort] at hr
  have hsub : (rows.filter fun x => (some (key r)).all fun c => decide (c < key x)) =
      (rows.filter fun x => cursor.all fun c => decide (c < key x)).filter
        fun x => decide (key r < key x) := by
    rw [List.filter_filter]
    refine List.filter_congr fun x _ => ?_
    have hbelow := (List.mem_filter.mp hr).2
    cases cursor with
    | none => simp
    | some c =>
      simp only [Option.all_some, decide_eq_true_eq] at hbelow ⊢
      by_cases hlt : key r < key x
      · simp [hlt, lt_trans hbelow hlt]
      · simp [hlt]
  rw [hsub]
  exact List.length_filter_lt_length_iff_exists.mpr ⟨r, hr, by simp⟩

theorem le_lastKey (hsorted : rows.Pairwise fun a b => key a ≤ key b) (hr : r ∈ rows) :
    ∃ k, lastKey key cursor rows = some k ∧ key r ≤ k := by
  unfold lastKey
  obtain ⟨init, last, rfl⟩ := List.eq_nil_or_concat rows |>.resolve_left (List.ne_nil_of_mem hr)
  rw [List.concat_eq_append] at hsorted hr ⊢
  rw [List.getLast?_concat]
  refine ⟨key last, rfl, ?_⟩
  rcases List.mem_append.mp hr with hinit | hlast
  · exact (List.pairwise_append.mp hsorted).2.2 r hinit last (List.mem_singleton_self last)
  · rw [List.mem_singleton] at hlast
    exact le_of_eq (congrArg key hlast)

theorem page_rest_le (hr : r ∈ rows) (hlt : ∀ c ∈ cursor, c < key r)
    (hout : r ∉ page key cursor limit rows) : ∀ x ∈ page key cursor limit rows, key x ≤ key r := by
  have hmem : r ∈ beyond key cursor rows := mem_beyond.mpr ⟨hr, hlt⟩
  have hsorted := beyond_sorted key cursor rows
  rw [← List.take_append_drop limit (beyond key cursor rows)] at hmem hsorted
  have hdrop := (List.mem_append.mp hmem).resolve_left hout
  exact fun x hx => (List.pairwise_append.mp hsorted).2.2 x hx r hdrop

section Unique

variable (hunique : (rows.map key).Nodup)
include hunique

theorem beyond_strict (cursor : Option κ) :
    (beyond key cursor rows).Pairwise fun a b => key a < key b := by
  have hperm := (List.perm_insertionSort (fun a b : ρ => key a ≤ key b)
    (rows.filter fun r => cursor.all fun c => decide (c < key r))).map key
  have hnodup : ((beyond key cursor rows).map key).Nodup :=
    hperm.nodup_iff.mpr (hunique.sublist (List.filter_sublist.map _))
  exact (beyond_sorted key cursor rows).imp₂ (fun _ _ hle hne => lt_of_le_of_ne hle hne)
    (List.pairwise_map.mp hnodup)

theorem page_rest (hr : r ∈ rows) (hlt : ∀ c ∈ cursor, c < key r) :
    r ∈ page key cursor limit rows ∨ ∀ x ∈ page key cursor limit rows, key x < key r := by
  have hmem : r ∈ beyond key cursor rows := mem_beyond.mpr ⟨hr, hlt⟩
  have hstrict := beyond_strict hunique cursor
  rw [← List.take_append_drop limit (beyond key cursor rows)] at hmem hstrict
  rcases List.mem_append.mp hmem with htake | hdrop
  · exact .inl htake
  · exact .inr fun x hx => (List.pairwise_append.mp hstrict).2.2 x hx r hdrop

theorem beyond_filter {k : κ} (hle : ∀ c ∈ cursor, c ≤ k) :
    beyond key (some k) rows = (beyond key cursor rows).filter fun r => decide (k < key r) := by
  have hperm : (beyond key (some k) rows).Perm
      ((beyond key cursor rows).filter fun r => decide (k < key r)) := by
    refine (List.perm_insertionSort _ _).trans ?_
    have hfilter := (List.perm_insertionSort (fun a b : ρ => key a ≤ key b)
      (rows.filter fun r => cursor.all fun c => decide (c < key r))).filter fun r => decide (k < key r)
    refine List.Perm.trans ?_ hfilter.symm
    rw [List.filter_filter]
    refine List.Perm.of_eq (List.filter_congr fun r _ => ?_)
    cases cursor with
    | none => simp
    | some c =>
      by_cases h : k < key r
      · have hc : c < key r := lt_of_le_of_lt (hle c rfl) h
        simp [h, hc]
      · simp [h]
  refine List.Perm.eq_of_pairwise ?_ (beyond_strict hunique _)
    ((beyond_strict hunique cursor).sublist List.filter_sublist) hperm
  intro a b _ _ hab hba
  exact absurd hab (lt_asymm hba)

theorem beyond_next (cursor : Option κ) (limit : ℕ) :
    beyond key (lastKey key cursor (page key cursor limit rows)) rows =
      (beyond key cursor rows).drop limit := by
  by_cases hnil : page key cursor limit rows = []
  · have hlast : lastKey key cursor (page key cursor limit rows) = cursor := by rw [hnil]; rfl
    rw [hlast]
    rcases List.take_eq_nil_iff.mp hnil with rfl | hp
    · rfl
    · rw [hp, List.drop_nil]
  · obtain ⟨l, hl, hlast⟩ := lastKey_mem key cursor hnil
    have hstrict := beyond_strict hunique cursor
    rw [← List.take_append_drop limit (beyond key cursor rows), List.pairwise_append] at hstrict
    rw [hlast, beyond_filter hunique fun c hc => le_of_lt ((mem_page hl).2 c hc)]
    conv_lhs => rw [← List.take_append_drop limit (beyond key cursor rows)]
    rw [List.filter_append]
    have htake : ((beyond key cursor rows).take limit).filter (fun r => decide (key l < key r)) = [] := by
      refine List.filter_eq_nil_iff.mpr fun r hr => ?_
      obtain ⟨k, hk, hle⟩ := @le_lastKey _ _ _ key cursor _ _ (page_sorted key cursor limit rows) hr
      rw [hlast, Option.some.injEq] at hk
      simpa [hk] using hle
    have hdrop : ((beyond key cursor rows).drop limit).filter (fun r => decide (key l < key r)) =
        (beyond key cursor rows).drop limit :=
      List.filter_eq_self.mpr fun r hr => decide_eq_true (hstrict.2.2 l hl r hr)
    rw [htake, hdrop, List.nil_append]

end Unique

end DataFabric.KeysetPages
