import Mathlib.Data.List.Basic
import Mathlib.Data.List.Forall2
import Mathlib.Data.List.Nodup
import Mathlib.Data.List.Perm.Basic

set_option autoImplicit false

/-!
# Joins over lists

The pairs of two lists that a relation links, in the order of a nested loop,
and what a batched look-up of one side by key leaves of them.
-/
namespace DataFabric.KeyedJoins

universe u v w

variable {α : Type u} {β : Type v} {κ : Type w}

def pairs (rel : α → β → Bool) (ls : List α) (rs : List β) : List (α × β) :=
  ls.flatMap fun l => (rs.filter (rel l)).map (Prod.mk l)

@[simp] theorem pairs_cons (rel : α → β → Bool) (l : α) (ls : List α) (rs : List β) :
    pairs rel (l :: ls) rs = (rs.filter (rel l)).map (Prod.mk l) ++ pairs rel ls rs := rfl

theorem pairs_append (rel : α → β → Bool) (ls ls' : List α) (rs : List β) :
    pairs rel (ls ++ ls') rs = pairs rel ls rs ++ pairs rel ls' rs := List.flatMap_append

theorem mem_pairs {rel : α → β → Bool} {ls : List α} {rs : List β} {p : α × β} :
    p ∈ pairs rel ls rs ↔ p.1 ∈ ls ∧ p.2 ∈ rs ∧ rel p.1 p.2 = true := by
  simp only [pairs, List.mem_flatMap, List.mem_map, List.mem_filter]
  constructor
  · rintro ⟨l, hl, r, ⟨hr, hrel⟩, rfl⟩
    exact ⟨hl, hr, hrel⟩
  · rintro ⟨hl, hr, hrel⟩
    exact ⟨p.1, hl, p.2, ⟨hr, hrel⟩, rfl⟩

theorem pairs_congr_right {rel rel' : α → β → Bool} {ls : List α} {rs rs' : List β}
    (h : ∀ l ∈ ls, rs.filter (rel l) = rs'.filter (rel' l)) : pairs rel ls rs = pairs rel' ls rs' := by
  induction ls with
  | nil => rfl
  | cons l ls ih =>
    rw [pairs_cons, pairs_cons, h l List.mem_cons_self]
    have htail := ih fun m hm => h m (List.mem_cons_of_mem _ hm)
    rw [htail]

theorem pairs_perm_left {rel : α → β → Bool} {ls ls' : List α} (rs : List β) (h : ls.Perm ls') :
    (pairs rel ls rs).Perm (pairs rel ls' rs) := h.flatMap_right _

theorem pairs_cons_right (rel : α → β → Bool) (ls : List α) (r : β) (rs : List β) :
    (pairs rel ls (r :: rs)).Perm
      ((ls.filter fun l => rel l r).map (fun l => (l, r)) ++ pairs rel ls rs) := by
  induction ls with
  | nil => exact .refl _
  | cons l ls ih =>
    rw [pairs_cons, pairs_cons, List.filter_cons, List.filter_cons]
    by_cases h : rel l r = true
    · rw [if_pos h, if_pos h, List.map_cons, List.map_cons, List.cons_append, List.cons_append]
      refine .cons _ ?_
      refine ((List.Perm.refl _).append ih).trans ?_
      rw [← List.append_assoc, ← List.append_assoc]
      exact (List.perm_append_comm).append_right _
    · rw [if_neg h, if_neg h]
      refine ((List.Perm.refl _).append ih).trans ?_
      rw [← List.append_assoc, ← List.append_assoc]
      exact (List.perm_append_comm).append_right _

@[simp] theorem pairs_nil_right (rel : α → β → Bool) (ls : List α) : pairs rel ls [] = [] := by
  simp [pairs]

theorem pairs_swap (rel : α → β → Bool) (ls : List α) (rs : List β) :
    ((pairs rel ls rs).map Prod.swap).Perm (pairs (fun r l => rel l r) rs ls) := by
  induction rs with
  | nil =>
    rw [pairs_nil_right]
    exact .refl _
  | cons r rs ih =>
    refine ((pairs_cons_right rel ls r rs).map Prod.swap).trans ?_
    rw [List.map_append, List.map_map, pairs_cons]
    exact (List.Perm.refl _).append ih

/-- The partners of one left row, or the row by itself where that is asked for. -/
def partners (keep : Bool) (l : α) : List β → List (α × Option β)
  | [] => if keep then [(l, none)] else []
  | r :: ms => (r :: ms).map fun r => (l, some r)

def outerPairs (keep : Bool) (rel : α → β → Bool) (ls : List α) (rs : List β) : List (α × Option β) :=
  ls.flatMap fun l => partners keep l (rs.filter (rel l))

theorem outerPairs_cons (keep : Bool) (rel : α → β → Bool) (l : α) (ls : List α) (rs : List β) :
    outerPairs keep rel (l :: ls) rs = partners keep l (rs.filter (rel l)) ++ outerPairs keep rel ls rs := rfl

theorem partners_length (keep : Bool) (l : α) (ms : List β) :
    (partners keep l ms).length = max (if keep then 1 else 0) ms.length := by
  cases ms with
  | nil => cases keep <;> rfl
  | cons r ms =>
    cases keep with
    | true => simp [partners]
    | false => simp [partners]

theorem fst_of_mem_partners {keep : Bool} {l : α} {ms : List β} {p : α × Option β} (h : p ∈ partners keep l ms) :
    p.1 = l := by
  cases ms with
  | nil =>
    cases keep with
    | true => exact congrArg Prod.fst (List.mem_singleton.mp h)
    | false => cases h
  | cons r ms =>
    have ⟨_, _, hx⟩ := List.mem_map.mp h
    rw [← hx]

theorem fst_mem_outerPairs {keep : Bool} {rel : α → β → Bool} {ls : List α} {rs : List β} {p : α × Option β}
    (h : p ∈ outerPairs keep rel ls rs) : p.1 ∈ ls := by
  have ⟨m, hm, hp⟩ := List.mem_flatMap.mp h
  rw [fst_of_mem_partners hp]
  exact hm

theorem outerPairs_append (keep : Bool) (rel : α → β → Bool) (ls ls' : List α) (rs : List β) :
    outerPairs keep rel (ls ++ ls') rs = outerPairs keep rel ls rs ++ outerPairs keep rel ls' rs :=
  List.flatMap_append

theorem outerPairs_congr_right {keep : Bool} {rel rel' : α → β → Bool} {ls : List α} {rs rs' : List β}
    (h : ∀ l ∈ ls, rs.filter (rel l) = rs'.filter (rel' l)) :
    outerPairs keep rel ls rs = outerPairs keep rel' ls rs' := by
  induction ls with
  | nil => rfl
  | cons l ls ih =>
    rw [outerPairs_cons, outerPairs_cons, h l List.mem_cons_self, ih fun m hm => h m (List.mem_cons_of_mem _ hm)]

theorem outerPairs_congr {keep : Bool} {rel rel' : α → β → Bool} {ls : List α} {rs : List β}
    (h : ∀ l ∈ ls, ∀ r ∈ rs, rel l r = rel' l r) : outerPairs keep rel ls rs = outerPairs keep rel' ls rs :=
  outerPairs_congr_right fun l hl => List.filter_congr (h l hl)

theorem forall₂_outerPairs {γ δ : Type*} {R : α → γ → Prop} {S : β → δ → Prop} {keep : Bool}
    {rel : α → β → Bool} {rel' : γ → δ → Bool} (hrel : ∀ l l', R l l' → ∀ r r', S r r' → rel l r = rel' l' r')
    {ls : List α} {ls' : List γ} (hls : List.Forall₂ R ls ls') {rs : List β} {rs' : List δ}
    (hrs : List.Forall₂ S rs rs') :
    List.Forall₂ (fun p q => R p.1 q.1 ∧ Option.Rel S p.2 q.2) (outerPairs keep rel ls rs)
      (outerPairs keep rel' ls' rs') := by
  refine List.rel_flatMap hls fun l l' hl => ?_
  have hmatches : List.Forall₂ S (rs.filter (rel l)) (rs'.filter (rel' l')) := by
    refine List.rel_filter (fun r r' hr => ?_) hrs
    change rel l r = true ↔ rel' l' r' = true
    rw [hrel l l' hl r r' hr]
  generalize rs.filter (rel l) = ms, rs'.filter (rel' l') = ms' at hmatches
  cases hmatches with
  | nil =>
    unfold partners
    by_cases hkeep : keep
    · rw [if_pos hkeep, if_pos hkeep]
      exact .cons ⟨hl, .none⟩ .nil
    · rw [if_neg hkeep, if_neg hkeep]
      exact .nil
  | cons hr hrest =>
    exact List.rel_map (fun _ _ hr => ⟨hl, .some hr⟩) (.cons hr hrest)

theorem mem_outerPairs {keep : Bool} {rel : α → β → Bool} {ls : List α} {rs : List β} {l : α} {r : β} :
    (l, some r) ∈ outerPairs keep rel ls rs ↔ l ∈ ls ∧ r ∈ rs ∧ rel l r = true := by
  induction ls with
  | nil => simp [outerPairs]
  | cons m ls ih =>
    rw [outerPairs_cons, List.mem_append, ih]
    have hpartners : (l, some r) ∈ partners keep m (rs.filter (rel m)) ↔ l = m ∧ r ∈ rs ∧ rel m r = true := by
      rw [← List.mem_filter]
      cases rs.filter (rel m) with
      | nil => cases keep <;> simp [partners]
      | cons r' ms =>
        unfold partners
        rw [List.mem_map]
        constructor
        · rintro ⟨x, hx, heq⟩
          cases heq
          exact ⟨rfl, hx⟩
        · rintro ⟨rfl, hx⟩
          exact ⟨r, hx, rfl⟩
    rw [hpartners, List.mem_cons]
    constructor
    · rintro (⟨rfl, hr⟩ | ⟨hl, hr⟩)
      · exact ⟨.inl rfl, hr⟩
      · exact ⟨.inr hl, hr⟩
    · rintro ⟨rfl | hl, hr⟩
      · exact .inl ⟨rfl, hr⟩
      · exact .inr ⟨hl, hr⟩

theorem none_mem_outerPairs {keep : Bool} {rel : α → β → Bool} {ls : List α} {rs : List β} {l : α}
    (h : (l, none) ∈ outerPairs keep rel ls rs) : keep = true := by
  obtain ⟨m, _, hm⟩ := List.mem_flatMap.mp h
  cases hms : rs.filter (rel m) with
  | nil =>
    rw [hms] at hm
    cases keep with
    | true => rfl
    | false => cases hm
  | cons r ms =>
    rw [hms] at hm
    obtain ⟨x, _, hx⟩ := List.mem_map.mp hm
    cases hx

theorem paired_length (keep : Bool) (rel : α → β → Bool) (ls : List α) (rs : List β) :
    ((outerPairs keep rel ls rs).filter fun p => p.2.isSome).length = (pairs rel ls rs).length := by
  induction ls with
  | nil => rfl
  | cons l ls ih =>
    rw [outerPairs_cons, List.filter_append, List.length_append, ih, pairs_cons, List.length_append,
      List.length_map]
    congr 1
    cases rs.filter (rel l) with
    | nil => cases keep <;> simp [partners]
    | cons r ms => simp [partners, List.filter_map, Function.comp_def]

theorem filter_length_le {p q : α → Bool} {xs : List α} (h : ∀ x ∈ xs, p x = true → q x = true) :
    (xs.filter p).length ≤ (xs.filter q).length := by
  rw [← List.countP_eq_length_filter, ← List.countP_eq_length_filter]
  exact List.countP_mono_left h

theorem outerPairs_length_le {keep : Bool} {rel rel' : α → β → Bool} {ls : List α} {rs : List β}
    (h : ∀ l ∈ ls, ∀ r ∈ rs, rel l r = true → rel' l r = true) :
    (outerPairs keep rel ls rs).length ≤ (outerPairs keep rel' ls rs).length := by
  induction ls with
  | nil => exact Nat.le_refl _
  | cons l ls ih =>
    have hle := filter_length_le (h l List.mem_cons_self)
    have htail := ih fun m hm => h m (List.mem_cons_of_mem _ hm)
    rw [outerPairs_cons, outerPairs_cons, List.length_append, List.length_append, partners_length,
      partners_length]
    omega

theorem filter_length_eq {p q : α → Bool} {xs : List α} (h : ∀ x ∈ xs, p x = true → q x = true)
    (hlen : (xs.filter q).length ≤ (xs.filter p).length) : ∀ x ∈ xs, q x = true → p x = true := by
  induction xs with
  | nil => exact fun x hx => absurd hx List.not_mem_nil
  | cons y xs ih =>
    have htail : ∀ x ∈ xs, p x = true → q x = true := fun x hx => h x (List.mem_cons_of_mem _ hx)
    have hle := filter_length_le htail
    intro x hx hqx
    rw [List.filter_cons, List.filter_cons] at hlen
    by_cases hpy : p y = true
    · rw [if_pos hpy, if_pos (h y List.mem_cons_self hpy), List.length_cons, List.length_cons] at hlen
      rcases List.mem_cons.mp hx with rfl | hx
      · exact hpy
      · exact ih htail (by omega) x hx hqx
    · rw [if_neg hpy] at hlen
      by_cases hqy : q y = true
      · rw [if_pos hqy, List.length_cons] at hlen
        omega
      · rw [if_neg hqy] at hlen
        rcases List.mem_cons.mp hx with rfl | hx
        · exact absurd hqx hqy
        · exact ih htail hlen x hx hqx

theorem pairs_length_le {rel rel' : α → β → Bool} {ls : List α} {rs : List β}
    (h : ∀ l ∈ ls, ∀ r ∈ rs, rel l r = true → rel' l r = true) :
    (pairs rel ls rs).length ≤ (pairs rel' ls rs).length := by
  induction ls with
  | nil => exact Nat.le_refl _
  | cons l ls ih =>
    have hle := filter_length_le (h l List.mem_cons_self)
    have htail := ih fun m hm => h m (List.mem_cons_of_mem _ hm)
    rw [pairs_cons, pairs_cons, List.length_append, List.length_append, List.length_map, List.length_map]
    omega

theorem pairs_length_eq {rel rel' : α → β → Bool} {ls : List α} {rs : List β}
    (h : ∀ l ∈ ls, ∀ r ∈ rs, rel l r = true → rel' l r = true)
    (hlen : (pairs rel' ls rs).length ≤ (pairs rel ls rs).length) :
    ∀ l ∈ ls, ∀ r ∈ rs, rel' l r = true → rel l r = true := by
  induction ls with
  | nil => exact fun l hl => absurd hl List.not_mem_nil
  | cons m ls ih =>
    have htail : ∀ l ∈ ls, ∀ r ∈ rs, rel l r = true → rel' l r = true :=
      fun l hl => h l (List.mem_cons_of_mem _ hl)
    have hhead := filter_length_le (h m List.mem_cons_self)
    have hrest := pairs_length_le htail
    rw [pairs_cons, pairs_cons, List.length_append, List.length_append, List.length_map, List.length_map] at hlen
    intro l hl
    rcases List.mem_cons.mp hl with rfl | hl
    · exact filter_length_eq (h l List.mem_cons_self) (by omega)
    · exact ih htail (by omega) l hl

theorem nodup_eraseDups [BEq α] [LawfulBEq α] (xs : List α) : xs.eraseDups.Nodup := by
  induction hn : xs.length using Nat.strongRecOn generalizing xs with
  | ind n ih =>
    cases xs with
    | nil => exact List.nodup_nil
    | cons x xs =>
      rw [List.eraseDups_cons, List.nodup_cons]
      have hlen : (xs.filter fun b => !b == x).length < n := by
        have hle := List.length_filter_le (fun b => !b == x) xs
        rw [List.length_cons] at hn
        omega
      refine ⟨?_, ih _ hlen _ rfl⟩
      rw [List.mem_eraseDups, List.mem_filter]
      simp

def slices (size : ℕ) : ℕ → List α → List (List α)
  | 0, _ => []
  | _, [] => []
  | fuel + 1, x :: xs => (x :: xs).take size :: slices size fuel ((x :: xs).drop size)

/-- An array cut into slices of `size` elements, the last one maybe shorter. -/
def chunk (size : ℕ) (xs : List α) : List (List α) := slices size xs.length xs

theorem slices_flatten {size : ℕ} (hsize : 0 < size) (fuel : ℕ) (xs : List α)
    (hfuel : xs.length ≤ fuel) : (slices size fuel xs).flatten = xs := by
  induction fuel generalizing xs with
  | zero =>
    have hnil : xs = [] := List.eq_nil_of_length_eq_zero (by omega)
    rw [hnil]
    rfl
  | succ fuel ih =>
    cases xs with
    | nil => rfl
    | cons x xs =>
      have hlen : ((x :: xs).drop size).length ≤ fuel := by
        rw [List.length_drop]
        have hcons : (x :: xs).length = xs.length + 1 := List.length_cons
        omega
      rw [slices, List.flatten_cons, ih _ hlen]
      exact List.take_append_drop size (x :: xs)

theorem chunk_flatten {size : ℕ} (hsize : 0 < size) (xs : List α) : (chunk size xs).flatten = xs :=
  slices_flatten hsize _ _ (Nat.le_refl _)

theorem flatMap_batches [DecidableEq κ] {batches : List (List κ)} (hnodup : batches.flatten.Nodup)
    {k : κ} (hk : k ∈ batches.flatten) (xs : List β) :
    (batches.flatMap fun ks => if k ∈ ks then xs else []) = xs := by
  induction batches with
  | nil => cases hk
  | cons ks batches ih =>
    rw [List.flatten_cons] at hnodup hk
    obtain ⟨_, htail, hdisjoint⟩ := List.nodup_append.mp hnodup
    rw [List.flatMap_cons]
    by_cases hks : k ∈ ks
    · have hnone : (batches.flatMap fun ks => if k ∈ ks then xs else []) = [] := by
        rw [List.flatMap_eq_nil_iff]
        intro ks' hks'
        have hnot : k ∉ ks' := fun h =>
          hdisjoint k hks k (List.mem_flatten.mpr ⟨ks', hks', h⟩) rfl
        exact if_neg hnot
      rw [if_pos hks, hnone, List.append_nil]
    · have hrest : k ∈ batches.flatten := (List.mem_append.mp hk).resolve_left hks
      rw [if_neg hks, List.nil_append, ih htail hrest]

/-- A stage that gives the rows of a list one after the other. -/
def Distributes (stage : List α → List β) : Prop := ∀ xs ys, stage (xs ++ ys) = stage xs ++ stage ys

theorem Distributes.nil {stage : List α → List β} (h : Distributes stage) : stage [] = [] := by
  have hlength := congrArg List.length (h [] [])
  rw [List.append_nil, List.length_append] at hlength
  exact List.eq_nil_of_length_eq_zero (by omega)

theorem Distributes.flatten {stage : List α → List β} (h : Distributes stage) (xss : List (List α)) :
    stage xss.flatten = xss.flatMap stage := by
  induction xss with
  | nil => exact h.nil
  | cons xs xss ih => rw [List.flatten_cons, List.flatMap_cons, h, ih]

theorem Distributes.foldl {stage : List α → κ → List α} (h : ∀ k, Distributes fun xs => stage xs k) (ks : List κ) :
    Distributes fun xs => ks.foldl stage xs := by
  induction ks with
  | nil => exact fun _ _ => rfl
  | cons k ks ih =>
    intro xs ys
    have hstage : stage (xs ++ ys) k = stage xs k ++ stage ys k := h k xs ys
    dsimp only
    rw [List.foldl_cons, hstage]
    exact ih _ _

end DataFabric.KeyedJoins
