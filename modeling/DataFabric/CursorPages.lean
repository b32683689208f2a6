import Mathlib.Data.List.Perm.Subperm
import Mathlib.Data.List.Sort

set_option autoImplicit false

/-!
# Reading a collection by cursor when keys repeat or are missing

A page behind a cursor holds rows whose key is above it; a row without a key is above none. What
rows of one key come first, and on which side the rows without one stand, is up to the reader.
-/
namespace DataFabric.CursorPages

variable {ρ κ : Type*} [LinearOrder κ]

def ordered (nullsFirst : Bool) : Option κ → Option κ → Bool
  | none, none => true
  | none, some _ => nullsFirst
  | some _, none => !nullsFirst
  | some a, some b => decide (a ≤ b)

def above (key : ρ → Option κ) (cursor : Option κ) (r : ρ) : Bool :=
  cursor.all fun c => (key r).any fun k => decide (c < k)

/-- A reader that returns the first `limit` rows above the cursor, in the order of the keys. -/
def Answers (key : ρ → Option κ) (nullsFirst : Bool) (limit : ℕ) (rows : List ρ)
    (read : Option κ → List ρ) : Prop :=
  ∀ cursor, ∃ l : List ρ, l.Perm (rows.filter (above key cursor)) ∧
    (l.Pairwise fun a b => ordered nullsFirst (key a) (key b) = true) ∧ read cursor = l.take limit

def sortedKeys (key : ρ → Option κ) (nullsFirst : Bool) (rows : List ρ) : List (Option κ) :=
  (rows.map key).insertionSort fun a b => ordered nullsFirst a b = true

/-- At every page boundary the key is there and below all the later ones. -/
def Uncut (limit : ℕ) (keys : List (Option κ)) : Prop :=
  ∀ j, 0 < j → j * limit ≤ keys.length → ∃ c, keys[j * limit - 1]? = some (some c) ∧
    ∀ k ∈ keys.drop (j * limit), k.any (fun x => decide (c < x)) = true

/-- All the rows that the pages bring, until one is short; `none` when the fuel runs out. -/
def collect (key : ρ → Option κ) (read : Option κ → List ρ) (limit : ℕ) : ℕ → Option κ → Option (List ρ)
  | 0, _ => none
  | fuel + 1, cursor =>
    match (read cursor).getLast? with
    | none => some []
    | some last =>
      if (read cursor).length < limit then some (read cursor)
      else (collect key read limit fuel (key last)).map (read cursor ++ ·)

theorem ordered_total (nullsFirst : Bool) (a b : Option κ) :
    ordered nullsFirst a b = true ∨ ordered nullsFirst b a = true := by
  cases a <;> cases b <;> cases nullsFirst <;> simp [ordered, le_total]

theorem ordered_trans {nullsFirst : Bool} {a b c : Option κ} (hab : ordered nullsFirst a b = true)
    (hbc : ordered nullsFirst b c = true) : ordered nullsFirst a c = true := by
  cases a <;> cases b <;> cases c <;> cases nullsFirst <;> simp [ordered] at hab hbc ⊢
  all_goals exact le_trans hab hbc

theorem ordered_antisymm {nullsFirst : Bool} {a b : Option κ} (hab : ordered nullsFirst a b = true)
    (hba : ordered nullsFirst b a = true) : a = b := by
  cases a <;> cases b <;> cases nullsFirst <;> simp [ordered] at hab hba ⊢
  all_goals exact le_antisymm hab hba

section Sorting

variable {key : ρ → Option κ} {nullsFirst : Bool} {rows l : List ρ}

theorem sortedKeys_pairwise :
    (sortedKeys key nullsFirst rows).Pairwise fun a b => ordered nullsFirst a b = true := by
  have htotal : Std.Total fun a b : Option κ => ordered nullsFirst a b = true :=
    ⟨ordered_total nullsFirst⟩
  have htrans : IsTrans (Option κ) fun a b => ordered nullsFirst a b = true :=
    ⟨fun _ _ _ => ordered_trans⟩
  exact List.pairwise_insertionSort _ _

@[simp] theorem length_sortedKeys : (sortedKeys key nullsFirst rows).length = rows.length := by
  unfold sortedKeys
  rw [List.length_insertionSort, List.length_map]

theorem map_key_eq (hperm : l.Perm rows)
    (hsorted : l.Pairwise fun a b => ordered nullsFirst (key a) (key b) = true) :
    l.map key = sortedKeys key nullsFirst rows := by
  refine List.Perm.eq_of_pairwise ?_ (List.pairwise_map.mpr hsorted) sortedKeys_pairwise ?_
  · exact fun a b _ _ hab hba => ordered_antisymm hab hba
  · exact (hperm.map key).trans (List.perm_insertionSort _ _).symm

theorem answers_sorted (key : ρ → Option κ) (nullsFirst : Bool) (limit : ℕ) (rows : List ρ) :
    Answers key nullsFirst limit rows fun cursor => ((rows.filter (above key cursor)).insertionSort
      fun a b => ordered nullsFirst (key a) (key b) = true).take limit := by
  have htotal : Std.Total fun a b : ρ => ordered nullsFirst (key a) (key b) = true :=
    ⟨fun a b => ordered_total nullsFirst (key a) (key b)⟩
  have htrans : IsTrans ρ fun a b => ordered nullsFirst (key a) (key b) = true :=
    ⟨fun _ _ _ => ordered_trans⟩
  exact fun _ => ⟨_, List.perm_insertionSort _ _, List.pairwise_insertionSort _ _, rfl⟩

end Sorting

section Cuts

variable {limit : ℕ} {keys : List (Option κ)}

theorem uncut_iff (hlimit : 0 < limit) : Uncut limit keys ↔ (limit ≤ keys.length →
    (∃ c, keys[limit - 1]? = some (some c) ∧
      ∀ k ∈ keys.drop limit, k.any (fun x => decide (c < x)) = true) ∧
    Uncut limit (keys.drop limit)) := by
  have hshift : ∀ i, 0 < i → limit + (i * limit - 1) = i * limit + limit - 1 := by
    intro i hi
    have hpos := Nat.mul_pos hi hlimit
    omega
  constructor
  · intro h hle
    refine ⟨?_, fun j hj hlen => ?_⟩
    · have hfirst := h 1 Nat.one_pos (by omega)
      rwa [Nat.one_mul] at hfirst
    · rw [List.length_drop] at hlen
      obtain ⟨c, hc, hlater⟩ := h (j + 1) (Nat.succ_pos j) (by rw [Nat.succ_mul]; omega)
      rw [Nat.succ_mul] at hc hlater
      refine ⟨c, ?_, ?_⟩
      · rwa [List.getElem?_drop, hshift j hj]
      · rwa [List.drop_drop, Nat.add_comm]
  · intro h j hj hlen
    obtain ⟨i, rfl⟩ : ∃ i, j = i + 1 := ⟨j - 1, by omega⟩
    rw [Nat.succ_mul] at hlen ⊢
    obtain ⟨hfirst, hrest⟩ := h (by omega)
    rcases Nat.eq_zero_or_pos i with rfl | hi
    · simpa using hfirst
    · obtain ⟨c, hc, hlater⟩ := hrest i hi (by rw [List.length_drop]; omega)
      rw [List.getElem?_drop, hshift i hi] at hc
      rw [List.drop_drop, Nat.add_comm] at hlater
      exact ⟨c, hc, hlater⟩

theorem uncut_short (h : keys.length < limit) : Uncut limit keys := by
  intro j hj hlen
  have hle := Nat.le_mul_of_pos_left limit hj
  omega

end Cuts

section Reading

variable {key : ρ → Option κ} {nullsFirst : Bool} {limit : ℕ} {rows l : List ρ}
variable {read : Option κ → List ρ} {cursor : Option κ}

theorem above_trans {c : κ} {r last : ρ} (hlast : above key cursor last = true)
    (hkey : key last = some c) (hr : above key (some c) r = true) : above key cursor r = true := by
  cases cursor with
  | none => rfl
  | some c₀ =>
    cases hk : key r with
    | none => simp [above, hk] at hr
    | some k =>
      simp only [above, hkey, hk, Option.all_some, Option.any_some, decide_eq_true_eq] at hlast hr ⊢
      exact lt_trans hlast hr

theorem filter_next (hperm : l.Perm (rows.filter (above key cursor)))
    (hsorted : l.Pairwise fun a b => ordered nullsFirst (key a) (key b) = true) {last : ρ} {c : κ}
    (hlast : (l.take limit).getLast? = some last) (hkey : key last = some c) :
    (rows.filter (above key (some c))).Perm ((l.drop limit).filter (above key (some c))) := by
  obtain ⟨init, hinit⟩ := List.getLast?_eq_some_iff.mp hlast
  have hmem : last ∈ l := List.mem_of_mem_take (hinit ▸ List.mem_append_right _ List.mem_cons_self)
  have habove : above key cursor last = true := (List.mem_filter.mp (hperm.subset hmem)).2
  have hfilter : rows.filter (above key (some c)) =
      (rows.filter (above key cursor)).filter (above key (some c)) := by
    rw [List.filter_filter]
    refine List.filter_congr fun r _ => ?_
    cases hr : above key (some c) r with
    | true => rw [above_trans habove hkey hr, Bool.and_true]
    | false => rw [Bool.false_and]
  have htake : (l.take limit).filter (above key (some c)) = [] := by
    refine List.filter_eq_nil_iff.mpr fun x hx habs => ?_
    have hle : ordered nullsFirst (key x) (key last) = true := by
      have hpair := hsorted.sublist (List.take_sublist limit l)
      rw [hinit] at hpair hx
      rcases List.mem_append.mp hx with hx | hx
      · exact (List.pairwise_append.mp hpair).2.2 x hx last List.mem_cons_self
      · rw [List.mem_singleton.mp hx]
        exact (ordered_total nullsFirst _ _).elim id id
    cases hk : key x with
    | none => simp [above, hk] at habs
    | some k =>
      simp only [above, hk, hkey, ordered, Option.all_some, Option.any_some, decide_eq_true_eq] at hle habs
      exact absurd hle (not_le.mpr habs)
  rw [hfilter]
  refine (hperm.symm.filter _).trans (List.Perm.of_eq ?_)
  conv_lhs => rw [← List.take_append_drop limit l]
  rw [List.filter_append, htake, List.nil_append]

theorem page_covers (hperm : l.Perm (rows.filter (above key cursor)))
    (hsorted : l.Pairwise fun a b => ordered nullsFirst (key a) (key b) = true) {last r : ρ} {c k : κ}
    (hunique : ∀ a ∈ rows, ∀ b ∈ rows, key a = key b → a = b)
    (hlast : (l.take limit).getLast? = some last) (hkey : key last = some c) (hr : r ∈ rows)
    (hk : key r = some k) (hbelow : above key (some c) r = false) :
    above key cursor r = false ∨ r ∈ l.take limit := by
  cases habove : above key cursor r with
  | false => exact .inl rfl
  | true =>
    right
    have hmem : last ∈ l.take limit := List.mem_of_getLast? hlast
    have hrl : r ∈ l := hperm.symm.subset (List.mem_filter.mpr ⟨hr, habove⟩)
    rw [← List.take_append_drop limit l] at hrl
    obtain htake | hdrop := List.mem_append.mp hrl
    · exact htake
    have hle : ordered nullsFirst (key last) (key r) = true := by
      rw [← List.take_append_drop limit l] at hsorted
      exact (List.pairwise_append.mp hsorted).2.2 last hmem r hdrop
    simp only [ordered, above, hkey, hk, Option.all_some, Option.any_some, decide_eq_true_eq,
      decide_eq_false_iff_not] at hle hbelow
    have hlastRow : last ∈ rows :=
      (List.mem_filter.mp (hperm.subset (List.mem_of_mem_take hmem))).1
    -- no later row has the last key of the page
    have hsame : key last = key r := by rw [hkey, hk, le_antisymm hle (not_lt.mp hbelow)]
    exact hunique last hlastRow r hr hsame ▸ hmem

theorem page_short (hperm : l.Perm (rows.filter (above key cursor)))
    (hshort : (l.take limit).length < limit) {r : ρ} (hr : r ∈ rows) (habove : above key cursor r = true) :
    r ∈ l.take limit := by
  rw [List.length_take] at hshort
  rw [List.take_of_length_le (by omega)]
  exact hperm.symm.subset (List.mem_filter.mpr ⟨hr, habove⟩)

omit [LinearOrder κ] in
theorem collect_stuck {last : ρ} (hlast : (read none).getLast? = some last) (hkey : key last = none)
    (hfull : limit ≤ (read none).length) (fuel : ℕ) : collect key read limit fuel none = none := by
  induction fuel with
  | zero => rfl
  | succ fuel ih =>
    have hlong : ¬ (read none).length < limit := by omega
    simp [collect, hlast, hlong, hkey, ih]

theorem collect_step (hperm : l.Perm (rows.filter (above key cursor))) (hread : read cursor = l.take limit)
    (hlimit : 0 < limit) {fuel : ℕ} {all : List ρ}
    (h : collect key read limit (fuel + 1) cursor = some all) :
    (l.length < limit ∧ all = l) ∨
    limit ≤ l.length ∧ ∃ last c rest, (l.take limit).getLast? = some last ∧ key last = some c ∧
      collect key read limit fuel (some c) = some rest ∧ all = l.take limit ++ rest := by
  have hlength : (l.take limit).length = min limit l.length := List.length_take
  unfold collect at h
  cases hlast : (read cursor).getLast? with
  | none =>
    simp only [hlast, Option.some.injEq] at h
    have hnil : l.take limit = [] := hread ▸ List.getLast?_eq_none_iff.mp hlast
    have hl : l = [] := (List.take_eq_nil_iff.mp hnil).resolve_left (by omega)
    exact .inl ⟨by simpa [hl] using hlimit, by rw [hl, ← h]⟩
  | some last =>
    simp only [hlast] at h
    by_cases hshort : (read cursor).length < limit
    · rw [if_pos hshort, Option.some.injEq] at h
      rw [hread] at hshort h
      refine .inl ⟨by omega, ?_⟩
      rw [← h, List.take_of_length_le (by omega)]
    · rw [if_neg hshort, Option.map_eq_some_iff] at h
      obtain ⟨rest, hrest, rfl⟩ := h
      rw [hread] at hshort hlast ⊢
      refine .inr ⟨by omega, last, ?_⟩
      cases hkey : key last with
      | some c => exact ⟨c, rest, hlast, rfl, hkey ▸ hrest, rfl⟩
      | none =>
        have hmem : last ∈ l := by
          obtain ⟨init, hinit⟩ := List.getLast?_eq_some_iff.mp hlast
          exact List.mem_of_mem_take (hinit ▸ List.mem_append_right _ List.mem_cons_self)
        have habove := (List.mem_filter.mp (hperm.subset hmem)).2
        cases cursor with
        | some c => simp [above, hkey] at habove
        | none =>
          rw [hkey, collect_stuck (hread ▸ hlast) hkey (hread ▸ by omega)] at hrest
          cases hrest

omit [LinearOrder κ] in
theorem last_full (hlimit : 0 < limit) (hfull : limit ≤ l.length) :
    (l.take limit).getLast? = l[limit - 1]? := by
  have hlt : limit - 1 < l.length := by omega
  rw [List.getLast?_take, if_neg (by omega), List.getElem?_eq_getElem hlt, Option.some_or]

variable (hanswers : Answers key nullsFirst limit rows read) (hlimit : 0 < limit)

include hanswers hlimit in
theorem collect_subperm {fuel : ℕ} {all : List ρ} (h : collect key read limit fuel cursor = some all) :
    all.Subperm (rows.filter (above key cursor)) := by
  induction fuel generalizing cursor all with
  | zero => cases h
  | succ fuel ih =>
    obtain ⟨l, hperm, hsorted, hread⟩ := hanswers cursor
    rcases collect_step hperm hread hlimit h with ⟨-, rfl⟩ | ⟨-, last, c, rest, hlast, hkey, hrest, rfl⟩
    · exact hperm.subperm
    · have hsub : rest.Subperm (l.drop limit) :=
        ((ih hrest).trans (filter_next hperm hsorted hlast hkey).subperm).trans
          List.filter_sublist.subperm
      have happend := (List.subperm_append_left (l.take limit)).mpr hsub
      rw [List.take_append_drop] at happend
      exact happend.trans hperm.subperm

include hanswers hlimit in
theorem collect_uncut {fuel : ℕ} {all : List ρ} (h : collect key read limit fuel cursor = some all)
    (hall : all.Perm (rows.filter (above key cursor))) :
    Uncut limit (sortedKeys key nullsFirst (rows.filter (above key cursor))) := by
  induction fuel generalizing cursor all with
  | zero => cases h
  | succ fuel ih =>
    obtain ⟨l, hperm, hsorted, hread⟩ := hanswers cursor
    rw [← map_key_eq hperm hsorted]
    rcases collect_step hperm hread hlimit h with ⟨hshort, -⟩ | ⟨hfull, last, c, rest, hlast, hkey, hrest, rfl⟩
    · exact uncut_short (by rwa [List.length_map])
    · have hnext := filter_next hperm hsorted hlast hkey
      have hbehind : rest.Perm (l.drop limit) := by
        have htotal := hall.trans hperm.symm
        conv_rhs at htotal => rw [← List.take_append_drop limit l]
        exact (List.perm_append_left_iff _).mp htotal
      have hsub : (l.drop limit).Subperm ((l.drop limit).filter (above key (some c))) :=
        hbehind.symm.subperm.trans ((collect_subperm hanswers hlimit hrest).trans hnext.subperm)
      have hfilter : (l.drop limit).filter (above key (some c)) = l.drop limit :=
        List.filter_sublist.eq_of_length_le hsub.length_le
      refine (uncut_iff hlimit).mpr fun _ => ⟨⟨c, ?_, fun k hk => ?_⟩, ?_⟩
      · rw [List.getElem?_map, ← last_full hlimit hfull, hlast, Option.map_some, hkey]
      · rw [← List.map_drop] at hk
        obtain ⟨r, hr, rfl⟩ := List.mem_map.mp hk
        exact List.filter_eq_self.mp hfilter r hr
      · rw [← List.map_drop]
        rw [hfilter] at hnext
        rw [map_key_eq hnext.symm (hsorted.sublist (List.drop_sublist _ _))]
        exact ih hrest (hbehind.trans hnext.symm)

include hanswers hlimit in
theorem collect_complete {fuel : ℕ} (hfuel : (rows.filter (above key cursor)).length < fuel)
    (huncut : Uncut limit (sortedKeys key nullsFirst (rows.filter (above key cursor)))) :
    ∃ all, collect key read limit fuel cursor = some all ∧
      all.Perm (rows.filter (above key cursor)) := by
  induction fuel generalizing cursor with
  | zero => omega
  | succ fuel ih =>
    obtain ⟨l, hperm, hsorted, hread⟩ := hanswers cursor
    have hlength := hperm.length_eq
    rw [← map_key_eq hperm hsorted, uncut_iff hlimit, List.length_map] at huncut
    by_cases hfull : limit ≤ l.length
    · obtain ⟨⟨c, hc, hlater⟩, hrest⟩ := huncut hfull
      rw [List.getElem?_map, ← last_full hlimit hfull, Option.map_eq_some_iff] at hc
      obtain ⟨last, hlast, hkey⟩ := hc
      have hnext := filter_next hperm hsorted hlast hkey
      have hfilter : (l.drop limit).filter (above key (some c)) = l.drop limit := by
        refine List.filter_eq_self.mpr fun r hr => hlater (key r) ?_
        rw [← List.map_drop]
        exact List.mem_map_of_mem hr
      rw [hfilter] at hnext
      rw [← List.map_drop, map_key_eq hnext.symm (hsorted.sublist (List.drop_sublist _ _))] at hrest
      have hless : (rows.filter (above key (some c))).length < fuel := by
        rw [hnext.length_eq, List.length_drop]
        omega
      obtain ⟨rest, hcollect, hbehind⟩ := ih hless hrest
      refine ⟨l.take limit ++ rest, ?_, ?_⟩
      · have hlong : ¬ (l.take limit).length < limit := by
          rw [List.length_take]
          omega
        unfold collect
        rw [hread, hlast]
        dsimp only
        rw [if_neg hlong, hkey, hcollect, Option.map_some]
      · refine ((hbehind.trans hnext).append_left _).trans ?_
        rwa [List.take_append_drop]
    · have htake : l.take limit = l := List.take_of_length_le (by omega)
      refine ⟨l, ?_, hperm⟩
      unfold collect
      rw [hread, htake]
      cases hlast : l.getLast? with
      | none => rw [List.getLast?_eq_none_iff.mp hlast]
      | some last =>
        dsimp only
        rw [if_pos (by omega)]

theorem filter_above_none (key : ρ → Option κ) (rows : List ρ) :
    rows.filter (above key none) = rows := List.filter_eq_self.mpr fun _ _ => rfl

include hanswers hlimit in
theorem collect_all_iff {fuel : ℕ} (hfuel : rows.length < fuel) :
    (∃ all, collect key read limit fuel none = some all ∧ all.Perm rows) ↔
      Uncut limit (sortedKeys key nullsFirst rows) := by
  have hnone := filter_above_none key rows
  constructor
  · rintro ⟨all, hcollect, hall⟩
    have huncut := collect_uncut hanswers hlimit hcollect (hnone.symm ▸ hall)
    rwa [hnone] at huncut
  · intro huncut
    have hcomplete := @collect_complete _ _ _ _ _ _ _ _ none hanswers hlimit fuel
      (hnone.symm ▸ hfuel) (hnone.symm ▸ huncut)
    rwa [hnone] at hcomplete

end Reading

end DataFabric.CursorPages
