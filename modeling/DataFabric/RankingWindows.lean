import DataFabric.RunningWindows
import DataFabric.StableSorts
import Mathlib.Data.Finset.Card
import Mathlib.Data.List.Dedup
import Mathlib.Tactic.FieldSimp

set_option autoImplicit false

/-!
# Ranks against the order they count

A partition is sorted by a comparison that reads a missing value as it is and a null as the
language does. The ranks go by the texts of the values, where a null is a value of its own.
-/
namespace DataFabric.RankingWindows
open JsValues OrderedRecords FederatedJoins Aggregates SetOperations StableSorts Windows RunningWindows

/-- The `<` of the language: never both ways, and none between null and undefined. -/
structure LessThan where
  lt : JsValue → JsValue → Bool
  asymm : ∀ a b, lt a b = true → lt b a = false
  nulls : lt .null .undefined = false ∧ lt .undefined .null = false

section

variable (less : LessThan) (orderBy : List SortKey)

def smaller (a b : SourceRow) : Bool := comparator less.lt orderBy a b = .lt

def tied (a b : SourceRow) : Bool := comparator less.lt orderBy a b = .eq

end

section

variable (parseFloat : String → Option ℚ) (less : LessThan) (spec : WindowSpec) (rows : List SourceRow)

def members (key : List JsValue) : List (SourceRow × ℕ) :=
  rows.zipIdx.filter fun r => partitionKey r.1 spec.partitionBy = key

/-- What a function over the window writes to the row at a place. -/
def value (fn : String) (place : ℕ) : Option JsValue :=
  ((applyWindow parseFloat less.lt rows { spec with fn := fn })[place]?).bind fun row => row.get? spec.aliasName

/-- The definitions of the ranking functions over one partition. -/
structure RankingLaws (key : List JsValue) : Prop where
  rowNumber : ((members spec rows key).map fun a => value parseFloat less spec rows "ROW_NUMBER" a.2).Perm
    ((List.range (members spec rows key).length).map fun i => some (.num (i + 1 : ℕ)))
  ordered : ∀ a ∈ members spec rows key, ∀ b ∈ members spec rows key, smaller less spec.orderBy a.1 b.1 = true →
    ∀ i j : ℕ, value parseFloat less spec rows "ROW_NUMBER" a.2 = some (.num i) →
      value parseFloat less spec rows "ROW_NUMBER" b.2 = some (.num j) → i < j
  rank : ∀ a ∈ members spec rows key, value parseFloat less spec rows "RANK" a.2 =
    some (.num (1 + (members spec rows key).countP fun b => smaller less spec.orderBy b.1 a.1 : ℕ))
  denseRank : ∀ a ∈ members spec rows key, value parseFloat less spec rows "DENSE_RANK" a.2 =
    some (.num (1 + (((members spec rows key).filter fun b => smaller less spec.orderBy b.1 a.1).map fun b =>
      orderKey spec.orderBy b.1).dedup.length : ℕ))
  percentRank : ∀ a ∈ members spec rows key, value parseFloat less spec rows "PERCENT_RANK" a.2 =
    some (.num (if (members spec rows key).length ≤ 1 then 0 else
      ((members spec rows key).countP fun b => smaller less spec.orderBy b.1 a.1) /
        (((members spec rows key).length : ℚ) - 1)))
  cumeDist : ∀ a ∈ members spec rows key, value parseFloat less spec rows "CUME_DIST" a.2 =
    some (.num (((members spec rows key).countP fun b => !smaller less spec.orderBy a.1 b.1) /
      ((members spec rows key).length : ℚ)))
  ties : ∀ a ∈ members spec rows key, ∀ b ∈ members spec rows key,
    value parseFloat less spec rows "RANK" a.2 = value parseFloat less spec rows "RANK" b.2 ↔
      tied less spec.orderBy a.1 b.1 = true

/-- In every partition the comparison is transitive, and rows it ties have the same values of the ORDER BY. -/
def HoldsWhen : Prop := ∀ key, ∀ a ∈ members spec rows key, ∀ b ∈ members spec rows key,
  (tied less spec.orderBy a.1 b.1 = true → orderKey spec.orderBy a.1 = orderKey spec.orderBy b.1) ∧
    ∀ c ∈ members spec rows key, smaller less spec.orderBy b.1 a.1 = false →
      smaller less spec.orderBy c.1 b.1 = false → smaller less spec.orderBy c.1 a.1 = false

end

section

variable {less : LessThan} {orderBy : List SortKey} {a b c : SourceRow}

theorem lt_self (less : LessThan) (v : JsValue) : less.lt v v = false := by
  cases h : less.lt v v with
  | false => rfl
  | true => exact h ▸ less.asymm v v h

theorem comparator_swap (less : LessThan) (orderBy : List SortKey) (a b : SourceRow) :
    comparator less.lt orderBy b a = (comparator less.lt orderBy a b).swap := by
  induction orderBy with
  | nil => rfl
  | cons o orderBy ih =>
    unfold comparator
    simp only
    by_cases hab : less.lt (asNum (readCol a o.column)) (asNum (readCol b o.column)) = true
    · rw [if_neg (Bool.eq_false_iff.mp (less.asymm _ _ hab)), if_pos hab, if_pos hab]
      cases o.descending <;> rfl
    · by_cases hba : less.lt (asNum (readCol b o.column)) (asNum (readCol a o.column)) = true
      · rw [if_pos hba, if_neg hab, if_pos hba]
        cases o.descending <;> rfl
      · rw [if_neg hba, if_neg hab, if_neg hab, if_neg hba, ih]

theorem tied_iff : tied less orderBy a b = true ↔ comparator less.lt orderBy a b = .eq := by
  unfold tied
  rw [decide_eq_true_eq]

theorem not_smaller_iff : smaller less orderBy b a = false ↔ comparator less.lt orderBy a b ≠ .gt := by
  unfold smaller
  rw [decide_eq_false_iff_not, comparator_swap less orderBy a b]
  cases comparator less.lt orderBy a b <;> decide

theorem trichotomy (less : LessThan) (orderBy : List SortKey) (a b : SourceRow) :
    (smaller less orderBy a b = true ∧ smaller less orderBy b a = false ∧ tied less orderBy a b = false) ∨
      (smaller less orderBy a b = false ∧ smaller less orderBy b a = true ∧ tied less orderBy a b = false) ∨
      (smaller less orderBy a b = false ∧ smaller less orderBy b a = false ∧ tied less orderBy a b = true) := by
  unfold smaller tied
  rw [comparator_swap less orderBy a b]
  cases comparator less.lt orderBy a b <;> decide

theorem tied_comm (less : LessThan) (orderBy : List SortKey) (a b : SourceRow) :
    tied less orderBy a b = tied less orderBy b a := by
  unfold tied
  rw [comparator_swap less orderBy a b]
  cases comparator less.lt orderBy a b <;> rfl

theorem asNum_eq_null {v : JsValue} (h : asNum v = .null) : v = .null := by
  unfold asNum at h
  split at h
  · rename_i s
    cases hs : signed (CharText.trim s).toList with
    | none =>
      rw [hs] at h
      cases h
    | some q =>
      rw [hs] at h
      cases h
  · exact h

theorem lt_of_keys {v w : JsValue} (h : asNum (orElse v .null) = asNum (orElse w .null)) :
    less.lt (asNum v) (asNum w) = false := by
  have hnullish : ∀ u : JsValue, u.isNullish = true → u = .null ∨ u = .undefined := by
    intro u hu
    unfold JsValue.isNullish at hu
    split at hu
    · exact .inr rfl
    · exact .inl rfl
    · cases hu
  have hread : ∀ u : JsValue, asNum (orElse u .null) = .null → u.isNullish = true := by
    intro u hu
    have hnull := asNum_eq_null hu
    unfold orElse at hnull
    by_cases hn : u.isNullish = true
    · exact hn
    · rw [if_neg hn] at hnull
      exact absurd (hnull ▸ rfl) hn
  by_cases hv : v.isNullish = true
  · have hvnull : asNum (orElse v .null) = .null := by
      unfold orElse
      rw [if_pos hv]
      rfl
    have hw := hread w (h ▸ hvnull)
    rcases hnullish v hv with rfl | rfl <;> rcases hnullish w hw with rfl | rfl
    · exact lt_self less _
    · exact less.nulls.1
    · exact less.nulls.2
    · exact lt_self less _
  · have hw : ¬ w.isNullish = true := by
      intro hw
      have hwnull : asNum (orElse w .null) = .null := by
        unfold orElse
        rw [if_pos hw]
        rfl
      exact hv (hread v (h.trans hwnull))
    unfold orElse at h
    rw [if_neg hv, if_neg hw] at h
    rw [h]
    exact lt_self less _

theorem tied_of_keys (h : orderKey orderBy a = orderKey orderBy b) : tied less orderBy a b = true := by
  rw [tied_iff]
  induction orderBy with
  | nil => rfl
  | cons o orderBy ih =>
    unfold orderKey at h
    rw [List.map_cons, List.map_cons, List.cons.injEq] at h
    unfold comparator
    simp only
    rw [if_neg (Bool.eq_false_iff.mp (lt_of_keys h.1)), if_neg (Bool.eq_false_iff.mp (lt_of_keys h.1.symm))]
    exact ih h.2

end

section

variable {orderBy : List SortKey}

theorem ranks_after {n rank dense : ℕ} {key : List JsValue} {part : List SourceRow} (hrank : rank ≤ n) :
    ∀ e ∈ (ranks orderBy n rank dense (some key) part).zip part,
      rank ≤ e.1.1 ∧ (rank = e.1.1 → key = orderKey orderBy e.2) := by
  induction part generalizing n rank dense key with
  | nil => exact fun e he => by cases he
  | cons r part ih =>
    intro e he
    unfold ranks at he
    by_cases hkey : some (orderKey orderBy r) = some key
    · rw [if_pos hkey, List.zip_cons_cons, List.mem_cons] at he
      rcases he with rfl | he
      · exact ⟨le_refl _, fun _ => (Option.some.inj hkey).symm⟩
      · exact ih (by omega) e he
    · rw [if_neg hkey, List.zip_cons_cons, List.mem_cons] at he
      rcases he with rfl | he
      · exact ⟨by change rank ≤ n + 1; omega, fun heq => by change rank = n + 1 at heq; omega⟩
      · have old := (ih (le_refl (n + 1)) e he).1
        exact ⟨by omega, fun heq => by omega⟩

theorem ranks_pairwise {n rank dense : ℕ} {prevKey : Option (List JsValue)} {part : List SourceRow} (hrank : rank ≤ n) :
    ((ranks orderBy n rank dense prevKey part).zip part).Pairwise fun a b =>
      a.1.1 ≤ b.1.1 ∧ (a.1.1 = b.1.1 → orderKey orderBy a.2 = orderKey orderBy b.2) := by
  induction part generalizing n rank dense prevKey with
  | nil => exact .nil
  | cons r part ih =>
    unfold ranks
    by_cases hkey : some (orderKey orderBy r) = prevKey
    · rw [if_pos hkey, List.zip_cons_cons, List.pairwise_cons]
      subst prevKey
      exact ⟨fun e he => ranks_after (Nat.le_succ_of_le hrank) e he, ih (Nat.le_succ_of_le hrank)⟩
    · rw [if_neg hkey, List.zip_cons_cons, List.pairwise_cons]
      exact ⟨fun e he => ranks_after (le_refl (n + 1)) e he, ih (le_refl _)⟩

theorem ranks_length {n rank dense : ℕ} {prevKey : Option (List JsValue)} {part : List SourceRow} :
    (ranks orderBy n rank dense prevKey part).length = part.length := by
  induction part generalizing n rank dense prevKey with
  | nil => rfl
  | cons r part ih =>
    unfold ranks
    split
    · rw [List.length_cons, List.length_cons, ih]
    · rw [List.length_cons, List.length_cons, ih]

theorem ranks_le {part : List SourceRow} {i j : ℕ} (hij : i < j) {x y : ℕ × ℕ} {a b : SourceRow}
    (hx : (ranks orderBy 0 0 0 none part)[i]? = some x) (hy : (ranks orderBy 0 0 0 none part)[j]? = some y)
    (ha : part[i]? = some a) (hb : part[j]? = some b) :
    x.1 ≤ y.1 ∧ (x.1 = y.1 → orderKey orderBy a = orderKey orderBy b) := by
  have hpairs := List.pairwise_iff_getElem.mp (@ranks_pairwise orderBy 0 0 0 none part (le_refl 0))
  have hza : ((ranks orderBy 0 0 0 none part).zip part)[i]? = some (x, a) := by
    rw [List.getElem?_zip_eq_some]
    exact ⟨hx, ha⟩
  have hzb : ((ranks orderBy 0 0 0 none part).zip part)[j]? = some (y, b) := by
    rw [List.getElem?_zip_eq_some]
    exact ⟨hy, hb⟩
  rcases List.getElem?_eq_some_iff.mp hza with ⟨hi, hgi⟩
  rcases List.getElem?_eq_some_iff.mp hzb with ⟨hj, hgj⟩
  have hij' := hpairs i j hi hj hij
  rw [hgi, hgj] at hij'
  exact hij'

end

/-- A partition sorted by a comparison that ties rows only by their values of the ORDER BY. -/
structure SortedPart (less : LessThan) (orderBy : List SortKey) (part : List SourceRow) : Prop where
  sorted : part.Pairwise fun a b => smaller less orderBy b a = false
  keys : ∀ a ∈ part, ∀ b ∈ part, tied less orderBy a b = true → orderKey orderBy a = orderKey orderBy b
  trans : ∀ a ∈ part, ∀ b ∈ part, ∀ c ∈ part, smaller less orderBy b a = false → smaller less orderBy c b = false →
    smaller less orderBy c a = false

section

variable (less : LessThan) (orderBy : List SortKey) (part : List SourceRow)

def rankOf (a : SourceRow) : ℕ × ℕ :=
  (1 + part.countP fun b => smaller less orderBy b a,
    1 + ((part.filter fun b => smaller less orderBy b a).map (orderKey orderBy)).dedup.length)

end

section

variable {less : LessThan} {orderBy : List SortKey} {part : List SourceRow}

theorem smaller_congr (h : SortedPart less orderBy part) {a b c : SourceRow} (ha : a ∈ part) (hb : b ∈ part) (hc : c ∈ part)
    (htied : tied less orderBy a b = true) : smaller less orderBy c a = smaller less orderBy c b := by
  have hab := trichotomy less orderBy a b
  have hba : smaller less orderBy b a = false ∧ smaller less orderBy a b = false := by
    rw [htied] at hab
    simpa [and_comm] using hab
  have hforth := h.trans a ha b hb c hc hba.1
  have hback := h.trans b hb a ha c hc hba.2
  cases hca : smaller less orderBy c a with
  | false => exact (hback hca).symm
  | true =>
    cases hcb : smaller less orderBy c b with
    | false => exact absurd (hca.symm.trans (hforth hcb)) (by decide)
    | true => rfl

theorem rankOf_congr (h : SortedPart less orderBy part) {a b : SourceRow} (ha : a ∈ part) (hb : b ∈ part)
    (htied : tied less orderBy a b = true) : rankOf less orderBy part a = rankOf less orderBy part b := by
  have hsame : ∀ c ∈ part, smaller less orderBy c a = smaller less orderBy c b := fun c hc =>
    smaller_congr h ha hb hc htied
  unfold rankOf
  rw [List.countP_congr fun c hc => by rw [hsame c hc], List.filter_congr hsame]

theorem filter_smaller {before after : List SourceRow} {a : SourceRow}
    (h : SortedPart less orderBy (before ++ a :: after)) :
    (before ++ a :: after).filter (fun b => smaller less orderBy b a) =
      before.filter fun b => smaller less orderBy b a := by
  have hsorted := List.pairwise_cons.mp (List.pairwise_append.mp h.sorted).2.1
  have hself : smaller less orderBy a a = false := by
    have hcases := trichotomy less orderBy a a
    rw [tied_of_keys rfl] at hcases
    simpa using hcases
  have hafter : (a :: after).filter (fun b => smaller less orderBy b a) = [] := by
    rw [List.filter_eq_nil_iff]
    intro b hb
    rcases List.mem_cons.mp hb with rfl | hb
    · rw [hself]
      decide
    · rw [hsorted.1 b hb]
      decide
  rw [List.filter_append, hafter, List.append_nil]

theorem smaller_of_new {before rest : List SourceRow} {l r : SourceRow}
    (h : SortedPart less orderBy (before ++ l :: r :: rest)) (hnew : orderKey orderBy l ≠ orderKey orderBy r) :
    ∀ d ∈ before ++ [l], smaller less orderBy d r = true := by
  have hl : l ∈ before ++ l :: r :: rest := by simp
  have hr : r ∈ before ++ l :: r :: rest := by simp
  have hparts := List.pairwise_append.mp h.sorted
  have hlr : smaller less orderBy r l = false := (List.pairwise_cons.mp hparts.2.1).1 r List.mem_cons_self
  have hless : smaller less orderBy l r = true := by
    rcases trichotomy less orderBy l r with hcase | hcase | hcase
    · exact hcase.1
    · exact absurd (hcase.2.1.symm.trans hlr) (by decide)
    · exact absurd (h.keys l hl r hr hcase.2.2) hnew
  intro d hd
  rcases List.mem_append.mp hd with hd | hd
  · have hmem : d ∈ before ++ l :: r :: rest := List.mem_append_left _ hd
    have hdl := hparts.2.2 d hd l List.mem_cons_self
    have hdr := hparts.2.2 d hd r (by simp)
    rcases trichotomy less orderBy d r with hcase | hcase | hcase
    · exact hcase.1
    · exact absurd (hcase.2.1.symm.trans hdr) (by decide)
    · have hsame := smaller_congr h hmem hr hl hcase.2.2
      rw [hdl, hless] at hsame
      cases hsame
  · rw [List.mem_singleton.mp hd]
    exact hless

theorem dedup_new {before rest : List SourceRow} {l : SourceRow} (h : SortedPart less orderBy (before ++ l :: rest)) :
    ((before ++ [l]).map (orderKey orderBy)).dedup.length =
      1 + ((before.filter fun b => smaller less orderBy b l).map (orderKey orderBy)).dedup.length := by
  have hl : l ∈ before ++ l :: rest := by simp
  have hparts := List.pairwise_append.mp h.sorted
  have hnew : orderKey orderBy l ∉ ((before.filter fun b => smaller less orderBy b l).map (orderKey orderBy)).toFinset := by
    rw [List.mem_toFinset, List.mem_map]
    rintro ⟨d, hd, hkey⟩
    have hcases := trichotomy less orderBy d l
    rw [tied_of_keys hkey, (List.mem_filter.mp hd).2] at hcases
    simp at hcases
  have hinsert : ((before ++ [l]).map (orderKey orderBy)).toFinset =
      insert (orderKey orderBy l) ((before.filter fun b => smaller less orderBy b l).map (orderKey orderBy)).toFinset := by
    ext k
    rw [Finset.mem_insert, List.mem_toFinset, List.mem_toFinset, List.mem_map, List.mem_map]
    constructor
    · rintro ⟨d, hd, rfl⟩
      rcases List.mem_append.mp hd with hd | hd
      · have hdl := hparts.2.2 d hd l List.mem_cons_self
        rcases trichotomy less orderBy d l with hcase | hcase | hcase
        · exact .inr ⟨d, List.mem_filter.mpr ⟨hd, hcase.1⟩, rfl⟩
        · exact absurd (hcase.2.1.symm.trans hdl) (by decide)
        · exact .inl (h.keys d (List.mem_append_left _ hd) l hl hcase.2.2)
      · exact .inl (by rw [List.mem_singleton.mp hd])
    · rintro (rfl | ⟨d, hd, rfl⟩)
      · exact ⟨l, by simp, rfl⟩
      · exact ⟨d, List.mem_append_left _ (List.mem_filter.mp hd).1, rfl⟩
  rw [← List.card_toFinset, ← List.card_toFinset, hinsert, Finset.card_insert_of_notMem hnew, Nat.add_comm]

theorem rankOf_new {before rest : List SourceRow} {l r : SourceRow}
    (h : SortedPart less orderBy (before ++ l :: r :: rest)) (hnew : orderKey orderBy l ≠ orderKey orderBy r) :
    rankOf less orderBy (before ++ l :: r :: rest) r =
      (before.length + 1 + 1, (rankOf less orderBy (before ++ l :: r :: rest) l).2 + 1) := by
  have hsplit : before ++ l :: r :: rest = (before ++ [l]) ++ r :: rest := by simp
  have hall : (before ++ l :: r :: rest).filter (fun b => smaller less orderBy b r) = before ++ [l] := by
    rw [hsplit] at h ⊢
    rw [filter_smaller h, List.filter_eq_self]
    rw [← hsplit] at h
    exact smaller_of_new h hnew
  unfold rankOf
  rw [List.countP_eq_length_filter, hall, filter_smaller h, dedup_new h, List.length_append, List.length_singleton]
  rw [Prod.mk.injEq]
  omega

theorem ranks_rest {before rest : List SourceRow} {l : SourceRow} (h : SortedPart less orderBy (before ++ l :: rest)) :
    ranks orderBy (before.length + 1) (rankOf less orderBy (before ++ l :: rest) l).1
      (rankOf less orderBy (before ++ l :: rest) l).2 (some (orderKey orderBy l)) rest =
      rest.map (rankOf less orderBy (before ++ l :: rest)) := by
  induction rest generalizing before l with
  | nil => rfl
  | cons r rest ih =>
    have hsplit : before ++ l :: r :: rest = (before ++ [l]) ++ r :: rest := by simp
    have hnext := h
    rw [hsplit] at hnext
    have hrest := ih hnext
    rw [← hsplit, List.length_append, List.length_singleton] at hrest
    unfold ranks
    by_cases hkey : orderKey orderBy r = orderKey orderBy l
    · have hrank := rankOf_congr h (a := r) (b := l) (by simp) (by simp) (tied_of_keys hkey)
      rw [if_pos (by rw [hkey]), List.map_cons, ← hrest, hrank, hkey]
    · rw [if_neg fun heq => hkey (Option.some.inj heq), List.map_cons, ← hrest, rankOf_new h fun heq => hkey heq.symm]

theorem ranks_eq (h : SortedPart less orderBy part) :
    ranks orderBy 0 0 0 none part = part.map (rankOf less orderBy part) := by
  cases part with
  | nil => rfl
  | cons r part =>
    have hstart : SortedPart less orderBy ([] ++ r :: part) := h
    have hnone : (r :: part).filter (fun b => smaller less orderBy b r) = [] := filter_smaller hstart
    have hfirst : rankOf less orderBy (r :: part) r = (1, 1) := by
      unfold rankOf
      rw [List.countP_eq_length_filter, hnone]
      rfl
    have hrest := ranks_rest hstart
    rw [List.nil_append, hfirst] at hrest
    have hother : ¬ some (orderKey orderBy r) = none := fun heq => Option.some_ne_none _ heq
    unfold ranks
    rw [if_neg hother, List.map_cons, hfirst, ← hrest]
    rfl

end

section

variable {parseFloat : String → Option ℚ} {less : LessThan} {spec : WindowSpec} {rows : List SourceRow}

def sortedPart (less : LessThan) (spec : WindowSpec) (rows : List SourceRow) (key : List JsValue) : List (SourceRow × ℕ) :=
  part less.lt spec rows key

theorem perm_sortedPart (key : List JsValue) : (sortedPart less spec rows key).Perm (members spec rows key) :=
  List.perm_insertionSort (Precedes less.lt spec.orderBy) (members spec rows key)

theorem value_get {fn : String} (hfn : isRanking fn = true) {key : List JsValue} {i : ℕ} {a : SourceRow × ℕ} {x : ℕ × ℕ}
    (ha : (sortedPart less spec rows key)[i]? = some a)
    (hx : (ranks spec.orderBy 0 0 0 none ((sortedPart less spec rows key).map Prod.fst))[i]? = some x) :
    value parseFloat less spec rows fn a.2 =
      some (rankingValue fn (ranks spec.orderBy 0 0 0 none ((sortedPart less spec rows key).map Prod.fst)) x i) := by
  have hpart : (part less.lt { spec with fn := fn } rows key)[i]? = some (a.1, a.2) := ha
  have hvalues : windowValues parseFloat { spec with fn := fn } ((sortedPart less spec rows key).map Prod.fst) =
      rankingValues { spec with fn := fn } ((sortedPart less spec rows key).map Prod.fst) := if_pos hfn
  have hget : (rankingValues { spec with fn := fn } ((sortedPart less spec rows key).map Prod.fst))[i]? =
      some (rankingValue fn (ranks spec.orderBy 0 0 0 none ((sortedPart less spec rows key).map Prod.fst)) x i) := by
    unfold rankingValues
    simp only [List.getElem?_map, List.getElem?_zipIdx, hx, Option.map_some, Nat.zero_add]
  have hrow := @applyWindow_get less.lt { spec with fn := fn } rows parseFloat key i a.2 a.1 hpart
  have hsame : (part less.lt { spec with fn := fn } rows key).map Prod.fst =
      (sortedPart less spec rows key).map Prod.fst := rfl
  rw [hsame, hvalues, hget] at hrow
  unfold value
  rw [hrow, Option.bind_some, Record.get?_assign, if_pos rfl]

theorem place_of_member {key : List JsValue} {a : SourceRow × ℕ} (ha : a ∈ members spec rows key) :
    ∃ (i : ℕ) (x : ℕ × ℕ), (sortedPart less spec rows key)[i]? = some a ∧
      (ranks spec.orderBy 0 0 0 none ((sortedPart less spec rows key).map Prod.fst))[i]? = some x := by
  have hmem : a ∈ sortedPart less spec rows key := (perm_sortedPart key).mem_iff.mpr ha
  have ⟨i, hi⟩ := List.mem_iff_getElem?.mp hmem
  have hlength : i < (ranks spec.orderBy 0 0 0 none ((sortedPart less spec rows key).map Prod.fst)).length := by
    rw [ranks_length, List.length_map]
    exact (List.getElem?_eq_some_iff.mp hi).1
  exact ⟨i, _, hi, List.getElem?_eq_getElem hlength⟩

theorem value_rowNumber {key : List JsValue} {i : ℕ} {a : SourceRow × ℕ}
    (ha : (sortedPart less spec rows key)[i]? = some a) :
    value parseFloat less spec rows "ROW_NUMBER" a.2 = some (.num (i + 1 : ℕ)) := by
  have hlength : i < (ranks spec.orderBy 0 0 0 none ((sortedPart less spec rows key).map Prod.fst)).length := by
    rw [ranks_length, List.length_map]
    exact (List.getElem?_eq_some_iff.mp ha).1
  exact value_get rfl ha (List.getElem?_eq_getElem hlength)

theorem value_rank {key : List JsValue} {i : ℕ} {a : SourceRow × ℕ} {x : ℕ × ℕ}
    (ha : (sortedPart less spec rows key)[i]? = some a)
    (hx : (ranks spec.orderBy 0 0 0 none ((sortedPart less spec rows key).map Prod.fst))[i]? = some x) :
    value parseFloat less spec rows "RANK" a.2 = some (.num (x.1 : ℕ)) := value_get rfl ha hx

theorem num_inj {m n : ℕ} (h : some (JsValue.num (m : ℕ)) = some (JsValue.num (n : ℕ))) : m = n := by
  simpa using h

theorem value_rank_mono {key : List JsValue} {i j : ℕ} {a b : SourceRow × ℕ} {x y : ℕ × ℕ} (hij : i ≤ j)
    (ha : (sortedPart less spec rows key)[i]? = some a) (hb : (sortedPart less spec rows key)[j]? = some b)
    (hx : (ranks spec.orderBy 0 0 0 none ((sortedPart less spec rows key).map Prod.fst))[i]? = some x)
    (hy : (ranks spec.orderBy 0 0 0 none ((sortedPart less spec rows key).map Prod.fst))[j]? = some y) :
    x.1 ≤ y.1 ∧ (x.1 = y.1 → orderKey spec.orderBy a.1 = orderKey spec.orderBy b.1) := by
  rcases Nat.lt_or_eq_of_le hij with hlt | heq
  · refine ranks_le hlt hx hy ?_ ?_
    · rw [List.getElem?_map, ha]
      rfl
    · rw [List.getElem?_map, hb]
      rfl
  · subst heq
    rw [hx] at hy
    rw [ha] at hb
    rw [Option.some.inj hy, Option.some.inj hb]
    exact ⟨le_refl _, fun _ => rfl⟩

theorem holdsWhen_of_laws (h : ∀ key, RankingLaws parseFloat less spec rows key) : HoldsWhen less spec rows := by
  intro key a ha b hb
  have laws := h key
  have hplace : ∀ a ∈ members spec rows key, ∃ (i : ℕ) (x : ℕ × ℕ), (sortedPart less spec rows key)[i]? = some a ∧
      (ranks spec.orderBy 0 0 0 none ((sortedPart less spec rows key).map Prod.fst))[i]? = some x := fun a ha =>
    place_of_member ha
  have ⟨i, x, hai, hxi⟩ := hplace a ha
  have ⟨j, y, hbj, hyj⟩ := hplace b hb
  have hties : ∀ {a b : SourceRow × ℕ} {i j : ℕ} {x y : ℕ × ℕ}, a ∈ members spec rows key → b ∈ members spec rows key →
      (sortedPart less spec rows key)[i]? = some a →
      (ranks spec.orderBy 0 0 0 none ((sortedPart less spec rows key).map Prod.fst))[i]? = some x →
      (sortedPart less spec rows key)[j]? = some b →
      (ranks spec.orderBy 0 0 0 none ((sortedPart less spec rows key).map Prod.fst))[j]? = some y →
      (x.1 = y.1 ↔ tied less spec.orderBy a.1 b.1 = true) := by
    intro a b i j x y ha hb hai hxi hbj hyj
    have hlaw := laws.ties a ha b hb
    rw [value_rank hai hxi, value_rank hbj hyj] at hlaw
    rw [← hlaw]
    exact ⟨fun heq => by rw [heq], fun heq => num_inj heq⟩
  refine ⟨fun htied => ?_, fun c hc hab hbc => ?_⟩
  · have hrank := (hties ha hb hai hxi hbj hyj).mpr htied
    rcases Nat.le_total i j with hij | hji
    · exact (value_rank_mono hij hai hbj hxi hyj).2 hrank
    · exact ((value_rank_mono hji hbj hai hyj hxi).2 hrank.symm).symm
  · have ⟨k, z, hck, hzk⟩ := hplace c hc
    have hxy := hties ha hb hai hxi hbj hyj
    have hyz := hties hb hc hbj hyj hck hzk
    have hca := hties hc ha hck hzk hai hxi
    cases hsmall : smaller less spec.orderBy c.1 a.1 with
    | false => rfl
    | true =>
      have hki := laws.ordered c hc a ha hsmall (k + 1) (i + 1) (value_rowNumber hck) (value_rowNumber hai)
      have hzx := (value_rank_mono (by omega) hck hai hzk hxi).1
      have hnot : z.1 ≠ x.1 := fun heq => by
        have htied := hca.mp heq
        rcases trichotomy less spec.orderBy c.1 a.1 with hcase | hcase | hcase
        · exact absurd (htied.symm.trans hcase.2.2) (by decide)
        · exact absurd (htied.symm.trans hcase.2.2) (by decide)
        · exact absurd (hsmall.symm.trans hcase.1) (by decide)
      have hfirst : i < j ∧ x.1 ≠ y.1 ∨ x.1 = y.1 := by
        rcases trichotomy less spec.orderBy a.1 b.1 with hcase | hcase | hcase
        · have hij := laws.ordered a ha b hb hcase.1 (i + 1) (j + 1) (value_rowNumber hai) (value_rowNumber hbj)
          exact .inl ⟨by omega, fun heq => absurd ((hxy.mp heq).symm.trans hcase.2.2) (by decide)⟩
        · exact absurd (hcase.2.1.symm.trans hab) (by decide)
        · exact .inr (hxy.mpr hcase.2.2)
      have hsecond : j < k ∧ y.1 ≠ z.1 ∨ y.1 = z.1 := by
        rcases trichotomy less spec.orderBy b.1 c.1 with hcase | hcase | hcase
        · have hjk := laws.ordered b hb c hc hcase.1 (j + 1) (k + 1) (value_rowNumber hbj) (value_rowNumber hck)
          exact .inl ⟨by omega, fun heq => absurd ((hyz.mp heq).symm.trans hcase.2.2) (by decide)⟩
        · exact absurd (hcase.2.1.symm.trans hbc) (by decide)
        · exact .inr (hyz.mpr hcase.2.2)
      -- the place of `b` lies on neither side of the others
      rcases hfirst with ⟨hij, hne⟩ | heq
      · have hxy' := (value_rank_mono (by omega) hai hbj hxi hyj).1
        omega
      · rcases hsecond with ⟨hjk, hne⟩ | heq'
        · have hyz' := (value_rank_mono (by omega) hbj hck hyj hzk).1
          omega
        · omega

end

theorem length_takeWhile {α : Type*} {p : α → Bool} {l : List α} (h : l.Pairwise fun a b => p b = true → p a = true) :
    (l.takeWhile p).length = l.countP p := by
  induction l with
  | nil => rfl
  | cons a l ih =>
    have hcons := List.pairwise_cons.mp h
    rw [List.takeWhile_cons, List.countP_cons]
    cases hp : p a with
    | true => rw [if_pos rfl, if_pos rfl, List.length_cons, ih hcons.2]
    | false =>
      rw [if_neg (by decide), if_neg (by decide), List.length_nil, eq_comm, Nat.add_zero, List.countP_eq_zero]
      intro b hb hpb
      exact absurd (hp.symm.trans (hcons.1 b hb hpb)) (by decide)

section

variable {less : LessThan} {orderBy : List SortKey} {part : List SourceRow}

theorem rank_eq_iff (h : SortedPart less orderBy part) {a b : SourceRow} (ha : a ∈ part) (hb : b ∈ part) :
    (rankOf less orderBy part a).1 = (rankOf less orderBy part b).1 ↔ tied less orderBy a b = true := by
  refine ⟨fun heq => tied_of_keys ?_, fun htied => by rw [rankOf_congr h ha hb htied]⟩
  have ⟨i, hi⟩ := List.mem_iff_getElem?.mp ha
  have ⟨j, hj⟩ := List.mem_iff_getElem?.mp hb
  have hget : ∀ {k : ℕ} {c : SourceRow}, part[k]? = some c →
      (ranks orderBy 0 0 0 none part)[k]? = some (rankOf less orderBy part c) := by
    intro k c hc
    rw [ranks_eq h, List.getElem?_map, hc]
    rfl
  rcases Nat.lt_trichotomy i j with hij | hij | hij
  · exact (ranks_le hij (hget hi) (hget hj) hi hj).2 heq
  · subst hij
    rw [hi] at hj
    rw [Option.some.inj hj]
  · exact ((ranks_le hij (hget hj) (hget hi) hj hi).2 heq.symm).symm

theorem last_of_rank {before after : List SourceRow} {a : SourceRow} (h : SortedPart less orderBy (before ++ a :: after)) :
    before.length + (after.takeWhile fun s => (rankOf less orderBy (before ++ a :: after) s).1 =
        (rankOf less orderBy (before ++ a :: after) a).1).length + 1 =
      (before ++ a :: after).countP fun b => !smaller less orderBy a b := by
  have ha : a ∈ before ++ a :: after := by simp
  have hafter : ∀ b ∈ after, b ∈ before ++ a :: after := fun b hb => by simp [hb]
  have hparts := List.pairwise_append.mp h.sorted
  have hcons := List.pairwise_cons.mp hparts.2.1
  have hiff : ∀ b ∈ after, decide ((rankOf less orderBy (before ++ a :: after) b).1 =
      (rankOf less orderBy (before ++ a :: after) a).1) = true ↔ (!smaller less orderBy a b) = true := by
    intro b hb
    rw [decide_eq_true_eq, rank_eq_iff h (hafter b hb) ha, tied_comm]
    rcases trichotomy less orderBy a b with hcase | hcase | hcase
    · rw [hcase.1, hcase.2.2]
      decide
    · exact absurd (hcase.2.1.symm.trans (hcons.1 b hb)) (by decide)
    · rw [hcase.1, hcase.2.2]
      decide
  have hrun : after.Pairwise fun b c =>
      decide ((rankOf less orderBy (before ++ a :: after) c).1 =
        (rankOf less orderBy (before ++ a :: after) a).1) = true →
      decide ((rankOf less orderBy (before ++ a :: after) b).1 =
        (rankOf less orderBy (before ++ a :: after) a).1) = true := by
    refine hcons.2.imp_of_mem fun {b c} hb hc hbc hrank => ?_
    rw [hiff c hc, Bool.not_eq_true'] at hrank
    rw [hiff b hb, Bool.not_eq_true']
    exact h.trans b (hafter b hb) c (hafter c hc) a ha hbc hrank
  have hbefore : before.countP (fun b => !smaller less orderBy a b) = before.length := by
    rw [List.countP_eq_length]
    intro b hb
    rw [hparts.2.2 b hb a List.mem_cons_self]
    rfl
  have hself : (!smaller less orderBy a a) = true := by
    have hcases := trichotomy less orderBy a a
    rw [tied_of_keys rfl] at hcases
    simpa using hcases
  rw [length_takeWhile hrun, List.countP_append, List.countP_cons, hbefore, if_pos hself, List.countP_congr hiff]
  omega

end

section

variable {parseFloat : String → Option ℚ} {less : LessThan} {spec : WindowSpec} {rows : List SourceRow}

theorem sortedPart_sorted (h : HoldsWhen less spec rows) (key : List JsValue) :
    SortedPart less spec.orderBy ((sortedPart less spec rows key).map Prod.fst) := by
  have hmem : ∀ {a : SourceRow}, a ∈ (sortedPart less spec rows key).map Prod.fst →
      ∃ b ∈ members spec rows key, b.1 = a := by
    intro a ha
    have ⟨b, hb, heq⟩ := List.mem_map.mp ha
    exact ⟨b, (perm_sortedPart key).mem_iff.mp hb, heq⟩
  have hcomp : Comparable (Precedes less.lt spec.orderBy) (members spec rows key) := by
    constructor
    · intro a _ b _
      unfold Precedes
      rw [← not_smaller_iff, ← not_smaller_iff]
      rcases trichotomy less spec.orderBy a.1 b.1 with hcase | hcase | hcase
      · exact .inl hcase.2.1
      · exact .inr hcase.1
      · exact .inl hcase.2.1
    · intro a ha b hb c hc
      unfold Precedes
      rw [← not_smaller_iff, ← not_smaller_iff, ← not_smaller_iff]
      exact (h key a ha b hb).2 c hc
  constructor
  · rw [List.pairwise_map]
    refine (pairwise_insertionSort hcomp).imp fun hab => ?_
    exact not_smaller_iff.mpr hab
  · intro a ha b hb htied
    rcases hmem ha with ⟨a, hma, rfl⟩
    rcases hmem hb with ⟨b, hmb, rfl⟩
    exact (h key a hma b hmb).1 htied
  · intro a ha b hb c hc
    rcases hmem ha with ⟨a, hma, rfl⟩
    rcases hmem hb with ⟨b, hmb, rfl⟩
    rcases hmem hc with ⟨c, hmc, rfl⟩
    exact (h key a hma b hmb).2 c hmc

theorem countP_sortedPart (key : List JsValue) (p : SourceRow → Bool) :
    ((sortedPart less spec rows key).map Prod.fst).countP p = (members spec rows key).countP fun b => p b.1 := by
  rw [List.countP_map]
  exact (perm_sortedPart key).countP_eq _

theorem dedup_sortedPart (key : List JsValue) (p : SourceRow → Bool) (f : SourceRow → List JsValue) :
    ((((sortedPart less spec rows key).map Prod.fst).filter p).map f).dedup.length =
      (((members spec rows key).filter fun b => p b.1).map fun b => f b.1).dedup.length := by
  rw [List.filter_map, List.map_map]
  exact ((((perm_sortedPart key).filter _).map _).dedup).length_eq

theorem rowNumbers_perm (parseFloat : String → Option ℚ) (less : LessThan) (key : List JsValue) :
    ((members spec rows key).map fun a => value parseFloat less spec rows "ROW_NUMBER" a.2).Perm
      ((List.range (members spec rows key).length).map fun i => some (.num (i + 1 : ℕ))) := by
  have hperm : (sortedPart less spec rows key).Perm (members spec rows key) := perm_sortedPart key
  refine (hperm.symm.map _).trans ?_
  rw [← hperm.length_eq]
  refine List.Perm.of_eq (List.ext_getElem? fun i => ?_)
  rw [List.getElem?_map, List.getElem?_map]
  cases hi : (sortedPart less spec rows key)[i]? with
  | none =>
    rw [List.getElem?_eq_none (by rw [List.length_range]; exact List.getElem?_eq_none_iff.mp hi)]
    rfl
  | some a =>
    rw [List.getElem?_range (List.getElem?_eq_some_iff.mp hi).1]
    exact congrArg some (value_rowNumber hi)

theorem fst_get {key : List JsValue} {i : ℕ} {a : SourceRow × ℕ} (ha : (sortedPart less spec rows key)[i]? = some a) :
    ((sortedPart less spec rows key).map Prod.fst)[i]? = some a.1 := by
  rw [List.getElem?_map, ha]
  rfl

theorem place_lt (h : HoldsWhen less spec rows) {key : List JsValue} {i j : ℕ} {a b : SourceRow × ℕ}
    (ha : (sortedPart less spec rows key)[i]? = some a) (hb : (sortedPart less spec rows key)[j]? = some b)
    (hab : smaller less spec.orderBy a.1 b.1 = true) : i < j := by
  rcases Nat.lt_trichotomy i j with hij | hij | hij
  · exact hij
  · rw [hij, hb] at ha
    rw [Option.some.inj ha] at hab
    have hcases := trichotomy less spec.orderBy a.1 a.1
    rw [hab, tied_of_keys rfl] at hcases
    simp at hcases
  · rcases List.getElem?_eq_some_iff.mp (fst_get ha) with ⟨hi, hga⟩
    rcases List.getElem?_eq_some_iff.mp (fst_get hb) with ⟨hj, hgb⟩
    have hsorted := List.pairwise_iff_getElem.mp (sortedPart_sorted h key).sorted j i hj hi hij
    rw [hga, hgb] at hsorted
    exact absurd (hab.symm.trans hsorted) (by decide)

theorem rank_of_member (h : HoldsWhen less spec rows) {key : List JsValue} {a : SourceRow × ℕ}
    (ha : a ∈ members spec rows key) : ∃ i : ℕ, (sortedPart less spec rows key)[i]? = some a ∧
      (ranks spec.orderBy 0 0 0 none ((sortedPart less spec rows key).map Prod.fst))[i]? =
        some (rankOf less spec.orderBy ((sortedPart less spec rows key).map Prod.fst) a.1) := by
  have ⟨i, _, hai, _⟩ := @place_of_member less spec rows key a ha
  refine ⟨i, hai, ?_⟩
  rw [ranks_eq (sortedPart_sorted h key), List.getElem?_map, fst_get hai]
  rfl

theorem length_sortedPart (less : LessThan) (key : List JsValue) :
    ((sortedPart less spec rows key).map Prod.fst).length = (members spec rows key).length := by
  rw [List.length_map, (perm_sortedPart key).length_eq]

theorem cumeDist_value (parseFloat : String → Option ℚ) (h : HoldsWhen less spec rows) {key : List JsValue}
    {a : SourceRow × ℕ} (ha : a ∈ members spec rows key) : value parseFloat less spec rows "CUME_DIST" a.2 =
      some (.num (((members spec rows key).countP fun b => !smaller less spec.orderBy a.1 b.1) /
        ((members spec rows key).length : ℚ))) := by
  have ⟨i, hai, hx⟩ := rank_of_member h ha
  have hsorted := sortedPart_sorted h key
  rcases List.getElem?_eq_some_iff.mp (fst_get hai) with ⟨hi, hga⟩
  have hsplit : (sortedPart less spec rows key).map Prod.fst =
      ((sortedPart less spec rows key).map Prod.fst).take i ++ a.1 ::
        ((sortedPart less spec rows key).map Prod.fst).drop (i + 1) := by
    rw [← hga, List.getElem_cons_drop, List.take_append_drop]
  have hsorted' := hsorted
  rw [hsplit] at hsorted'
  have hlast := last_of_rank hsorted'
  rw [← hsplit, List.length_take, Nat.min_eq_left (Nat.le_of_lt hi), countP_sortedPart key] at hlast
  rw [value_get rfl hai hx]
  unfold rankingValue
  rw [if_neg (by decide), if_neg (by decide), if_neg (by decide), if_neg (by decide), ranks_length, length_sortedPart,
    ranks_eq hsorted, ← List.map_drop, List.takeWhile_map, List.length_map]
  simp only
  rw [← hlast]
  rfl

theorem laws_of_holdsWhen (h : HoldsWhen less spec rows) (key : List JsValue) :
    RankingLaws parseFloat less spec rows key where
  rowNumber := rowNumbers_perm parseFloat less key
  ordered a ha b hb hab i' j' hi' hj' := by
    have ⟨i, hai, _⟩ := rank_of_member h ha
    have ⟨j, hbj, _⟩ := rank_of_member h hb
    have hij := place_lt h hai hbj hab
    rw [value_rowNumber hai] at hi'
    rw [value_rowNumber hbj] at hj'
    have hi := num_inj hi'
    have hj := num_inj hj'
    omega
  rank a ha := by
    have ⟨i, hai, hx⟩ := rank_of_member h ha
    rw [value_rank hai hx]
    unfold rankOf
    rw [countP_sortedPart key fun b => smaller less spec.orderBy b a.1]
  denseRank a ha := by
    have ⟨i, hai, hx⟩ := rank_of_member h ha
    rw [value_get rfl hai hx]
    unfold rankingValue rankOf
    rw [if_neg (by decide), if_pos rfl, dedup_sortedPart key (fun b => smaller less spec.orderBy b a.1)]
  percentRank a ha := by
    have ⟨i, hai, hx⟩ := rank_of_member h ha
    rw [value_get rfl hai hx]
    unfold rankingValue rankOf
    rw [if_neg (by decide), if_neg (by decide), if_neg (by decide), if_pos rfl, ranks_length, length_sortedPart,
      countP_sortedPart key fun b => smaller less spec.orderBy b a.1]
    push_cast
    rw [add_sub_cancel_left]
  cumeDist _ ha := cumeDist_value parseFloat h ha
  ties a ha b hb := by
    have ⟨i, hai, hx⟩ := rank_of_member h ha
    have ⟨j, hbj, hy⟩ := rank_of_member h hb
    have hmem : ∀ c ∈ members spec rows key, c.1 ∈ (sortedPart less spec rows key).map Prod.fst := fun c hc =>
      List.mem_map.mpr ⟨c, (perm_sortedPart key).mem_iff.mpr hc, rfl⟩
    rw [value_rank hai hx, value_rank hbj hy,
      ← rank_eq_iff (sortedPart_sorted h key) (hmem a ha) (hmem b hb)]
    exact ⟨fun heq => num_inj heq, fun heq => by rw [heq]⟩

/-- The ranking functions meet their definitions if and only if the comparison of every partition is transitive and
ties only rows with the same values of the ORDER BY. -/
theorem ranking_laws_iff (parseFloat : String → Option ℚ) (less : LessThan) (spec : WindowSpec) (rows : List SourceRow) :
    (∀ key, RankingLaws parseFloat less spec rows key) ↔ HoldsWhen less spec rows :=
  ⟨holdsWhen_of_laws, laws_of_holdsWhen⟩

end

def toNumber : JsValue → Option ℚ
  | .num q => some q
  | .null => some 0
  | _ => none

def numbersLess (a b : JsValue) : Bool := ((toNumber a).bind fun p => (toNumber b).map fun q => decide (p < q)).getD false

def byNumbers : LessThan where
  lt := numbersLess
  asymm a b := by
    unfold numbersLess
    intro h
    cases ha : toNumber a with
    | none =>
      rw [ha] at h
      cases h
    | some p =>
      cases hb : toNumber b with
      | none =>
        rw [ha, hb] at h
        cases h
      | some q =>
        rw [ha, hb] at h
        have hpq : p < q := of_decide_eq_true h
        exact decide_eq_false (lt_asymm hpq)
  nulls := ⟨rfl, rfl⟩

def scoreRow (score : JsValue) : SourceRow := Record.empty.assign "score" score

def byScore : WindowSpec where
  fn := "RANK"
  column := ""
  partitionBy := []
  orderBy := [⟨"score", false⟩]
  aliasName := "r"
  offset := none

/-- The comparison ties a null with 0, so that a 0 may stand between two nulls, which then get the ranks 1 and 3. -/
theorem nulls_ranked_apart : ¬ ∀ (parseFloat : String → Option ℚ) (less : LessThan) (spec : WindowSpec)
    (rows : List SourceRow) (key : List JsValue), RankingLaws parseFloat less spec rows key := by
  intro h
  have hties := (h (fun _ => none) byNumbers byScore [scoreRow .null, scoreRow (.num 0), scoreRow .null] []).ties
    (scoreRow .null, 0) (by decide +kernel) (scoreRow .null, 2) (by decide +kernel)
  revert hties
  decide +kernel

end DataFabric.RankingWindows
