import DataFabric.CappedReads

set_option autoImplicit false

/-!
# Copying an index through its result window

The connector shortens a page so that it ends within the window, and the loop takes a page that is
not full for the end of the index.
-/
namespace DataFabric.WindowedSearches

open CappedReads

/-- `MAX_ES_WINDOW`, the default of `index.max_result_window` -/
def maxEsWindow : ℕ := 10000

/-- `_search` over an index that does not change: offsets count in one order of the documents, and
a page that would end behind the window is refused. -/
structure SearchEngine {δ : Type*} (docs : List δ) where
  order : List δ
  order_perm : order.Perm docs
  search : ℕ → ℕ → Option (List δ)
  search_within : ∀ skip size, skip + size ≤ maxEsWindow → search skip size = some ((order.drop skip).take size)
  search_beyond : ∀ skip size, maxEsWindow < skip + size → search skip size = none

section Index

variable {δ : Type*} {docs : List δ} (engine : SearchEngine docs) (batchSize : ℕ+) (maxRows offset priorRows : ℕ)

/-- `ElasticsearchConnector.query` with a limit and an offset. -/
def query (limit offset : ℕ) : Option (List δ) :=
  engine.search offset (max 0 (min limit (maxEsWindow - offset)))

def advance (offset : ℕ) (rows : List δ) : ℕ := offset + rows.length

def copyIndex : List δ × Ending :=
  pagedRead (query engine batchSize) advance batchSize maxRows offset priorRows

/-- Unless it fails, the copy brings each document from the offset on exactly once. -/
def Complete : Prop :=
  (copyIndex engine batchSize maxRows offset priorRows).2 = .ended →
    (copyIndex engine batchSize maxRows offset priorRows).1 = engine.order.drop offset

/-- The index lies within the window, or the copy starts behind it, or the row cap is reached by
whole pages within it. -/
def HoldsWhen (docs : List δ) : Prop :=
  docs.length ≤ maxEsWindow ∨ maxEsWindow < offset ∨
    offset + capPages batchSize maxRows priorRows * batchSize ≤ maxEsWindow

def shown (batchSize : ℕ) (offset : ℕ) : List δ := ((engine.order.take maxEsWindow).drop offset).take batchSize

def queryShown (batchSize : ℕ) (offset : ℕ) : Option (List δ) := some (shown engine batchSize offset)

variable {engine batchSize maxRows offset priorRows}

theorem query_beyond {limit : ℕ} (h : maxEsWindow < offset) : query engine limit offset = none :=
  engine.search_beyond _ _ (by omega)

theorem query_within {limit : ℕ} (h : offset ≤ maxEsWindow) :
    query engine limit offset = some (shown engine limit offset) := by
  have hsearch := engine.search_within offset (max 0 (min limit (maxEsWindow - offset))) (by omega)
  unfold query shown
  rw [hsearch, Nat.zero_max, List.drop_take, List.take_take]

theorem queryShown_eq {limit : ℕ} : queryShown engine limit offset = some (shown engine limit offset) := rfl

theorem length_shown {limit : ℕ} :
    (shown engine limit offset).length = min limit (min maxEsWindow docs.length - offset) := by
  unfold shown
  rw [List.length_take, List.length_drop, List.length_take, engine.order_perm.length_eq]

theorem copyIndex_within (h : offset ≤ maxEsWindow) : copyIndex engine batchSize maxRows offset priorRows =
    pagedRead (queryShown engine batchSize) advance batchSize maxRows offset priorRows := by
  have hpos : 0 < (batchSize : ℕ) := batchSize.2
  unfold copyIndex
  induction hleft : maxRows - priorRows using Nat.strong_induction_on generalizing offset priorRows with
  | h left ih =>
    have hquery : query engine batchSize offset = some (shown engine batchSize offset) := query_within h
    have hlength : (shown engine batchSize offset).length =
        min (batchSize : ℕ) (min maxEsWindow docs.length - offset) := length_shown
    by_cases hshort : (shown engine batchSize offset).length < batchSize
    · rw [pagedRead_short hquery hshort, pagedRead_short queryShown_eq hshort]
    · by_cases hcap : maxRows ≤ priorRows + (shown engine batchSize offset).length
      · rw [pagedRead_capped hquery hpos (by omega) hcap, pagedRead_capped queryShown_eq hpos (by omega) hcap]
      · have hnext : advance offset (shown engine batchSize offset) ≤ maxEsWindow := by
          unfold advance
          omega
        rw [pagedRead_next hquery hpos (by omega) (by omega),
          pagedRead_next queryShown_eq hpos (by omega) (by omega), ih _ (by omega) hnext rfl]

theorem complete_iff (engine : SearchEngine docs) (batchSize : ℕ+) (maxRows offset priorRows : ℕ) :
    Complete engine batchSize maxRows offset priorRows ↔ HoldsWhen batchSize maxRows offset priorRows docs := by
  have hpos : 0 < (batchSize : ℕ) := batchSize.2
  unfold Complete HoldsWhen
  by_cases hstart : maxEsWindow < offset
  · unfold copyIndex
    rw [pagedRead_failed (query_beyond hstart)]
    exact ⟨fun _ => .inr (.inl hstart), fun _ h => Ending.noConfusion h⟩
  have hadvance : ∀ (s : ℕ) (rows : List δ), id (advance s rows) = id s + rows.length := fun _ _ => rfl
  have hpage : ∀ s, (shown engine batchSize s).length ≤ batchSize := fun s =>
    length_shown.trans_le (Nat.min_le_left _ _)
  have hrun := @pagedRead_pages _ _ (queryShown engine batchSize) advance (shown engine batchSize) batchSize
    maxRows priorRows offset (fun _ => queryShown_eq) hpos hpage
  obtain ⟨k, hk⟩ : ∃ k, capPages batchSize maxRows priorRows = k + 1 := Nat.exists_eq_add_one.mpr capPages_pos
  have hfull : fullFrom advance batchSize (shown engine batchSize) (k + 1) offset =
      decide (id offset + (k + 1) * batchSize ≤ (engine.order.take maxEsWindow).length) :=
    fullFrom_offsets hpos (fun _ => rfl) hadvance k
  rw [copyIndex_within (by omega), hk]
  simp only [hk, hfull, List.length_take, engine.order_perm.length_eq, decide_eq_true_eq, id] at hrun
  by_cases hfill : offset + (k + 1) * batchSize ≤ min maxEsWindow docs.length
  · rw [if_pos hfill] at hrun
    rw [hrun.1]
    exact ⟨fun _ => .inr (.inr (by omega)), fun _ h => Ending.noConfusion h⟩
  · rw [if_neg hfill] at hrun
    have hbrought : (pagedRead (queryShown engine batchSize) advance batchSize maxRows offset priorRows).1 =
        (engine.order.take maxEsWindow).drop (id offset) :=
      pagedRead_offsets hpos (fun _ => queryShown_eq) hadvance hrun
    have hlength := engine.order_perm.length_eq
    rw [hbrought, hrun]
    constructor
    · intro h
      have hsame := congrArg List.length (h rfl)
      rw [List.length_drop, List.length_drop, List.length_take] at hsame
      change min maxEsWindow engine.order.length - offset = _ at hsame
      omega
    · intro h _
      rw [List.take_of_length_le (by omega)]
      rfl

end Index

def numbered (n : ℕ) : SearchEngine (List.range n) where
  order := List.range n
  order_perm := List.Perm.refl _
  search skip size := if skip + size ≤ maxEsWindow then some (((List.range n).drop skip).take size) else none
  search_within _ _ h := if_pos h
  search_beyond _ _ h := if_neg (Nat.not_le.mpr h)

theorem numbered_cut {n : ℕ} (hn : maxEsWindow < n) {batchSize : ℕ+} (hbatch : maxEsWindow < batchSize) :
    ¬ Complete (numbered n) batchSize 5000000 0 0 := by
  intro h
  have hquery : query (numbered n) batchSize 0 = some (shown (numbered n) batchSize 0) :=
    query_within (Nat.zero_le _)
  have hlength : (shown (numbered n) batchSize 0).length = maxEsWindow := by
    rw [length_shown, List.length_range]
    omega
  unfold Complete copyIndex at h
  rw [pagedRead_short hquery (by omega)] at h
  have hall := congrArg List.length (h rfl)
  rw [hlength] at hall
  change maxEsWindow = (List.range n).length at hall
  rw [List.length_range] at hall
  omega

/-- A first page that the window cuts short is taken for the whole index. -/
theorem cut_by_window : ¬ Complete (numbered 10001) ⟨20000, by decide⟩ 5000000 0 0 :=
  numbered_cut (by decide) (by decide)

end DataFabric.WindowedSearches
