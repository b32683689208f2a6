import DataFabric.FullCopies

set_option autoImplicit false

/-!
# Paged reads under a row cap

The pages of a copy with the rows that reach `onBatch` and the way the loop ends. Neither a pause
nor a memory abort comes between, and the batches are taken.
-/
namespace DataFabric.CappedReads

open CursorPages FullCopies

inductive Ending | ended | rowCap | failed
deriving DecidableEq

section Loop

variable {σ ρ : Type*} (query : σ → Option (List ρ)) (advance : σ → List ρ → σ) (batchSize maxRows : ℕ)

/-- `none` is a query that throws. A page that lets the loop go on brings `total` nearer to the cap. -/
def pagedRead (cursor : σ) (total : ℕ) : List ρ × Ending :=
  match query cursor with
  | none => ([], .failed)
  | some rows =>
    if rows.length = 0 then ([], .ended)
    else if rows.length < batchSize then (rows, .ended)
    else if maxRows ≤ total + rows.length then (rows, .rowCap)
    else
      let rest := pagedRead (advance cursor rows) (total + rows.length)
      (rows ++ rest.1, rest.2)
termination_by maxRows - total

def capPages (total : ℕ) : ℕ := max 1 ((maxRows - total + batchSize - 1) / batchSize)

def fullFrom (page : σ → List ρ) : ℕ → σ → Bool
  | 0, _ => true
  | k + 1, cursor => decide (batchSize ≤ (page cursor).length) && fullFrom page k (advance cursor (page cursor))

variable {query advance batchSize maxRows} {cursor : σ} {total : ℕ} {rows : List ρ}

theorem pagedRead_failed (h : query cursor = none) :
    pagedRead query advance batchSize maxRows cursor total = ([], .failed) := by
  rw [pagedRead, h]

theorem pagedRead_short (h : query cursor = some rows) (hshort : rows.length < batchSize) :
    pagedRead query advance batchSize maxRows cursor total = (rows, .ended) := by
  rw [pagedRead, h]
  dsimp only
  by_cases hempty : rows.length = 0
  · rw [if_pos hempty, List.length_eq_zero_iff.mp hempty]
  · rw [if_neg hempty, if_pos hshort]

theorem pagedRead_capped (h : query cursor = some rows) (hbatch : 0 < batchSize)
    (hfull : batchSize ≤ rows.length) (hcap : maxRows ≤ total + rows.length) :
    pagedRead query advance batchSize maxRows cursor total = (rows, .rowCap) := by
  rw [pagedRead, h]
  dsimp only
  rw [if_neg (by omega), if_neg (by omega), if_pos hcap]

theorem pagedRead_next (h : query cursor = some rows) (hbatch : 0 < batchSize)
    (hfull : batchSize ≤ rows.length) (hcap : total + rows.length < maxRows) :
    pagedRead query advance batchSize maxRows cursor total =
      (rows ++ (pagedRead query advance batchSize maxRows (advance cursor rows) (total + rows.length)).1,
        (pagedRead query advance batchSize maxRows (advance cursor rows) (total + rows.length)).2) := by
  rw [pagedRead, h]
  dsimp only
  rw [if_neg (by omega), if_neg (by omega), if_neg (by omega)]

theorem capPages_pos : 0 < capPages batchSize maxRows total :=
  Nat.lt_of_lt_of_le Nat.one_pos (Nat.le_max_left _ _)

theorem capPages_last (hbatch : 0 < batchSize) (hcap : maxRows ≤ total + batchSize) :
    capPages batchSize maxRows total = 1 := by
  have hle : (maxRows - total + batchSize - 1) / batchSize ≤ 1 := by
    rw [Nat.div_le_iff_le_mul_add_pred hbatch]
    omega
  unfold capPages
  omega

theorem capPages_next (hbatch : 0 < batchSize) (hcap : total + batchSize < maxRows) :
    capPages batchSize maxRows total = capPages batchSize maxRows (total + batchSize) + 1 := by
  have hsplit : maxRows - total + batchSize - 1 =
      (maxRows - (total + batchSize) + batchSize - 1) + batchSize := by omega
  have hpos : 1 ≤ (maxRows - (total + batchSize) + batchSize - 1) / batchSize := by
    rw [Nat.one_le_div_iff hbatch]
    omega
  unfold capPages
  rw [hsplit, Nat.add_div_right _ hbatch]
  omega

theorem le_capPages_mul (hbatch : 0 < batchSize) :
    maxRows ≤ total + capPages batchSize maxRows total * batchSize := by
  have hmod := Nat.div_add_mod (maxRows - total + batchSize - 1) batchSize
  have hlt := Nat.mod_lt (maxRows - total + batchSize - 1) hbatch
  have hle := Nat.mul_le_mul_right batchSize
    (Nat.le_max_right 1 ((maxRows - total + batchSize - 1) / batchSize))
  rw [Nat.mul_comm] at hmod
  unfold capPages
  omega

theorem capPages_mul_iff (hbatch : 0 < batchSize) : total + capPages batchSize maxRows total * batchSize ≤ maxRows ↔
    total < maxRows ∧ batchSize ∣ maxRows - total := by
  have hceil : maxRows ≤ total + capPages batchSize maxRows total * batchSize := le_capPages_mul hbatch
  constructor
  · intro hle
    have hpos : 0 < capPages batchSize maxRows total * batchSize := Nat.mul_pos capPages_pos hbatch
    refine ⟨by omega, capPages batchSize maxRows total, ?_⟩
    rw [Nat.mul_comm]
    omega
  · rintro ⟨hlt, k, hk⟩
    have hk0 : 0 < k := Nat.pos_of_ne_zero fun h => by subst h; omega
    have hdiv : (maxRows - total + batchSize - 1) / batchSize = k := by
      rw [hk, Nat.add_sub_assoc hbatch, Nat.add_comm, Nat.add_mul_div_left _ _ hbatch,
        Nat.div_eq_of_lt (by omega), Nat.zero_add]
    unfold capPages
    rw [hdiv, Nat.max_eq_right hk0, Nat.mul_comm, ← hk]
    omega

end Loop

section Pages

variable {σ ρ : Type*} {query : σ → Option (List ρ)} {advance : σ → List ρ → σ} {page : σ → List ρ}
variable {batchSize maxRows total : ℕ} {cursor : σ}

theorem pagedRead_pages (hquery : ∀ s, query s = some (page s)) (hbatch : 0 < batchSize)
    (hpage : ∀ s, (page s).length ≤ batchSize) :
    if fullFrom advance batchSize page (capPages batchSize maxRows total) cursor then
      (pagedRead query advance batchSize maxRows cursor total).2 = .rowCap ∧
      (pagedRead query advance batchSize maxRows cursor total).1.length =
        capPages batchSize maxRows total * batchSize
    else (pagedRead query advance batchSize maxRows cursor total).2 = .ended := by
  induction hleft : maxRows - total using Nat.strong_induction_on generalizing cursor total with
  | h left ih =>
    have hle := hpage cursor
    by_cases hshort : (page cursor).length < batchSize
    · have hpages : capPages batchSize maxRows total = capPages batchSize maxRows total - 1 + 1 := by
        unfold capPages
        omega
      have hnot : decide (batchSize ≤ (page cursor).length) = false := decide_eq_false (by omega)
      rw [hpages]
      unfold fullFrom
      rw [hnot, Bool.false_and, if_neg Bool.false_ne_true, pagedRead_short (hquery cursor) hshort]
    · have hfull : (page cursor).length = batchSize := by omega
      have hyes : decide (batchSize ≤ (page cursor).length) = true := decide_eq_true hfull.ge
      by_cases hcap : maxRows ≤ total + batchSize
      · rw [capPages_last hbatch hcap, pagedRead_capped (hquery cursor) hbatch hfull.ge (hfull.symm ▸ hcap)]
        unfold fullFrom
        rw [hyes, Bool.true_and]
        unfold fullFrom
        rw [if_pos rfl, Nat.one_mul]
        exact ⟨rfl, hfull⟩
      · have hstep := @ih (maxRows - (total + batchSize)) (by omega) (total + batchSize)
          (advance cursor (page cursor)) rfl
        rw [capPages_next hbatch (by omega), pagedRead_next (hquery cursor) hbatch hfull.ge (by omega), hfull]
        unfold fullFrom
        rw [hyes, Bool.true_and]
        by_cases hrest : fullFrom advance batchSize page (capPages batchSize maxRows (total + batchSize))
            (advance cursor (page cursor)) = true
        · rw [if_pos hrest] at hstep ⊢
          refine ⟨hstep.1, ?_⟩
          rw [List.length_append, hstep.2, hfull, Nat.succ_mul, Nat.add_comm]
        · rw [if_neg hrest] at hstep ⊢
          exact hstep

variable {offset : σ → ℕ} {l : List ρ}

theorem fullFrom_offsets (hbatch : 0 < batchSize) (hpage : ∀ s, page s = (l.drop (offset s)).take batchSize)
    (hadvance : ∀ s rows, offset (advance s rows) = offset s + rows.length) (k : ℕ) :
    fullFrom advance batchSize page (k + 1) cursor = decide (offset cursor + (k + 1) * batchSize ≤ l.length) := by
  have hlength : ∀ s, (page s).length = min batchSize (l.length - offset s) := fun s => by
    rw [hpage, List.length_take, List.length_drop]
  induction k generalizing cursor with
  | zero =>
    unfold fullFrom
    rw [hlength, Nat.zero_add, Nat.one_mul]
    unfold fullFrom
    rw [Bool.and_true]
    refine decide_eq_decide.mpr ?_
    omega
  | succ k ih =>
    unfold fullFrom
    rw [ih, hadvance, hlength, ← Bool.decide_and]
    refine decide_eq_decide.mpr ?_
    rw [Nat.succ_mul (k + 1)]
    have hk := Nat.le_mul_of_pos_left batchSize (Nat.succ_pos k)
    omega

theorem pagedRead_offsets (hbatch : 0 < batchSize)
    (hquery : ∀ s, query s = some ((l.drop (offset s)).take batchSize))
    (hadvance : ∀ s rows, offset (advance s rows) = offset s + rows.length)
    (h : (pagedRead query advance batchSize maxRows cursor total).2 = .ended) :
    (pagedRead query advance batchSize maxRows cursor total).1 = l.drop (offset cursor) := by
  induction hleft : maxRows - total using Nat.strong_induction_on generalizing cursor total with
  | h left ih =>
    have hlength : ((l.drop (offset cursor)).take batchSize).length =
        min batchSize (l.drop (offset cursor)).length := List.length_take
    by_cases hshort : ((l.drop (offset cursor)).take batchSize).length < batchSize
    · rw [pagedRead_short (hquery cursor) hshort]
      exact List.take_of_length_le (by omega)
    · by_cases hcap : maxRows ≤ total + ((l.drop (offset cursor)).take batchSize).length
      · rw [pagedRead_capped (hquery cursor) hbatch (by omega) hcap] at h
        cases h
      · rw [pagedRead_next (hquery cursor) hbatch (by omega) (by omega)] at h ⊢
        have hfull : ((l.drop (offset cursor)).take batchSize).length = batchSize := by omega
        dsimp only
        rw [ih _ (by omega) h rfl, hadvance, hfull, ← List.drop_drop, List.take_append_drop]

end Pages

section Table

variable {κ : Type*} [LinearOrder κ] {t : SourceTable κ} {batchSize : ℕ+}

def advance (t : SourceTable κ) (keyCol : Option String) (cursor : Option κ × ℕ) (rows : List (Record κ)) :
    Option κ × ℕ :=
  (rows.getLast?.bind fun last => keyCol.bind fun c => value t.columns c last, cursor.2 + rows.length)

def page (reader : Reader t batchSize) (keyCol : Option String) (cursor : Option κ × ℕ) : List (Record κ) :=
  fetch reader keyCol cursor.1 cursor.2

def query (reader : Reader t batchSize) (keyCol : Option String) (cursor : Option κ × ℕ) :
    Option (List (Record κ)) := some (page reader keyCol cursor)

def copyFrom (reader : Reader t batchSize) (keyCol : Option String) (maxRows : ℕ) (cursor : Option κ × ℕ)
    (total : ℕ) : List (Record κ) × Ending :=
  pagedRead (query reader keyCol) (advance t keyCol) batchSize maxRows cursor total

def remaining (t : SourceTable κ) (keyCol : Option String) (cursor : Option κ × ℕ) : ℕ :=
  match keyCol with
  | some c => (t.rows.filter (above (value t.columns c) cursor.1)).length
  | none => t.rows.length - cursor.2

/-- Where a copy starts: `startCursor`, and `priorRows` that stand before it. -/
structure Checkpoint (t : SourceTable κ) (keyCol : Option String) where
  cursor : Option κ × ℕ
  priorRows : ℕ
  copied : priorRows + remaining t keyCol cursor ≤ t.rows.length

def Checkpoint.fresh (t : SourceTable κ) (keyCol : Option String) : Checkpoint t keyCol where
  cursor := (none, 0)
  priorRows := 0
  copied := by
    cases keyCol with
    | none => exact (Nat.zero_add _).le
    | some c => exact (Nat.zero_add _).le.trans (List.length_filter_le _ _)

def copied (reader : Reader t batchSize) (keyCol : Option String) (maxRows : ℕ) (start : Checkpoint t keyCol) :
    List (Record κ) × Ending := copyFrom reader keyCol maxRows start.cursor start.priorRows

/-- No more rows than the cap, and an error exactly for a table that has more. -/
def CapExact (reader : Reader t batchSize) (keyCol : Option String) (maxRows : ℕ)
    (start : Checkpoint t keyCol) : Prop :=
  start.priorRows + (copied reader keyCol maxRows start).1.length ≤ maxRows ∧
    ((copied reader keyCol maxRows start).2 = .rowCap ↔ maxRows < t.rows.length)

/-- The next `k` pages behind a key are full; the key of a row at the end of a page is where the next
one starts. -/
def keysFill (t : SourceTable κ) (nullsFirst : Bool) (batchSize : ℕ) (c : String) : ℕ → Option κ → Bool
  | 0, _ => true
  | k + 1, lastKey =>
    let keys := sortedKeys (value t.columns c) nullsFirst (t.rows.filter (above (value t.columns c) lastKey))
    decide (batchSize ≤ keys.length) && keysFill t nullsFirst batchSize c k keys[batchSize - 1]?.join

def rowsFill (t : SourceTable κ) (nullsFirst : Bool) (batchSize : ℕ) (keyCol : Option String) (k : ℕ)
    (cursor : Option κ × ℕ) : Bool :=
  match keyCol with
  | some c => keysFill t nullsFirst batchSize c k cursor.1
  | none => decide (cursor.2 + k * batchSize ≤ t.rows.length)

/-- A table that fills the pages up to the cap has more rows than the cap, and these pages end at
it; any other has no more rows than the cap. -/
def HoldsWhen (reader : Reader t batchSize) (keyCol : Option String) (maxRows : ℕ)
    (start : Checkpoint t keyCol) : Prop :=
  if rowsFill t reader.nullsFirst batchSize keyCol (capPages batchSize maxRows start.priorRows) start.cursor then
    start.priorRows < maxRows ∧ (batchSize : ℕ) ∣ maxRows - start.priorRows ∧ maxRows < t.rows.length
  else t.rows.length ≤ maxRows

variable {reader : Reader t batchSize} {keyCol : Option String} {c : String} {maxRows total offset : ℕ}
variable {cursor : Option κ × ℕ} {lastKey : Option κ}

theorem query_eq : query reader keyCol cursor = some (page reader keyCol cursor) := rfl

theorem fetch_eq : fetch reader keyCol cursor.1 cursor.2 = page reader keyCol cursor := rfl

omit [LinearOrder κ] in
theorem advance_offset (s : Option κ × ℕ) (rows : List (Record κ)) :
    (advance t keyCol s rows).2 = s.2 + rows.length := rfl

theorem page_behind : page reader (some c) cursor = reader.behind c cursor.1 := rfl

theorem length_behind : (reader.behind c lastKey).length =
    min (batchSize : ℕ) (remaining t (some c) (lastKey, offset)) := by
  obtain ⟨l, hperm, -, hread⟩ := reader.behind_answers c lastKey
  rw [hread, List.length_take, hperm.length_eq]
  rfl

theorem length_skipping : (reader.skipping offset).length =
    min (batchSize : ℕ) (remaining t none (lastKey, offset)) := by
  obtain ⟨l, hperm, hskip⟩ := reader.skipping_answers
  rw [hskip, List.length_take, List.length_drop, hperm.length_eq]
  rfl

theorem length_page : (page reader keyCol cursor).length = min (batchSize : ℕ) (remaining t keyCol cursor) := by
  cases keyCol with
  | some c => exact length_behind
  | none => exact length_skipping

theorem lastKey_full (hfull : (batchSize : ℕ) ≤ remaining t (some c) cursor) :
    (advance t (some c) cursor (page reader (some c) cursor)).1 = (sortedKeys (value t.columns c)
      reader.nullsFirst (t.rows.filter (above (value t.columns c) cursor.1)))[(batchSize : ℕ) - 1]?.join := by
  obtain ⟨l, hperm, hsorted, hread⟩ := reader.behind_answers c cursor.1
  have hlength : (batchSize : ℕ) ≤ l.length := hperm.length_eq ▸ hfull
  change ((reader.behind c cursor.1).getLast?.bind fun last => value t.columns c last) = _
  have hpos : 0 < (batchSize : ℕ) := batchSize.2
  rw [hread, last_full hpos hlength, ← map_key_eq hperm hsorted, List.getElem?_map]
  cases l[(batchSize : ℕ) - 1]? <;> rfl

theorem fullFrom_keys (k : ℕ) : fullFrom (advance t (some c)) batchSize (page reader (some c)) k cursor =
    keysFill t reader.nullsFirst batchSize c k cursor.1 := by
  induction k generalizing cursor with
  | zero => rfl
  | succ k ih =>
    unfold fullFrom keysFill
    dsimp only
    rw [length_page, length_sortedKeys]
    by_cases hfull : (batchSize : ℕ) ≤ remaining t (some c) cursor
    · rw [ih, lastKey_full hfull, Nat.min_eq_left hfull, decide_eq_true le_rfl]
      exact congrArg (· && _) (decide_eq_true hfull).symm
    · rw [decide_eq_false (by omega), Bool.false_and]
      exact (congrArg (· && _) (decide_eq_false hfull)).symm

theorem fullFrom_rows {k : ℕ} (hk : 0 < k) : fullFrom (advance t keyCol) batchSize (page reader keyCol) k cursor =
    rowsFill t reader.nullsFirst batchSize keyCol k cursor := by
  obtain ⟨k, rfl⟩ := Nat.exists_eq_add_of_lt hk
  rw [Nat.zero_add]
  cases keyCol with
  | some c => exact fullFrom_keys (k + 1)
  | none =>
    obtain ⟨l, hperm, hskip⟩ := reader.skipping_answers
    have hpage : ∀ s, page reader none s = (l.drop s.2).take batchSize := fun s => hskip s.2
    have hpos : 0 < (batchSize : ℕ) := batchSize.2
    rw [fullFrom_offsets hpos hpage advance_offset, hperm.length_eq]
    rfl

theorem copyFrom_collected (h : (copyFrom reader (some c) maxRows cursor total).2 = .ended) :
    ∃ fuel, collect (value t.columns c) (reader.behind c) batchSize fuel cursor.1 =
      some (copyFrom reader (some c) maxRows cursor total).1 := by
  unfold copyFrom at h ⊢
  have hpos : 0 < (batchSize : ℕ) := batchSize.2
  induction hleft : maxRows - total using Nat.strong_induction_on generalizing cursor total with
  | h left ih =>
    have hlength : (page reader (some c) cursor).length = min (batchSize : ℕ) (remaining t (some c) cursor) :=
      length_page
    by_cases hshort : (page reader (some c) cursor).length < batchSize
    · rw [pagedRead_short query_eq hshort]
      refine ⟨1, ?_⟩
      unfold collect
      rw [← page_behind]
      cases hlast : (page reader (some c) cursor).getLast? with
      | none => rw [List.getLast?_eq_none_iff.mp hlast]
      | some last => exact if_pos hshort
    · by_cases hcap : maxRows ≤ total + (page reader (some c) cursor).length
      · rw [pagedRead_capped query_eq hpos (by omega) hcap] at h
        cases h
      · rw [pagedRead_next query_eq hpos (by omega) (by omega)] at h ⊢
        obtain ⟨fuel, hfuel⟩ := ih _ (by omega) h rfl
        refine ⟨fuel + 1, ?_⟩
        unfold collect
        rw [← page_behind]
        cases hlast : (page reader (some c) cursor).getLast? with
        | none =>
          rw [List.getLast?_eq_none_iff.mp hlast] at hshort
          exact absurd hpos hshort
        | some last =>
          have hnext : (advance t (some c) cursor (page reader (some c) cursor)).1 = value t.columns c last := by
            unfold advance
            rw [hlast]
            rfl
          rw [hnext] at hfuel
          dsimp only
          rw [if_neg hshort, hfuel]
          rfl

theorem ended_length_le (h : (copyFrom reader keyCol maxRows cursor total).2 = .ended) :
    (copyFrom reader keyCol maxRows cursor total).1.length ≤ remaining t keyCol cursor := by
  have hpos : 0 < (batchSize : ℕ) := batchSize.2
  cases keyCol with
  | none =>
    obtain ⟨l, hperm, hskip⟩ := reader.skipping_answers
    have hquery : ∀ s, query reader none s = some ((l.drop s.2).take batchSize) := fun s =>
      congrArg some (hskip s.2)
    unfold copyFrom at h ⊢
    rw [pagedRead_offsets hpos hquery advance_offset h, List.length_drop, hperm.length_eq]
    exact le_rfl
  | some c =>
    obtain ⟨fuel, hcollect⟩ := copyFrom_collected h
    exact (collect_subperm (reader.behind_answers c) hpos hcollect).length_le

theorem capExact_iff (reader : Reader t batchSize) (keyCol : Option String) (maxRows : ℕ)
    (start : Checkpoint t keyCol) :
    CapExact reader keyCol maxRows start ↔ HoldsWhen reader keyCol maxRows start := by
  have hpos : 0 < (batchSize : ℕ) := batchSize.2
  have hpage : ∀ s, (page reader keyCol s).length ≤ batchSize := fun s =>
    length_page.trans_le (Nat.min_le_left _ _)
  have hcopied := start.copied
  have hrun := @pagedRead_pages _ _ (query reader keyCol) (advance t keyCol) (page reader keyCol) batchSize
    maxRows start.priorRows start.cursor (fun _ => query_eq) hpos hpage
  rw [fullFrom_rows capPages_pos] at hrun
  unfold CapExact HoldsWhen
  by_cases hfill : rowsFill t reader.nullsFirst batchSize keyCol
      (capPages batchSize maxRows start.priorRows) start.cursor = true
  · rw [if_pos hfill] at hrun ⊢
    change (copied reader keyCol maxRows start).2 = _ ∧ (copied reader keyCol maxRows start).1.length = _ at hrun
    rw [hrun.1, hrun.2, capPages_mul_iff hpos]
    simp only [true_iff, and_assoc]
  · rw [if_neg hfill] at hrun ⊢
    have hle : (copied reader keyCol maxRows start).1.length ≤ remaining t keyCol start.cursor :=
      ended_length_le hrun
    change (copied reader keyCol maxRows start).2 = _ at hrun
    rw [hrun]
    constructor
    · rintro ⟨-, hcap⟩
      exact Nat.le_of_not_lt fun hlt => Ending.noConfusion (hcap.mpr hlt)
    · intro hrows
      exact ⟨by omega, fun h => Ending.noConfusion h, fun h => by omega⟩

def outcome (run : List (Record κ) × Ending) : Except CopyError (List (Record κ)) :=
  match run.2 with
  | .ended => .ok run.1
  | .rowCap => .error .rowCap
  | .failed => .error .refused

theorem pagedRead_delivers {engines : Engines κ} (hexact : Exact engines t) {fuel : ℕ} {dest : List (Record κ)}
    (hfuel : maxRows - total < fuel) :
    FullCopies.pagedRead engines reader keyCol (fun d rows => some (d ++ rows)) maxRows fuel cursor.1 cursor.2 total dest =
      (outcome (copyFrom reader keyCol maxRows cursor total)).map (dest ++ ·) := by
  have hpos : 0 < (batchSize : ℕ) := batchSize.2
  unfold copyFrom
  induction fuel generalizing cursor total dest with
  | zero => omega
  | succ fuel ih =>
    simp only [FullCopies.pagedRead]
    rw [fetch_exact hexact, fetch_eq]
    cases hlast : (page reader keyCol cursor).getLast? with
    | none =>
      have hnil := List.getLast?_eq_none_iff.mp hlast
      rw [pagedRead_short query_eq (by rw [hnil]; exact hpos), hnil]
      exact congrArg Except.ok (List.append_nil dest).symm
    | some last =>
      dsimp only
      by_cases hshort : (page reader keyCol cursor).length < batchSize
      · rw [pagedRead_short query_eq hshort]
        exact if_pos hshort
      · by_cases hcap : maxRows ≤ total + (page reader keyCol cursor).length
        · rw [pagedRead_capped query_eq hpos (by omega) hcap]
          exact (if_neg hshort).trans (if_pos hcap)
        · have hnext := @ih (total + (page reader keyCol cursor).length)
            (advance t keyCol cursor (page reader keyCol cursor)) (dest ++ page reader keyCol cursor) (by omega)
          have hkey : (advance t keyCol cursor (page reader keyCol cursor)).1 =
              keyCol.bind fun c => value t.columns c last := by
            unfold advance
            rw [hlast]
            rfl
          rw [hkey] at hnext
          rw [pagedRead_next query_eq hpos (by omega) (by omega)]
          refine ((if_neg hshort).trans (if_neg hcap)).trans (hnext.trans ?_)
          cases hrest : pagedRead (query reader keyCol) (advance t keyCol) batchSize maxRows
              (advance t keyCol cursor (page reader keyCol cursor))
              (total + (page reader keyCol cursor).length) with
          | mk rows ending =>
            cases ending with
            | ended => exact congrArg Except.ok (List.append_assoc _ _ _)
            | rowCap => rfl
            | failed => rfl

section Unique

/-- A key of its own for every row, as the column of a primary key gives it. -/
def UniqueKey (t : SourceTable κ) (c : String) : Prop :=
  (t.rows.map (value t.columns c)).Nodup ∧ ∀ r ∈ t.rows, (value t.columns c r).isSome

theorem remaining_next (hunique : UniqueKey t c) (hfull : (batchSize : ℕ) ≤ remaining t (some c) cursor) :
    remaining t (some c) (advance t (some c) cursor (page reader (some c) cursor)) + batchSize =
      remaining t (some c) cursor := by
  have hpos : 0 < (batchSize : ℕ) := batchSize.2
  obtain ⟨l, hperm, hsorted, hread⟩ := reader.behind_answers c cursor.1
  have hlength : l.length = remaining t (some c) cursor := hperm.length_eq
  have hrows : ∀ r ∈ l, r ∈ t.rows := fun r hr => (List.mem_filter.mp (hperm.subset hr)).1
  have hnodup : (l.map (value t.columns c)).Nodup :=
    (hperm.map _).nodup_iff.mpr (hunique.1.sublist (List.filter_sublist.map _))
  obtain ⟨last, hlast⟩ : ∃ last, l[(batchSize : ℕ) - 1]? = some last :=
    ⟨l[(batchSize : ℕ) - 1], List.getElem?_eq_getElem _⟩
  have htake : (l.take batchSize).getLast? = some last := (last_full hpos (hlength ▸ hfull)).trans hlast
  have hmem : last ∈ l.take batchSize := List.mem_of_getLast? htake
  obtain ⟨k, hkey⟩ := Option.isSome_iff_exists.mp (hunique.2 last (hrows _ (List.mem_of_mem_take hmem)))
  have hnext : (advance t (some c) cursor (page reader (some c) cursor)).1 = some k := by
    change ((reader.behind c cursor.1).getLast?.bind fun last => value t.columns c last) = _
    rw [hread, htake]
    exact hkey
  have hbehind : (l.drop batchSize).filter (above (value t.columns c) (some k)) = l.drop batchSize := by
    refine List.filter_eq_self.mpr fun r hr => ?_
    obtain ⟨k', hk'⟩ := Option.isSome_iff_exists.mp (hunique.2 r (hrows r (List.mem_of_mem_drop hr)))
    rw [← List.take_append_drop batchSize l] at hsorted hnodup
    have hle := (List.pairwise_append.mp hsorted).2.2 last hmem r hr
    rw [List.map_append, List.nodup_append] at hnodup
    have hne := hnodup.2.2 _ (List.mem_map_of_mem hmem) _ (List.mem_map_of_mem hr)
    simp only [hkey, hk', ordered, decide_eq_true_eq, ne_eq, Option.some.injEq] at hle hne
    simp only [above, hk', Option.all_some, Option.any_some, decide_eq_true_eq]
    exact lt_of_le_of_ne hle hne
  have hleft := (filter_next hperm hsorted htake hkey).length_eq
  rw [hbehind, List.length_drop] at hleft
  change (t.rows.filter (above (value t.columns c) (advance t (some c) cursor _).1)).length + _ = _
  rw [hnext, hleft]
  omega

theorem rowsFill_unique {k : ℕ} (hunique : ∀ c ∈ keyCol, UniqueKey t c) (hk : 0 < k) :
    rowsFill t reader.nullsFirst batchSize keyCol k cursor = decide (k * batchSize ≤ remaining t keyCol cursor) := by
  cases keyCol with
  | none =>
    refine decide_eq_decide.mpr ?_
    change cursor.2 + k * batchSize ≤ t.rows.length ↔ k * batchSize ≤ t.rows.length - cursor.2
    have hpos : 0 < k * (batchSize : ℕ) := Nat.mul_pos hk batchSize.2
    omega
  | some c =>
    rw [← fullFrom_rows hk]
    clear hk
    induction k generalizing cursor with
    | zero => exact (decide_eq_true (by omega)).symm
    | succ k ih =>
      unfold fullFrom
      rw [length_page, ih, ← Bool.decide_and, Nat.succ_mul]
      refine decide_eq_decide.mpr ?_
      by_cases hfull : (batchSize : ℕ) ≤ remaining t (some c) cursor
      · have hnext : remaining t (some c) (advance t (some c) cursor (page reader (some c) cursor)) +
            batchSize = remaining t (some c) cursor := remaining_next (hunique c rfl) hfull
        omega
      · omega

theorem holdsWhen_unique {start : Checkpoint t keyCol} (hunique : ∀ c ∈ keyCol, UniqueKey t c)
    (hstart : start.priorRows + remaining t keyCol start.cursor = t.rows.length) :
    HoldsWhen reader keyCol maxRows start ↔
      if start.priorRows < maxRows ∧ (batchSize : ℕ) ∣ maxRows - start.priorRows then t.rows.length ≠ maxRows
      else t.rows.length ≤ maxRows := by
  have hpos : 0 < (batchSize : ℕ) := batchSize.2
  have hceil : maxRows ≤ start.priorRows + capPages batchSize maxRows start.priorRows * batchSize :=
    le_capPages_mul hpos
  have hmul : start.priorRows + capPages batchSize maxRows start.priorRows * batchSize ≤ maxRows ↔
      start.priorRows < maxRows ∧ (batchSize : ℕ) ∣ maxRows - start.priorRows := capPages_mul_iff hpos
  have hpages : 0 < capPages batchSize maxRows start.priorRows * batchSize := Nat.mul_pos capPages_pos hpos
  unfold HoldsWhen
  simp only [rowsFill_unique hunique capPages_pos, decide_eq_true_eq]
  by_cases hwhole : start.priorRows < maxRows ∧ (batchSize : ℕ) ∣ maxRows - start.priorRows
  · have hle := hmul.mpr hwhole
    rw [if_pos hwhole]
    by_cases hfill : capPages batchSize maxRows start.priorRows * batchSize ≤ remaining t keyCol start.cursor
    · rw [if_pos hfill]
      exact ⟨fun h => by omega, fun h => ⟨hwhole.1, hwhole.2, by omega⟩⟩
    · rw [if_neg hfill]
      omega
  · have hgt : ¬ start.priorRows + capPages batchSize maxRows start.priorRows * batchSize ≤ maxRows :=
      fun hle => hwhole (hmul.mp hle)
    rw [if_neg hwhole]
    by_cases hfill : capPages batchSize maxRows start.priorRows * batchSize ≤ remaining t keyCol start.cursor
    · rw [if_pos hfill]
      exact ⟨fun h => absurd ⟨h.1, h.2.1⟩ hwhole, fun h => by omega⟩
    · rw [if_neg hfill]

end Unique

end Table

def numbers : SourceTable ℕ where
  columns := [⟨"id", true⟩]
  rows := [[some 1], [some 2]]
  key_unique := by decide

/-- A table of just as many rows as the cap allows, in one page. -/
theorem full_table_refused : ¬ CapExact (sortedReader numbers ⟨2, by decide⟩) (some "id") 2
    (Checkpoint.fresh numbers (some "id")) := by
  have hrun : copied (sortedReader numbers ⟨2, by decide⟩) (some "id") 2 (Checkpoint.fresh numbers (some "id")) =
      ([[some 1], [some 2]], .rowCap) := pagedRead_capped rfl (by decide) (by decide) (by decide)
  intro h
  exact absurd (h.2.mp (congrArg Prod.snd hrun)) (by decide)

end DataFabric.CappedReads
