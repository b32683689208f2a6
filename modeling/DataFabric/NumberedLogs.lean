import DataFabric.KeysetPages

set_option autoImplicit false

/-!
# Logs of numbered entries

A log keeps its entries in the order they became visible. Readers ask for the entries above a
number, lowest first and at most a batch of them, and drop what they no longer need.
-/
namespace DataFabric.NumberedLogs

open KeysetPages

variable {α : Type*}

structure Entry (α : Type*) where
  seq : ℕ
  change : α
deriving DecidableEq

def Numbered (log : List (Entry α)) : Prop := (log.map Entry.seq).Nodup

def pending (log : List (Entry α)) (since : ℕ) : List (Entry α) := beyond Entry.seq (some since) log

def readBatch (log : List (Entry α)) (since limit : ℕ) : List (Entry α) :=
  page Entry.seq (some since) limit log

def pruneUpTo (log : List (Entry α)) (upTo : ℕ) : List (Entry α) :=
  log.filter fun e => upTo < e.seq

def maxNumber (log : List (Entry α)) : ℕ := log.foldr (fun e m => max e.seq m) 0

/-- The number of the last entry of a batch, or the number the batch was read from. -/
def lastNumber (since : ℕ) (batch : List (Entry α)) : ℕ := (batch.getLast?.map Entry.seq).getD since

theorem numbered_inj {log : List (Entry α)} (h : Numbered log) {a b : Entry α} (ha : a ∈ log)
    (hb : b ∈ log) (heq : a.seq = b.seq) : a = b := List.inj_on_of_nodup_map h ha hb heq

theorem numbered_prune {log : List (Entry α)} (h : Numbered log) (upTo : ℕ) :
    Numbered (pruneUpTo log upTo) := h.sublist (List.filter_sublist.map _)

theorem numbered_append {log new : List (Entry α)} (h : Numbered log) (hnew : Numbered new)
    (hne : ∀ a ∈ log, ∀ b ∈ new, a.seq ≠ b.seq) : Numbered (log ++ new) := by
  unfold Numbered
  rw [List.map_append]
  refine List.nodup_append.mpr ⟨h, hnew, ?_⟩
  intro k hk l hl
  obtain ⟨a, ha, rfl⟩ := List.mem_map.mp hk
  obtain ⟨b, hb, rfl⟩ := List.mem_map.mp hl
  exact hne a ha b hb

@[simp] theorem mem_pending {log : List (Entry α)} {since : ℕ} {e : Entry α} :
    e ∈ pending log since ↔ e ∈ log ∧ since < e.seq := by
  unfold pending
  rw [mem_beyond]
  simp

@[simp] theorem mem_pruneUpTo {log : List (Entry α)} {upTo : ℕ} {e : Entry α} :
    e ∈ pruneUpTo log upTo ↔ e ∈ log ∧ upTo < e.seq := by
  unfold pruneUpTo
  rw [List.mem_filter, decide_eq_true_eq]

theorem mem_readBatch {log : List (Entry α)} {since limit : ℕ} {e : Entry α}
    (h : e ∈ readBatch log since limit) : e ∈ log ∧ since < e.seq :=
  mem_pending.mp (List.mem_of_mem_take h)

theorem readBatch_rest {log : List (Entry α)} (hnum : Numbered log) {since limit : ℕ} {e : Entry α}
    (he : e ∈ log) (hlt : since < e.seq) :
    e ∈ readBatch log since limit ∨ ∀ x ∈ readBatch log since limit, x.seq < e.seq :=
  page_rest hnum he (by simpa using hlt)

theorem pending_strict {log : List (Entry α)} (hnum : Numbered log) (since : ℕ) :
    (pending log since).Pairwise fun a b => a.seq < b.seq := beyond_strict hnum _

theorem lastKey_seq (since : ℕ) (batch : List (Entry α)) :
    lastKey Entry.seq (some since) batch = some (lastNumber since batch) := by
  unfold lastKey lastNumber
  cases batch.getLast? <;> rfl

theorem lastNumber_cons (since : ℕ) (e : Entry α) (batch : List (Entry α)) :
    lastNumber since (e :: batch) = lastNumber e.seq batch := by
  unfold lastNumber
  cases batch with
  | nil => rfl
  | cons a rest => rw [List.getLast?_cons_cons, List.getLast?_cons]; rfl

theorem lastNumber_append (since : ℕ) (batch more : List (Entry α)) :
    lastNumber since (batch ++ more) = lastNumber (lastNumber since batch) more := by
  have happend := lastKey_append Entry.seq (some since) batch more
  rw [lastKey_seq, lastKey_seq, lastKey_seq] at happend
  exact Option.some.inj happend

theorem lastNumber_mem {since : ℕ} {batch : List (Entry α)} (h : batch ≠ []) :
    ∃ e ∈ batch, lastNumber since batch = e.seq := by
  obtain ⟨e, he, hlast⟩ := lastKey_mem Entry.seq (some since) h
  rw [lastKey_seq] at hlast
  exact ⟨e, he, Option.some.inj hlast⟩

theorem pending_next {log : List (Entry α)} (hnum : Numbered log) (since limit : ℕ) :
    pending log (lastNumber since (readBatch log since limit)) = (pending log since).drop limit := by
  unfold pending
  rw [← lastKey_seq]
  exact beyond_next hnum (some since) limit

theorem readBatch_eq_nil {log : List (Entry α)} {since limit : ℕ} (hlimit : 0 < limit)
    (h : readBatch log since limit = []) : pending log since = [] := page_eq_nil hlimit h

theorem readBatch_short {log : List (Entry α)} {since limit : ℕ}
    (h : (readBatch log since limit).length < limit) : readBatch log since limit = pending log since :=
  page_short h

theorem le_maxNumber {log : List (Entry α)} {e : Entry α} (h : e ∈ log) : e.seq ≤ maxNumber log := by
  induction log with
  | nil => cases h
  | cons a log ih =>
    change e.seq ≤ max a.seq (maxNumber log)
    rcases List.mem_cons.mp h with rfl | h
    · exact le_max_left _ _
    · have hle := ih h
      omega

theorem maxNumber_lt {log : List (Entry α)} {bound : ℕ} (hpos : 0 < bound)
    (h : ∀ e ∈ log, e.seq < bound) : maxNumber log < bound := by
  induction log with
  | nil => exact hpos
  | cons a log ih =>
    have hhead := h a List.mem_cons_self
    have htail := ih fun e he => h e (List.mem_cons_of_mem a he)
    change max a.seq (maxNumber log) < bound
    omega

end DataFabric.NumberedLogs
