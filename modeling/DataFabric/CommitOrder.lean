import DataFabric.CdcDrains
import DataFabric.TransitionRuns

set_option autoImplicit false

/-!
# Entries that become visible late

A transaction takes the numbers of its entries when it writes them; they become visible when it
commits. A drain that has passed a number before its entry is visible never reads the entry.
-/
namespace DataFabric.CommitOrder

open NumberedLogs CdcCapture CdcDrains TransitionRuns

variable {τ α : Type*}

structure World (τ α : Type*) where
  nextSeq : ℕ
  /-- Entries of transactions that have not ended, with their transaction. -/
  inFlight : List (τ × Entry α)
  outbox : List (Entry α)
  committed : List (Entry α)
  consumer : Consumer α (List (Entry α))

inductive Event (τ α : Type*)
  | write (t : τ) (change : α)
  | commit (t : τ)
  | abort (t : τ)
  | consume
  | crash

def record (sink : List (Entry α)) (e : Entry α) : Option (List (Entry α)) := some (sink ++ [e])

section Step

variable (batchSize : ℕ+)

/-- Every committed change has been read, or is in the outbox and the consumer, left alone, reads it. -/
def ReadBeforePruned (w : World τ α) : Prop :=
  ∀ e ∈ w.committed, e ∈ w.consumer.read ∨ e ∈ w.outbox ∧
    ∃ n log c, drains record batchSize n (w.outbox, w.consumer) = some (log, c) ∧ e ∈ c.read

variable [DecidableEq τ]

def entriesOf (w : World τ α) (t : τ) : List (Entry α) :=
  (w.inFlight.filter fun x => x.1 = t).map Prod.snd

def step (w : World τ α) : Event τ α → Option (World τ α)
  | .write t change => some { w with
      nextSeq := w.nextSeq + 1
      inFlight := w.inFlight ++ [(t, ⟨w.nextSeq, change⟩)] }
  | .commit t => some { w with
      inFlight := w.inFlight.filter fun x => x.1 ≠ t
      outbox := w.outbox ++ entriesOf w t
      committed := w.committed ++ entriesOf w t }
  | .abort t => some { w with inFlight := w.inFlight.filter fun x => x.1 ≠ t }
  | .consume => (consume record batchSize w.outbox w.consumer).map fun x =>
      { w with outbox := x.1, consumer := x.2 }
  | .crash => some { w with consumer := w.consumer.crash }

/-- Nothing is written yet, and the saved position is below the numbers to come. -/
def fresh : Set (World τ α) :=
  {w | w.inFlight = [] ∧ w.outbox = [] ∧ w.committed = [] ∧
    w.consumer = ⟨w.consumer.saved, .idle, [], []⟩ ∧ w.consumer.saved < w.nextSeq}

/-- A read returns no entry above a number that an open transaction holds. -/
def Settled (w : World τ α) : Event τ α → Prop
  | .consume => match w.consumer.phase with
    | .reading seq _ => ∀ x ∈ readBatch w.outbox seq batchSize, ∀ y ∈ w.inFlight, x.seq < y.2.seq
    | _ => True
  | _ => True

instance (w : World τ α) (e : Event τ α) : Decidable (Settled batchSize w e) := by
  unfold Settled
  cases e <;> dsimp only <;> first | infer_instance | (split <;> infer_instance)

end Step

/-- What holds as long as no read overtakes an open transaction. -/
structure Ordered (w : World τ α) : Prop where
  numbered : Numbered (w.outbox ++ w.inFlight.map Prod.snd)
  below : ∀ e ∈ w.outbox ++ w.inFlight.map Prod.snd, e.seq < w.nextSeq
  inStep : InStep w.consumer
  batchRead : w.consumer.batch ⊆ w.consumer.read
  within : Within w.nextSeq w.consumer
  behind : ∀ y ∈ w.inFlight, Within y.2.seq w.consumer
  ahead : Ahead (fun e => e ∈ w.committed ∧ e ∉ w.consumer.read) w.outbox w.consumer

theorem numbered_outbox {w : World τ α} (h : Ordered w) : Numbered w.outbox :=
  h.numbered.sublist ((List.sublist_append_left _ _).map _)

theorem ordered_fresh {w : World τ α} (h : w ∈ fresh) : Ordered w := by
  obtain ⟨hinFlight, houtbox, hcommitted, hconsumer, hlt⟩ := h
  have hbatch : w.consumer.batch = [] := by rw [hconsumer]; rfl
  have hcurrent : w.consumer.current = w.consumer.saved := by rw [hconsumer]; rfl
  constructor
  · rw [hinFlight, houtbox]
    exact List.nodup_nil
  · rw [hinFlight, houtbox]
    nofun
  · rw [hconsumer]
    trivial
  · rw [hbatch]
    exact List.nil_subset _
  · refine ⟨hcurrent ▸ hlt, ?_⟩
    rw [hbatch]
    nofun
  · rw [hinFlight]
    nofun
  · rw [hcommitted]
    exact ⟨nofun, nofun, nofun⟩

variable {batchSize : ℕ+} {w w' : World τ α}

theorem readBeforePruned_of_ordered (h : Ordered w) : ReadBeforePruned batchSize w := by
  intro e he
  by_cases hread : e ∈ w.consumer.read
  · exact .inl hread
  · obtain ⟨n, log, c, later, hn, -, -, hreads, hall⟩ :=
      @runsThrough _ _ record batchSize _ _ (fun s e => ⟨s ++ [e], rfl⟩) (numbered_outbox h) h.inStep
    refine .inr ⟨h.ahead.stored e ⟨he, hread⟩, n, log, c, hn, ?_⟩
    rw [hreads]
    rcases hall _ h.ahead e ⟨he, hread⟩ with hbatch | hlater
    · exact absurd (h.batchRead hbatch) hread
    · exact List.mem_append_right _ hlater

variable [DecidableEq τ]

theorem ordered_write (h : Ordered w) (t : τ) (change : α)
    (hstep : step batchSize w (.write t change) = some w') : Ordered w' := by
  cases hstep
  have hmem : ∀ e, e ∈ w.outbox ++ (w.inFlight ++ [(t, Entry.mk w.nextSeq change)]).map Prod.snd →
      e ∈ w.outbox ++ w.inFlight.map Prod.snd ∨ e = Entry.mk w.nextSeq change := by
    intro e he
    rw [List.map_append, ← List.append_assoc, List.mem_append] at he
    exact he.imp_right List.mem_singleton.mp
  refine ⟨?_, ?_, h.inStep, h.batchRead, ?_, ?_, h.ahead⟩
  · rw [List.map_append, ← List.append_assoc]
    refine numbered_append h.numbered (List.nodup_singleton _) ?_
    intro a ha b hb
    rw [List.map_singleton, List.mem_singleton] at hb
    have hlt := h.below a ha
    subst hb
    exact Nat.ne_of_lt hlt
  · intro e he
    rcases hmem e he with hold | rfl
    · exact Nat.lt_succ_of_lt (h.below e hold)
    · exact Nat.lt_succ_self _
  · exact ⟨Nat.lt_succ_of_lt h.within.1, fun x hx => Nat.lt_succ_of_lt (h.within.2 x hx)⟩
  · intro y hy
    rcases List.mem_append.mp hy with hold | hnew
    · exact h.behind y hold
    · rw [List.mem_singleton] at hnew
      subst hnew
      exact h.within

theorem mem_entriesOf {t : τ} {e : Entry α} (h : e ∈ entriesOf w t) :
    ∃ y ∈ w.inFlight, y.1 = t ∧ y.2 = e := by
  obtain ⟨y, hy, rfl⟩ := List.mem_map.mp h
  rw [List.mem_filter, decide_eq_true_eq] at hy
  exact ⟨y, hy.1, hy.2, rfl⟩

theorem perm_entriesOf (w : World τ α) (t : τ) :
    (w.outbox ++ entriesOf w t ++ (w.inFlight.filter fun x => x.1 ≠ t).map Prod.snd).Perm
      (w.outbox ++ w.inFlight.map Prod.snd) := by
  unfold entriesOf
  rw [List.append_assoc, ← List.map_append]
  refine List.Perm.append_left _ (List.Perm.map _ ?_)
  have hperm := List.filter_append_perm (fun x : τ × Entry α => decide (x.1 = t)) w.inFlight
  simpa using hperm

theorem ordered_commit (h : Ordered w) (t : τ)
    (hstep : step batchSize w (.commit t) = some w') : Ordered w' := by
  cases hstep
  have hperm := perm_entriesOf w t
  refine ⟨?_, ?_, h.inStep, h.batchRead, h.within, ?_, ?_⟩
  · exact (hperm.map _).nodup_iff.mpr h.numbered
  · exact fun e he => h.below e (hperm.subset he)
  · exact fun y hy => h.behind y (List.mem_of_mem_filter hy)
  · refine ahead_append h.ahead (fun e he => ?_) fun e he => ?_
    · exact (List.mem_append.mp he.1).imp_left fun hold => ⟨hold, he.2⟩
    · obtain ⟨y, hy, -, rfl⟩ := mem_entriesOf he
      exact h.behind y hy

theorem ordered_abort (h : Ordered w) (t : τ)
    (hstep : step batchSize w (.abort t) = some w') : Ordered w' := by
  cases hstep
  have hsub : (w.outbox ++ (w.inFlight.filter fun x => x.1 ≠ t).map Prod.snd).Sublist
      (w.outbox ++ w.inFlight.map Prod.snd) :=
    (List.Sublist.refl _).append (List.filter_sublist.map _)
  refine ⟨h.numbered.sublist (hsub.map _), fun e he => h.below e (hsub.subset he), h.inStep,
    h.batchRead, h.within, fun y hy => h.behind y (List.mem_of_mem_filter hy), h.ahead⟩

theorem ordered_consume (h : Ordered w) (hsettled : Settled batchSize w .consume)
    (hstep : step batchSize w .consume = some w') : Ordered w' := by
  obtain ⟨⟨log, c⟩, hc, rfl⟩ := Option.map_eq_some_iff.mp hstep
  have hsub := (log_consume hc).append (List.Sublist.refl (w.inFlight.map Prod.snd))
  have hnum := numbered_outbox h
  refine ⟨h.numbered.sublist (hsub.map _), fun e he => h.below e (hsub.subset he),
    inStep_consume hnum h.inStep hc, batch_read_consume h.batchRead hc, ?_, ?_, ?_⟩
  · refine within_consume h.inStep h.within (fun seq applied _ e he => ?_) hc
    exact h.below e (List.mem_append_left _ (mem_readBatch he).1)
  · intro y hy
    refine within_consume h.inStep (h.behind y hy) (fun seq applied hp e he => ?_) hc
    unfold Settled at hsettled
    simp only [hp] at hsettled
    exact hsettled e he y hy
  · refine ahead_mono (ahead_consume hnum h.inStep h.ahead hc) fun e he => ?_
    have hunread : e ∉ w.consumer.read := fun hmem => he.2 (read_consume hc hmem)
    refine ⟨⟨he.1, hunread⟩, fun htakes => hunread (h.batchRead ?_)⟩
    exact List.mem_of_mem_head? htakes

theorem ordered_crash (h : Ordered w) (hstep : step batchSize w .crash = some w') : Ordered w' := by
  cases hstep
  exact ⟨h.numbered, h.below, trivial, List.nil_subset _, within_crash h.inStep h.within,
    fun y hy => within_crash h.inStep (h.behind y hy), ahead_crash h.inStep h.ahead⟩

theorem ordered_step {e : Event τ α} (h : Ordered w)
    (hstep : restrict (Settled batchSize) (step batchSize) w e = some w') : Ordered w' := by
  obtain ⟨hsettled, hstep⟩ := restrict_some hstep
  cases e with
  | write t change => exact ordered_write h t change hstep
  | commit t => exact ordered_commit h t hstep
  | abort t => exact ordered_abort h t hstep
  | consume => exact ordered_consume h hsettled hstep
  | crash => exact ordered_crash h hstep

/-- As long as no read overtakes a number that an open transaction holds, no committed change is
lost. -/
theorem settled_reads_all (batchSize : ℕ+) (w : World τ α)
    (h : Reachable fresh (restrict (Settled batchSize) (step batchSize)) w) :
    ReadBeforePruned batchSize w :=
  readBeforePruned_of_ordered (invariant (fun _ => ordered_fresh) (fun _ _ _ => ordered_step) h)

/-- Two transactions, the second one committing first, while a drain waits for neither. -/
def lateCommit : List (Event ℕ String) :=
  [.write 1 "a", .write 2 "b", .commit 2, .consume, .consume, .consume, .consume, .consume, .commit 1]

def start : World ℕ String := ⟨1, [], [], [], ⟨0, .idle, [], []⟩⟩

theorem start_fresh : start ∈ fresh := ⟨rfl, rfl, rfl, rfl, by decide⟩

/-- Both are read while a third transaction is open. -/
def bothCommitted : World ℕ String :=
  ⟨4, [(3, ⟨3, "c"⟩)], [⟨2, "b"⟩, ⟨1, "a"⟩], [⟨2, "b"⟩, ⟨1, "a"⟩],
    ⟨0, .applying [⟨1, "a"⟩, ⟨2, "b"⟩] 0 0 true, [⟨1, "a"⟩, ⟨2, "b"⟩], []⟩⟩

theorem settled_reads_all_both : ReadBeforePruned copyBatch bothCommitted := by
  have hrun : run (restrict (Settled copyBatch) (step copyBatch)) start
      [.write 1 "a", .write 2 "b", .write 3 "c", .commit 2, .commit 1, .consume, .consume] = some bothCommitted := by
    rfl
  exact settled_reads_all copyBatch _ (reachable_run (.init start_fresh) hrun)

/-- The entry of the transaction that commits late is never read. -/
theorem late_commit_lost :
    ¬ ∀ w : World ℕ String, Reachable fresh (step copyBatch) w → ReadBeforePruned copyBatch w := by
  intro h
  have hrun : run (step copyBatch) start lateCommit =
      some ⟨3, [], [⟨1, "a"⟩], [⟨2, "b"⟩, ⟨1, "a"⟩], ⟨2, .idle, [⟨2, "b"⟩], [⟨2, "b"⟩]⟩⟩ := by
    rfl
  have hread := h _ (reachable_run (.init start_fresh) hrun) ⟨1, "a"⟩ (by decide)
  rcases hread with hmem | ⟨-, n, log, c, hn, hmem⟩
  · revert hmem
    decide
  · have hnum : Numbered [Entry.mk 1 "a"] := List.nodup_singleton 1
    have hin : InStep (Consumer.mk 2 .idle [Entry.mk 2 "b"] [Entry.mk 2 "b"]) := trivial
    exact skip_drains hnum hin (by decide) (by decide) hn hmem

end DataFabric.CommitOrder
