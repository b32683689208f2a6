import DataFabric.CommitOrder
import Mathlib.Data.Fintype.Basic

set_option autoImplicit false

/-!
# Consumers of one outbox

The outbox of a table is named by the table alone, so every replication job of the table and the
hub's own refresh drain and prune the same one, each from a position of its own.
-/
namespace DataFabric.SharedOutbox

open NumberedLogs CdcCapture CdcDrains TransitionRuns CommitOrder

/-- A consumer before its first run, while the first run copies the table, and afterwards. -/
inductive Stage | fresh | copying | draining
deriving DecidableEq

structure Member (α : Type*) where
  stage : Stage
  /-- The next number at the moment the consumer took its baseline. -/
  baseline : ℕ
  consumer : Consumer α (List (Entry α))

structure World (ι α : Type*) where
  nextSeq : ℕ
  outbox : List (Entry α)
  recorded : List (Entry α)
  members : ι → Member α

inductive Event (ι α : Type*)
  | write (change : α)
  | baseline (i : ι)
  | ready (i : ι)
  | consume (i : ι)
  | crash (i : ι)

variable {ι α : Type*} [DecidableEq ι] (batchSize : ι → ℕ+)

def setMember (w : World ι α) (i : ι) (m : Member α) : World ι α :=
  { w with members := fun j => if j = i then m else w.members j }

def step (w : World ι α) : Event ι α → Option (World ι α)
  | .write change => some { w with
      nextSeq := w.nextSeq + 1
      outbox := w.outbox ++ [⟨w.nextSeq, change⟩]
      recorded := w.recorded ++ [⟨w.nextSeq, change⟩] }
  -- the position is read before the table is copied, and kept in memory until the copy is done
  | .baseline i =>
    if (w.members i).stage = .fresh
    then some (setMember w i ⟨.copying, w.nextSeq, ⟨maxNumber w.outbox, .idle, [], []⟩⟩) else none
  | .ready i =>
    if (w.members i).stage = .copying
    then some (setMember w i { w.members i with stage := .draining }) else none
  | .consume i =>
    if (w.members i).stage = .draining
    then (CdcCapture.consume record (batchSize i) w.outbox (w.members i).consumer).map fun x =>
      { setMember w i { w.members i with consumer := x.2 } with outbox := x.1 }
    else none
  | .crash i => some (setMember w i (if (w.members i).stage = .draining
      then { w.members i with consumer := (w.members i).consumer.crash }
      else { w.members i with stage := .fresh }))

def start : Set (World ι α) :=
  {w | w.outbox = [] ∧ w.recorded = [] ∧ 0 < w.nextSeq ∧ ∀ i, (w.members i).stage = .fresh}

def Owed (w : World ι α) (i : ι) (e : Entry α) : Prop :=
  e ∈ w.recorded ∧ (w.members i).baseline ≤ e.seq ∧ e ∉ (w.members i).consumer.sink

/-- What every consumer that has its baseline owes is in the outbox, and it applies it when left
alone. -/
def Independent (w : World ι α) : Prop :=
  ∀ i, (w.members i).stage ≠ .fresh → ∀ e, Owed w i e → e ∈ w.outbox ∧
    ∃ n log c, drains record (batchSize i) n (w.outbox, (w.members i).consumer) = some (log, c) ∧
      e ∈ c.sink

section Decidable

variable [Fintype ι]

/-- The outbox has no entry between another consumer's position and the number of a prune. -/
def Shared (w : World ι α) : Event ι α → Prop
  | .consume i => match (w.members i).consumer.phase with
    | .pruning seq => ∀ j, j ≠ i → (w.members j).stage ≠ .fresh →
        ∀ e ∈ w.outbox, e.seq ≤ seq → e.seq ≤ (w.members j).consumer.current
    | _ => True
  | _ => True

instance (w : World ι α) (e : Event ι α) : Decidable (Shared w e) := by
  unfold Shared
  cases e <;> dsimp only <;> first | infer_instance | (split <;> infer_instance)

end Decidable

structure Fed (w : World ι α) (i : ι) : Prop where
  inStep : InStep (w.members i).consumer
  within : Within w.nextSeq (w.members i).consumer
  ahead : Ahead (Owed w i) w.outbox (w.members i).consumer

structure Supplied (w : World ι α) : Prop where
  positive : 0 < w.nextSeq
  numbered : Numbered w.outbox
  below : ∀ e ∈ w.outbox, e.seq < w.nextSeq
  recordedBelow : ∀ e ∈ w.recorded, e.seq < w.nextSeq
  fed : ∀ i, (w.members i).stage ≠ .fresh → Fed w i

variable {batchSize} {w w' : World ι α}

omit [DecidableEq ι] in
theorem within_le {n m : ℕ} {δ : Type*} {c : Consumer α δ} (h : Within n c) (hle : n ≤ m) : Within m c :=
  ⟨lt_of_lt_of_le h.1 hle, fun x hx => lt_of_lt_of_le (h.2 x hx) hle⟩

omit [DecidableEq ι] in
theorem fed_frame {j : ι} (h : Fed w j) (hmember : w'.members j = w.members j)
    (hnext : w'.nextSeq = w.nextSeq) (hrecorded : w'.recorded = w.recorded)
    (hkept : ∀ e, Owed w j e → e ∈ w'.outbox) : Fed w' j := by
  have howed : ∀ e, Owed w' j e → Owed w j e := by
    unfold Owed
    rw [hmember, hrecorded]
    exact fun e he => he
  refine ⟨hmember ▸ h.inStep, ?_, ?_⟩
  · rw [hmember, hnext]
    exact h.within
  · rw [hmember]
    exact ahead_mono (ahead_log h.ahead hkept) howed

omit [DecidableEq ι] in
theorem fed_member {j : ι} {m : Member α} (hm : w.members j = m) (hin : InStep m.consumer)
    (hwithin : Within w.nextSeq m.consumer)
    (hahead : Ahead (fun e => e ∈ w.recorded ∧ m.baseline ≤ e.seq ∧ e ∉ m.consumer.sink) w.outbox
      m.consumer) : Fed w j := by
  subst hm
  exact ⟨hin, hwithin, hahead⟩

theorem setMember_same (w : World ι α) (i : ι) (m : Member α) : (setMember w i m).members i = m :=
  if_pos rfl

theorem setMember_other (w : World ι α) {i j : ι} (m : Member α) (hne : j ≠ i) :
    (setMember w i m).members j = w.members j := if_neg hne

omit [DecidableEq ι] in
theorem supplied_start (h : w ∈ start) : Supplied w := by
  obtain ⟨houtbox, hrecorded, hpos, hfresh⟩ := h
  refine ⟨hpos, ?_, ?_, ?_, fun i hi => absurd (hfresh i) hi⟩
  · rw [houtbox]
    exact List.nodup_nil
  · rw [houtbox]
    nofun
  · rw [hrecorded]
    nofun

theorem supplied_write (h : Supplied w) (change : α)
    (hstep : step batchSize w (.write change) = some w') : Supplied w' := by
  cases hstep
  have hgrow : ∀ log : List (Entry α), (∀ e ∈ log, e.seq < w.nextSeq) →
      ∀ e ∈ log ++ [Entry.mk w.nextSeq change], e.seq < w.nextSeq + 1 := by
    intro log hlog e he
    rcases List.mem_append.mp he with hold | hnew
    · exact Nat.lt_succ_of_lt (hlog e hold)
    · rw [List.mem_singleton] at hnew
      exact hnew ▸ Nat.lt_succ_self _
  refine ⟨Nat.succ_pos _, ?_, hgrow _ h.below, hgrow _ h.recordedBelow, ?_⟩
  · refine numbered_append h.numbered (List.nodup_singleton _) fun a ha b hb => ?_
    rw [List.mem_singleton] at hb
    have hlt := h.below a ha
    subst hb
    exact Nat.ne_of_lt hlt
  · intro i hi
    obtain ⟨hin, hwithin, hahead⟩ := h.fed i hi
    refine ⟨hin, within_le hwithin (Nat.le_succ _), ?_⟩
    refine ahead_append hahead (fun e he => ?_) fun e he => ?_
    · exact (List.mem_append.mp he.1).imp_left fun hold => ⟨hold, he.2⟩
    · rw [List.mem_singleton] at he
      subst he
      exact hwithin

theorem supplied_baseline (h : Supplied w) (i : ι)
    (hstep : step batchSize w (.baseline i) = some w') : Supplied w' := by
  simp only [step, Option.ite_none_right_eq_some, Option.some.injEq] at hstep
  obtain ⟨-, rfl⟩ := hstep
  refine ⟨h.positive, h.numbered, h.below, h.recordedBelow, fun j hj => ?_⟩
  by_cases hji : j = i
  · subst hji
    have hnone : ∀ e : Entry α, ¬ (e ∈ w.recorded ∧ w.nextSeq ≤ e.seq ∧ e ∉ []) := by
      intro e he
      have hlt := h.recordedBelow e he.1
      omega
    exact fed_member (setMember_same w j _) trivial ⟨maxNumber_lt h.positive h.below, nofun⟩
      ⟨fun e he => absurd he (hnone e), fun e he => absurd he (hnone e),
        fun e he => absurd he (hnone e)⟩
  · rw [setMember_other w _ hji] at hj
    have hfed := h.fed j hj
    exact fed_frame hfed (setMember_other w _ hji) rfl rfl hfed.ahead.stored

theorem supplied_ready (h : Supplied w) (i : ι)
    (hstep : step batchSize w (.ready i) = some w') : Supplied w' := by
  simp only [step, Option.ite_none_right_eq_some, Option.some.injEq] at hstep
  obtain ⟨hcopying, rfl⟩ := hstep
  refine ⟨h.positive, h.numbered, h.below, h.recordedBelow, fun j hj => ?_⟩
  by_cases hji : j = i
  · subst hji
    obtain ⟨hin, hwithin, hahead⟩ := h.fed j (by rw [hcopying]; nofun)
    exact fed_member (setMember_same w j _) hin hwithin hahead
  · rw [setMember_other w _ hji] at hj
    have hfed := h.fed j hj
    exact fed_frame hfed (setMember_other w _ hji) rfl rfl hfed.ahead.stored

theorem supplied_crash (h : Supplied w) (i : ι)
    (hstep : step batchSize w (.crash i) = some w') : Supplied w' := by
  cases hstep
  refine ⟨h.positive, h.numbered, h.below, h.recordedBelow, fun j hj => ?_⟩
  by_cases hji : j = i
  · subst hji
    rw [setMember_same] at hj
    by_cases hdraining : (w.members j).stage = .draining
    · obtain ⟨hin, hwithin, hahead⟩ := h.fed j (by rw [hdraining]; nofun)
      rw [if_pos hdraining]
      exact fed_member (setMember_same w j _) (inStep_crash _) (within_crash hin hwithin)
        (ahead_crash hin hahead)
    · rw [if_neg hdraining] at hj
      exact absurd rfl hj
  · rw [setMember_other w _ hji] at hj
    have hfed := h.fed j hj
    exact fed_frame hfed (setMember_other w _ hji) rfl rfl hfed.ahead.stored

omit [DecidableEq ι] in
theorem sink_consume {b : ℕ+} {log log' : List (Entry α)} {c c' : Consumer α (List (Entry α))}
    (h : CdcCapture.consume record b log c = some (log', c')) :
    c.sink ⊆ c'.sink ∧ ∀ e, Takes c e → e ∈ c'.sink := by
  unfold Takes Consumer.batch
  rcases consume_cases h with ⟨hp, -, rfl⟩ | ⟨_, _, hp, -, -, rfl⟩ | ⟨_, _, hp, -, -, rfl⟩ |
    ⟨e, _, _, _, _, _, hp, hsink, -, rfl⟩ | ⟨_, _, _, hp, -, rfl⟩ | ⟨_, hp, -, rfl⟩ <;> simp only [hp]
  case inr.inr.inr.inl =>
    cases hsink
    refine ⟨List.subset_append_left _ _, fun x hx => ?_⟩
    cases hx
    exact List.mem_append_right _ (List.mem_singleton_self e)
  all_goals exact ⟨List.Subset.refl _, nofun⟩

omit [DecidableEq ι] in
theorem foldlM_record (es sink : List (Entry α)) : es.foldlM record sink = some (sink ++ es) := by
  induction es generalizing sink with
  | nil => rw [List.append_nil]; rfl
  | cons e es ih =>
    rw [List.foldlM_cons]
    change List.foldlM record (sink ++ [e]) es = _
    rw [ih, List.append_assoc]
    rfl

omit [DecidableEq ι] in
theorem independent_of_supplied (h : Supplied w) : Independent batchSize w := by
  intro i hi e he
  obtain ⟨hin, -, hahead⟩ := h.fed i hi
  obtain ⟨n, log, c, later, hn, -, hsink, -, hall⟩ :=
    @runsThrough _ _ record (batchSize i) _ _ (fun s e => ⟨s ++ [e], rfl⟩) h.numbered hin
  rw [foldlM_record, Option.some.injEq] at hsink
  refine ⟨hahead.stored e he, n, log, c, hn, ?_⟩
  rw [← hsink]
  exact List.mem_append_right _ (List.mem_append.mpr (hall _ hahead e he))

theorem supplied_consume (h : Supplied w) (i : ι) (hshared : Shared w (.consume i))
    (hstep : step batchSize w (.consume i) = some w') : Supplied w' := by
  simp only [step, Option.ite_none_right_eq_some, Option.map_eq_some_iff] at hstep
  obtain ⟨hdraining, ⟨log, c⟩, hc, rfl⟩ := hstep
  have hsub := log_consume hc
  refine ⟨h.positive, h.numbered.sublist (hsub.map _), fun e he => h.below e (hsub.subset he),
    h.recordedBelow, fun j hj => ?_⟩
  by_cases hji : j = i
  · subst hji
    obtain ⟨hin, hwithin, hahead⟩ := h.fed j (by rw [hdraining]; nofun)
    refine fed_member (setMember_same w j _) (inStep_consume h.numbered hin hc)
      (within_consume hin hwithin (fun _ _ _ e he => h.below e (mem_readBatch he).1) hc)
      (ahead_mono (ahead_consume h.numbered hin hahead hc) fun e he => ?_)
    have hsink := sink_consume hc
    exact ⟨⟨he.1, he.2.1, fun hmem => he.2.2 (hsink.1 hmem)⟩, fun htakes => he.2.2 (hsink.2 e htakes)⟩
  · have hj' : (w.members j).stage ≠ .fresh := by
      rw [← setMember_other w { w.members i with consumer := c } hji]
      exact hj
    have hfed := h.fed j hj'
    refine fed_frame hfed (setMember_other w _ hji) rfl rfl fun e he => ?_
    have hstored := hfed.ahead.stored e he
    rcases log_consume_cases hc with rfl | ⟨seq, hp, rfl⟩
    · exact hstored
    · unfold Shared at hshared
      simp only [hp] at hshared
      refine mem_pruneUpTo.mpr ⟨hstored, ?_⟩
      have hahead := hfed.ahead.beyond e he
      by_contra hle
      have hpassed := hshared j hji hj' e hstored (by omega)
      omega

variable [Fintype ι]

theorem supplied_step {e : Event ι α} (h : Supplied w)
    (hstep : restrict Shared (step batchSize) w e = some w') : Supplied w' := by
  obtain ⟨hshared, hstep⟩ := restrict_some hstep
  cases e with
  | write change => exact supplied_write h change hstep
  | baseline i => exact supplied_baseline h i hstep
  | ready i => exact supplied_ready h i hstep
  | consume i => exact supplied_consume h i hshared hstep
  | crash i => exact supplied_crash h i hstep

/-- As long as no prune overtakes another consumer, the consumers of one outbox are independent. -/
theorem shared_independent (batchSize : ι → ℕ+) (w : World ι α)
    (h : Reachable start (restrict Shared (step batchSize)) w) : Independent batchSize w :=
  independent_of_supplied (invariant (fun _ => supplied_start) (fun _ _ _ => supplied_step) h)

inductive Job | replica | hub
deriving DecidableEq

instance : Fintype Job := ⟨{.replica, .hub}, by intro j; cases j <;> decide⟩

theorem hubBatch_pos : 0 < 500 := by decide

def batches : Job → ℕ+
  | .replica => copyBatch
  | .hub => ⟨500, hubBatch_pos⟩

def idleWorld : World Job String := ⟨1, [], [], fun _ => ⟨.fresh, 0, ⟨0, .idle, [], []⟩⟩⟩

theorem idleWorld_start : idleWorld ∈ start := ⟨rfl, rfl, by decide, fun _ => rfl⟩

def bothReady : List (Event Job String) :=
  [.baseline .replica, .ready .replica, .baseline .hub, .ready .hub, .write "a"]

def fasterDrains : List (Event Job String) :=
  bothReady ++ [.consume .replica, .consume .replica, .consume .replica, .consume .replica,
    .consume .replica]

/-- The replication job prunes what the hub's refresh has applied as well. -/
def drainsInTurn : List (Event Job String) :=
  bothReady ++ List.replicate 4 (.consume .hub) ++ List.replicate 5 (.consume .replica) ++ [.write "b"]

theorem shared_independent_ready : ∃ w : World Job String,
    w.recorded = [⟨1, "a"⟩, ⟨2, "b"⟩] ∧ w.outbox = [⟨2, "b"⟩] ∧ Independent batches w := by
  obtain ⟨w, hw, hfacts⟩ := @reachable_of_run _ _ start (restrict Shared (step batches))
    (fun w => w.recorded = [⟨1, "a"⟩, ⟨2, "b"⟩] ∧ w.outbox = [⟨2, "b"⟩]) idleWorld drainsInTurn
    idleWorld_start (by decide)
  rw [decide_eq_true_eq] at hfacts
  exact ⟨w, hfacts.1, hfacts.2, shared_independent batches w hw⟩

/-- The replication job drains and prunes; the hub's refresh never sees the change. -/
theorem faster_consumer_starves :
    ¬ ∀ w : World Job String, Reachable start (step batches) w → Independent batches w := by
  intro h
  obtain ⟨w, hw, hfacts⟩ := @reachable_of_run _ _ start (step batches)
    (fun w => w.outbox = [] ∧ w.recorded = [⟨1, "a"⟩] ∧ (w.members .hub).stage = .draining ∧
      (w.members .hub).baseline ≤ 1 ∧ (w.members .hub).consumer.sink = []) idleWorld fasterDrains
    idleWorld_start (by decide)
  rw [decide_eq_true_eq] at hfacts
  obtain ⟨houtbox, hrecorded, hstage, hbaseline, hsink⟩ := hfacts
  have howed : Owed w .hub ⟨1, "a"⟩ := by
    refine ⟨?_, hbaseline, ?_⟩
    · rw [hrecorded]
      exact List.mem_singleton_self _
    · rw [hsink]
      exact List.not_mem_nil
  have hin := (h w hw .hub (by rw [hstage]; nofun) _ howed).1
  rw [houtbox] at hin
  exact List.not_mem_nil hin

end DataFabric.SharedOutbox
