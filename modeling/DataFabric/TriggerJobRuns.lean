import DataFabric.TriggerJobs

set_option autoImplicit false

/-! # Exclusive runs of trigger jobs -/
namespace DataFabric.TriggerJobRuns
open TransitionRuns TriggerJobs

def executions (w : World) (i : ℕ) : ℕ := w.begun.countP fun a => a.job = i

def WorkedOn (w : World) (i : ℕ) : Prop :=
  ∃ (x : ℕ) (e : Execution), w.executions[x]? = some e ∧ e.phase.active = true ∧ e.job = i

structure RunsExclusively (w : World) : Prop where
  once : (w.begun.map Attempt.key).Nodup
  unsettled : ∀ a ∈ w.begun, a.found ≠ .COMPLETED ∧ a.found ≠ .CANCELLED
  bounded : ∀ i j, w.jobs[i]? = some j → executions w i ≤ j.maxAttempts
  attended : ∀ i j, w.jobs[i]? = some j → j.status = .RUNNING → WorkedOn w i

def asClaimed (w : World) (e : Execution) : Bool := (w.jobs[e.job]?).any fun j =>
  j.status = .PENDING && j.attempts = e.row.attempts && j.round = e.row.round

/-- A job begins, or fails before it begins, only while its row is as claimed, a recurring job only
until it has used up its attempts; only waiting jobs are retried by hand, workers die between jobs, and no statement
fails inside the transaction of a deployment. -/
def keepsExclusive (w : World) : Event → Bool
  | .begin x => (w.executions[x]?).all fun e => asClaimed w e &&
      (e.row.jobType ≠ .SCHEDULE_TRIGGER || executions w e.job < e.row.maxAttempts)
  | .fail x => (w.executions[x]?).all fun e => e.phase.active || asClaimed w e
  | .retryJob tenantId job => (w.jobs[job]?).all fun j => j.tenantId ≠ tenantId || j.status = .PENDING
  | .abort x | .crash x => (w.executions[x]?).all fun e => !e.phase.active
  | _ => true

def KeepsExclusive (w : World) (e : Event) : Prop := keepsExclusive w e = true

instance (w : World) (e : Event) : Decidable (KeepsExclusive w e) := inferInstanceAs (Decidable (_ = _))

structure Accounted (begun : List Attempt) (i : ℕ) (j : Job) : Prop where
  waiting : j.status = .PENDING → ∀ a ∈ begun, a.job = i → a.turn < j.turn
  running : j.status = .RUNNING → ∀ a ∈ begun, a.job = i → a.turn ≤ j.turn
  room : j.status = .PENDING ∨ j.status = .RUNNING → j.attempts < j.maxAttempts
  bounded : begun.countP (·.job = i) ≤ j.maxAttempts
  spent : j.jobType ≠ .SCHEDULE_TRIGGER → j.status = .PENDING → begun.countP (·.job = i) ≤ j.attempts
  spending : j.jobType ≠ .SCHEDULE_TRIGGER → j.status = .RUNNING →
    begun.countP (·.job = i) ≤ j.attempts + 1

theorem accounted_fresh {begun : List Attempt} {i : ℕ} {j : Job} (hj : Fresh j)
    (hnone : ∀ a ∈ begun, a.job ≠ i) : Accounted begun i j := by
  have hcount : begun.countP (·.job = i) = 0 := by
    rw [List.countP_eq_zero]
    intro a ha
    simpa using hnone a ha
  constructor
  · intro _ a ha hai
    exact absurd hai (hnone a ha)
  · intro hrunning
    rw [hj.pending] at hrunning
    cases hrunning
  · intro _
    rw [hj.attempts]
    exact hj.allowed
  · omega
  · omega
  · omega

theorem accounted_settled {begun : List Attempt} {i : ℕ} {j : Job} (hpending : j.status ≠ .PENDING)
    (hrunning : j.status ≠ .RUNNING) (hbounded : begun.countP (·.job = i) ≤ j.maxAttempts) :
    Accounted begun i j := by
  constructor
  · exact fun h => absurd h hpending
  · exact fun h => absurd h hrunning
  · exact fun h => (h.elim hpending hrunning).elim
  · exact hbounded
  · exact fun _ h => absurd h hpending
  · exact fun _ h => absurd h hrunning

theorem accounted_congr {begun : List Attempt} {i : ℕ} {j j' : Job} (h : Accounted begun i j)
    (hstatus : j'.status = j.status) (hattempts : j'.attempts = j.attempts) (hround : j'.round = j.round)
    (htask : j'.task = j.task) : Accounted begun i j' := by
  have hturn : j'.turn = j.turn := by rw [Job.turn, Job.turn, hround, hattempts]
  simp only [Job.task, Prod.mk.injEq] at htask
  obtain ⟨htype, -, hmax⟩ := htask
  constructor
  · rw [hstatus, hturn]
    exact h.waiting
  · rw [hstatus, hturn]
    exact h.running
  · rw [hstatus, hattempts, hmax]
    exact h.room
  · rw [hmax]
    exact h.bounded
  · rw [htype, hstatus, hattempts]
    exact h.spent
  · rw [htype, hstatus, hattempts]
    exact h.spending

theorem accounted_cancelIf {begun : List Attempt} {i : ℕ} {j : Job} (p : Job → Bool)
    (h : Accounted begun i j) : Accounted begun i (cancelIf p j) := by
  unfold cancelIf
  split
  · exact accounted_settled (fun h => by cases h) (fun h => by cases h) h.bounded
  · exact h

theorem accounted_unlink {begun : List Attempt} {i : ℕ} {j : Job} (id : ℕ)
    (h : Accounted begun i j) : Accounted begun i (unlink id j) := by
  unfold unlink
  split
  · exact accounted_congr h rfl rfl rfl rfl
  · exact h

theorem countP_begin {begun : List Attempt} {i : ℕ} (a : Attempt) :
    (a :: begun).countP (·.job = i) = begun.countP (·.job = i) + if a.job = i then 1 else 0 := by
  rw [List.countP_cons]
  by_cases h : a.job = i <;> simp [h]

theorem accounted_other {begun : List Attempt} {i : ℕ} {j : Job} {a : Attempt}
    (h : Accounted begun i j) (ha : a.job ≠ i) : Accounted (a :: begun) i j := by
  have hcount : (a :: begun).countP (·.job = i) = begun.countP (·.job = i) := by
    rw [countP_begin, if_neg ha, Nat.add_zero]
  have hmem : ∀ b ∈ a :: begun, b.job = i → b ∈ begun := by
    intro b hb hbi
    obtain rfl | hb := List.mem_cons.mp hb
    · exact absurd hbi ha
    · exact hb
  constructor
  · exact fun hp b hb hbi => h.waiting hp b (hmem b hb hbi) hbi
  · exact fun hr b hb hbi => h.running hr b (hmem b hb hbi) hbi
  · exact h.room
  · rw [hcount]
    exact h.bounded
  · rw [hcount]
    exact h.spent
  · rw [hcount]
    exact h.spending

theorem accounted_begin {begun : List Attempt} {i : ℕ} {j : Job} {a : Attempt}
    (h : Accounted begun i j) (hpending : j.status = .PENDING) (hjob : a.job = i)
    (hturn : a.turn = j.turn)
    (hrecurring : j.jobType = .SCHEDULE_TRIGGER → begun.countP (·.job = i) < j.maxAttempts) :
    Accounted (a :: begun) i { j with status := .RUNNING } := by
  have hcount : (a :: begun).countP (·.job = i) = begun.countP (·.job = i) + 1 := by
    rw [countP_begin, if_pos hjob]
  have hroom := h.room (.inl hpending)
  constructor
  · intro hp
    cases hp
  · intro _ b hb hbi
    obtain rfl | hb := List.mem_cons.mp hb
    · exact hturn.le
    · exact (h.waiting hpending b hb hbi).le
  · exact fun _ => hroom
  · rw [hcount]
    by_cases htype : j.jobType = .SCHEDULE_TRIGGER
    · exact hrecurring htype
    · have hspent := h.spent htype hpending
      change _ ≤ j.maxAttempts
      omega
  · intro _ hp
    cases hp
  · intro htype _
    have hspent := h.spent htype hpending
    rw [hcount]
    change _ ≤ j.attempts + 1
    omega

theorem accounted_settle {begun : List Attempt} {i : ℕ} {j : Job} {clock : ℕ} {cron : Option ℕ}
    {e : Execution} (h : Accounted begun i j) (hrunning : j.status = .RUNNING)
    (htask : j.task = e.row.task) : Accounted begun i (settled clock cron e j) := by
  unfold settled
  split
  · rename_i htype
    have hschedule : j.jobType = .SCHEDULE_TRIGGER := (congrArg Prod.fst htask).trans htype
    constructor
    · intro _ a ha hai
      have hpast := h.running hrunning a ha hai
      unfold Job.turn at hpast ⊢
      change _ < j.round + 1 + j.attempts
      omega
    · intro hr
      cases hr
    · exact fun _ => h.room (.inr hrunning)
    · exact h.bounded
    · exact fun hno => absurd hschedule hno
    · intro _ hr
      cases hr
  · exact accounted_settled (fun h => by cases h) (fun h => by cases h) h.bounded

theorem accounted_fail {begun : List Attempt} {i : ℕ} {j : Job} {clock : ℕ} {e : Execution}
    (h : Accounted begun i j) (hopen : j.status = .PENDING ∨ j.status = .RUNNING)
    (hattempts : j.attempts = e.row.attempts) (htask : j.task = e.row.task) :
    Accounted begun i (failed clock e j) := by
  have hmax : j.maxAttempts = e.row.maxAttempts := congrArg (·.2.2) htask
  by_cases hfinal : e.final = true
  · refine accounted_settled ?_ ?_ h.bounded <;>
      · rw [failed, if_pos hfinal]
        exact fun h => by cases h
  · have hmore : j.attempts + 1 < j.maxAttempts := by
      rw [Execution.final, decide_eq_true_eq] at hfinal
      omega
    have hstatus : (failed clock e j).status = .PENDING := if_neg hfinal
    have hnumber : (failed clock e j).attempts = j.attempts + 1 := by
      rw [hattempts]
      rfl
    have hturn : (failed clock e j).turn = j.turn + 1 := by
      rw [Job.turn, hnumber, Job.turn]
      exact (Nat.add_assoc _ _ _).symm
    constructor
    · intro _ a ha hai
      rw [hturn]
      obtain hpending | hrunning := hopen
      · exact (h.waiting hpending a ha hai).trans (Nat.lt_succ_self _)
      · exact Nat.lt_succ_of_le (h.running hrunning a ha hai)
    · intro hr
      rw [hstatus] at hr
      cases hr
    · intro _
      rw [hnumber]
      exact hmore
    · exact h.bounded
    · intro htype _
      rw [hnumber]
      obtain hpending | hrunning := hopen
      · exact (h.spent htype hpending).trans (Nat.le_succ _)
      · exact h.spending htype hrunning
    · intro _ hr
      rw [hstatus] at hr
      cases hr

/-- The job an execution works on, and the row its tick has read. -/
def activeAt (w : World) (x : ℕ) : Option (ℕ × Job) :=
  (w.executions[x]?).bind fun e => if e.phase.active then some (e.job, e.row) else none

def runningAs (j : Job) : Option (ℕ × ℕ) :=
  if j.status = .RUNNING then some (j.attempts, j.round) else none

def runningAt (w : World) (i : ℕ) : Option (ℕ × ℕ) := (w.jobs[i]?).bind runningAs

/-- Every execution that goes on is the only one of a running job, and every running job has one. -/
structure Attended (w : World) : Prop where
  held : ∀ x i row, activeAt w x = some (i, row) → runningAt w i = some (row.attempts, row.round)
  alone : ∀ x y i row row', activeAt w x = some (i, row) → activeAt w y = some (i, row') → x = y
  attended : ∀ i n, runningAt w i = some n → ∃ x row, activeAt w x = some (i, row)

theorem attended_same {w w' : World} (h : Attended w) (hactive : activeAt w' = activeAt w)
    (hrunning : runningAt w' = runningAt w) : Attended w' := by
  constructor
  · rw [hactive, hrunning]
    exact h.held
  · rw [hactive]
    exact h.alone
  · rw [hactive, hrunning]
    exact h.attended

theorem attended_begin {w w' : World} {x i : ℕ} {row : Job} (h : Attended w)
    (hidle : activeAt w x = none) (hfree : runningAt w i = none)
    (hactive : activeAt w' = Function.update (activeAt w) x (some (i, row)))
    (hrunning : runningAt w' = Function.update (runningAt w) i (some (row.attempts, row.round))) :
    Attended w' := by
  -- nothing else works on the job
  have hother : ∀ y r, activeAt w y = some (i, r) → False := by
    intro y r hy
    have hheld := h.held y i r hy
    rw [hfree] at hheld
    cases hheld
  constructor
  · intro y k r hy
    rw [hactive] at hy
    rw [hrunning]
    by_cases hyx : y = x
    · subst hyx
      rw [Function.update_self, Option.some.injEq, Prod.mk.injEq] at hy
      obtain ⟨rfl, rfl⟩ := hy
      rw [Function.update_self]
    · rw [Function.update_of_ne hyx] at hy
      have hki : k ≠ i := by
        rintro rfl
        exact hother y r hy
      rw [Function.update_of_ne hki]
      exact h.held y k r hy
  · intro y z k r r' hy hz
    rw [hactive] at hy hz
    by_cases hyx : y = x
    · subst hyx
      rw [Function.update_self, Option.some.injEq, Prod.mk.injEq] at hy
      by_cases hzy : z = y
      · exact hzy.symm
      · rw [Function.update_of_ne hzy, ← hy.1] at hz
        exact (hother z r' hz).elim
    · rw [Function.update_of_ne hyx] at hy
      by_cases hzx : z = x
      · subst hzx
        rw [Function.update_self, Option.some.injEq, Prod.mk.injEq] at hz
        rw [← hz.1] at hy
        exact (hother y r hy).elim
      · rw [Function.update_of_ne hzx] at hz
        exact h.alone y z k r r' hy hz
  · intro k n hk
    rw [hrunning] at hk
    by_cases hki : k = i
    · subst hki
      exact ⟨x, row, by rw [hactive, Function.update_self]⟩
    · rw [Function.update_of_ne hki] at hk
      obtain ⟨y, r, hy⟩ := h.attended k n hk
      have hyx : y ≠ x := by
        rintro rfl
        rw [hidle] at hy
        cases hy
      exact ⟨y, r, by rw [hactive, Function.update_of_ne hyx, hy]⟩

theorem attended_end {w w' : World} {x i : ℕ} {row : Job} (h : Attended w)
    (hx : activeAt w x = some (i, row)) (hactive : activeAt w' = Function.update (activeAt w) x none)
    (hrunning : runningAt w' = Function.update (runningAt w) i none) : Attended w' := by
  have hbefore : ∀ y k r, activeAt w' y = some (k, r) → y ≠ x ∧ activeAt w y = some (k, r) := by
    intro y k r hy
    rw [hactive] at hy
    by_cases hyx : y = x
    · subst hyx
      rw [Function.update_self] at hy
      cases hy
    · rw [Function.update_of_ne hyx] at hy
      exact ⟨hyx, hy⟩
  constructor
  · intro y k r hy
    obtain ⟨hyx, hy⟩ := hbefore y k r hy
    have hki : k ≠ i := by
      rintro rfl
      exact hyx (h.alone y x k r row hy hx)
    rw [hrunning, Function.update_of_ne hki]
    exact h.held y k r hy
  · intro y z k r r' hy hz
    exact h.alone y z k r r' (hbefore y k r hy).2 (hbefore z k r' hz).2
  · intro k n hk
    rw [hrunning] at hk
    by_cases hki : k = i
    · subst hki
      rw [Function.update_self] at hk
      cases hk
    · rw [Function.update_of_ne hki] at hk
      obtain ⟨y, r, hy⟩ := h.attended k n hk
      have hyx : y ≠ x := by
        rintro rfl
        rw [hx, Option.some.injEq, Prod.mk.injEq] at hy
        exact hki hy.1.symm
      exact ⟨y, r, by rw [hactive, Function.update_of_ne hyx, hy]⟩

theorem activeAt_found {w : World} {x : ℕ} {e : Execution} (he : w.executions[x]? = some e) :
    activeAt w x = if e.phase.active then some (e.job, e.row) else none := by
  rw [activeAt, he, Option.bind_some]

theorem activeAt_setPhase {w w' : World} {x : ℕ} {e : Execution} {p : Phase}
    (he : w.executions[x]? = some e) (hexecutions : w'.executions = (setPhase w x p).executions) :
    activeAt w' = Function.update (activeAt w) x (if p.active then some (e.job, e.row) else none) := by
  funext y
  rw [activeAt, hexecutions]
  by_cases hyx : y = x
  · subst hyx
    rw [setPhase_self p he, Function.update_self, Option.bind_some]
  · rw [setPhase_other p (Ne.symm hyx), Function.update_of_ne hyx, activeAt]

theorem activeAt_moves {w w' : World} {x : ℕ} {e : Execution} {p : Phase}
    (he : w.executions[x]? = some e) (hphase : p.active = e.phase.active)
    (hexecutions : w'.executions = (setPhase w x p).executions) : activeAt w' = activeAt w := by
  rw [activeAt_setPhase he hexecutions, hphase, ← activeAt_found he, Function.update_eq_self]

theorem activeAt_executions {w w' : World} (h : w'.executions = w.executions) :
    activeAt w' = activeAt w := by
  funext x
  rw [activeAt, h, activeAt]

theorem activeAt_tick {w : World} (locked : List ℕ) :
    activeAt { w with executions := w.executions ++ batch w locked } = activeAt w := by
  funext x
  rw [activeAt, activeAt, List.getElem?_append]
  split
  · rfl
  · rename_i hlt
    rw [List.getElem?_eq_none (Nat.le_of_not_lt hlt), Option.bind_none, Option.bind_eq_none_iff]
    intro e he
    rw [(mem_batch (List.mem_of_getElem? he)).2.2]
    rfl

theorem runningAt_jobs {w w' : World} (h : w'.jobs = w.jobs) : runningAt w' = runningAt w := by
  funext i
  rw [runningAt, h, runningAt]

theorem runningAt_map {w w' : World} {f : Job → Job} (h : w'.jobs = w.jobs.map f)
    (hf : ∀ j, runningAs (f j) = runningAs j) : runningAt w' = runningAt w := by
  funext i
  rw [runningAt, runningAt, h, List.getElem?_map]
  cases w.jobs[i]? with
  | none => rfl
  | some j => exact hf j

theorem runningAt_setJob {w w' : World} {i : ℕ} {f : Job → Job} {j : Job} (hj : w.jobs[i]? = some j)
    (h : w'.jobs = (setJob w i f).jobs) :
    runningAt w' = Function.update (runningAt w) i (runningAs (f j)) := by
  funext k
  rw [runningAt, h]
  by_cases hki : k = i
  · subst hki
    rw [setJob_self f hj, Function.update_self, Option.bind_some]
  · rw [setJob_other f (Ne.symm hki), Function.update_of_ne hki, runningAt]

theorem runningAt_append {w w' : World} {new : List Job} (hnew : ∀ j ∈ new, Fresh j)
    (h : w'.jobs = w.jobs ++ new) : runningAt w' = runningAt w := by
  funext i
  rw [runningAt, runningAt, h, List.getElem?_append]
  split
  · rfl
  · rename_i hlt
    rw [List.getElem?_eq_none (Nat.le_of_not_lt hlt), Option.bind_none, Option.bind_eq_none_iff]
    intro j hj
    rw [runningAs, (hnew j (List.mem_of_getElem? hj)).pending]
    rfl

theorem runningAs_cancelIf {p : Job → Bool} (hp : ∀ j, p j = true → j.status = .PENDING) (j : Job) :
    runningAs (cancelIf p j) = runningAs j := by
  unfold cancelIf
  split
  · rename_i hj
    rw [runningAs, runningAs, hp j hj]
    rfl
  · rfl

theorem runningAs_unlink (id : ℕ) (j : Job) : runningAs (unlink id j) = runningAs j := by
  unfold unlink
  split <;> rfl

theorem cancels_pending {tenantId triggerName : String} {id : ℕ} {j : Job}
    (h : cancels tenantId id triggerName j = true) : j.status = .PENDING := by
  simp only [cancels, Bool.and_eq_true, decide_eq_true_eq] at h
  exact h.1.1.1

theorem sweeps_pending {row j : Job} (h : sweeps row j = true) : j.status = .PENDING := by
  simp only [sweeps, Bool.and_eq_true, decide_eq_true_eq] at h
  exact h.1.1

theorem runningAt_setJob_same {w w' : World} {i : ℕ} {f : Job → Job}
    (hf : ∀ j, w.jobs[i]? = some j → runningAs (f j) = runningAs j)
    (h : w'.jobs = (setJob w i f).jobs) : runningAt w' = runningAt w := by
  cases hj : w.jobs[i]? with
  | none =>
    have hsame : (setJob w i f).jobs = w.jobs := List.modify_eq_self (List.getElem?_eq_none_iff.mp hj)
    exact runningAt_jobs (h.trans hsame)
  | some j =>
    rw [runningAt_setJob hj h, hf j hj]
    refine (congrArg _ ?_).trans (Function.update_eq_self i (runningAt w))
    rw [runningAt, hj, Option.bind_some]

theorem runningAs_failed (clock : ℕ) (e : Execution) (j : Job) : runningAs (failed clock e j) = none := by
  rw [runningAs, failed]
  by_cases hfinal : e.final = true <;> simp [hfinal]

theorem runningAs_settled (clock : ℕ) (cron : Option ℕ) (e : Execution) (j : Job) :
    runningAs (settled clock cron e j) = none := by
  unfold settled
  split <;> rfl

theorem asClaimed_iff {w : World} {e : Execution} : asClaimed w e = true ↔
    ∃ j, w.jobs[e.job]? = some j ∧ j.status = .PENDING ∧ j.attempts = e.row.attempts ∧
      j.round = e.row.round := by
  rw [asClaimed, Option.any_eq_true]
  simp only [Bool.and_eq_true, decide_eq_true_eq, and_assoc]

theorem attended_step {w w' : World} {e : Event} (h : Attended w) (hkeeps : KeepsExclusive w e)
    (hstep : step w e = some w') : Attended w' := by
  unfold KeepsExclusive at hkeeps
  cases step_effect hstep with
  | quiet jobs executions => exact attended_same h (activeAt_executions executions) (runningAt_jobs jobs)
  | enqueues origin jobs executions =>
    exact attended_same h (activeAt_executions executions) (runningAt_append (fun j hj => (origin j hj).fresh) jobs)
  | cancels found jobs executions =>
    refine attended_same h (activeAt_executions executions) (runningAt_map jobs ?_)
    exact runningAs_cancelIf fun _ => cancels_pending
  | retries =>
    refine attended_same h (activeAt_executions rfl) (runningAt_setJob_same (fun j hj => ?_) rfl)
    rw [keepsExclusive, hj, Option.all_some, Bool.or_eq_true, decide_eq_true_eq, decide_eq_true_eq]
      at hkeeps
    unfold retried
    split
    · rename_i htenant
      have hpending := hkeeps.resolve_left (not_not_intro htenant)
      rw [runningAs, runningAs, hpending]
    · rfl
  | claims => exact attended_same h (activeAt_tick _) (runningAt_jobs rfl)
  | begins found claimed row =>
    rw [keepsExclusive, found, Option.all_some, Bool.and_eq_true, asClaimed_iff] at hkeeps
    obtain ⟨⟨j', hj', hpending, hattempts, hround⟩, -⟩ := hkeeps
    refine attended_begin h ?_ ?_ (activeAt_setPhase found rfl) ?_
    · rw [activeAt_found found, claimed]
      rfl
    · rw [runningAt, hj', Option.bind_some, runningAs, hpending]
      rfl
    · refine (runningAt_setJob hj' rfl).trans ?_
      rw [← hattempts, ← hround]
      rfl
  | moves found move jobs executions =>
    exact attended_same h (activeAt_moves found (move.active.2.trans move.active.1.symm) executions)
      (runningAt_jobs jobs)
  | sweeps found dropped =>
    refine attended_same h (activeAt_moves found (by rw [dropped]; rfl) rfl) (runningAt_map rfl ?_)
    exact runningAs_cancelIf fun _ => sweeps_pending
  | @removes x ex found swept =>
    obtain hsame | ⟨id, r, -, -, hrow⟩ := deleteRow_cases w ex.row
    · rw [hsame]
      exact attended_same h (activeAt_moves found (by rw [swept]; rfl) rfl) (runningAt_jobs rfl)
    · rw [hrow]
      exact attended_same h (activeAt_moves found (by rw [swept]; rfl) rfl)
        (runningAt_map rfl (runningAs_unlink id))
  | @settles x ex cron found acted =>
    have hx : activeAt w x = some (ex.job, ex.row) := by
      rw [activeAt_found found, acted]
      rfl
    have hheld := h.held x _ _ hx
    obtain ⟨j, hj, -⟩ := Option.bind_eq_some_iff.mp hheld
    refine attended_end h hx (activeAt_setPhase found rfl) ?_
    exact (runningAt_setJob hj rfl).trans (by rw [runningAs_settled])
  | @fails x ex found live =>
    by_cases hactive : ex.phase.active = true
    · have hx : activeAt w x = some (ex.job, ex.row) := by
        rw [activeAt_found found, if_pos hactive]
      obtain ⟨j, hj, -⟩ := Option.bind_eq_some_iff.mp (h.held x _ _ hx)
      refine attended_end h hx (activeAt_setPhase found rfl) ?_
      exact (runningAt_setJob hj rfl).trans (by rw [runningAs_failed])
    · rw [Bool.not_eq_true] at hactive
      rw [keepsExclusive, found, Option.all_some, hactive, Bool.false_or, asClaimed_iff] at hkeeps
      obtain ⟨j, hj, hpending, -⟩ := hkeeps
      refine attended_same h (activeAt_moves (p := .ended) found hactive.symm rfl)
        (runningAt_setJob_same (fun j' hj' => ?_) rfl)
      cases hj.symm.trans hj'
      rw [runningAs_failed, runningAs, hpending]
      rfl
  | aborts found live | crashes found live =>
    rw [keepsExclusive, found, Option.all_some, Bool.not_eq_true'] at hkeeps
    exact attended_same h (activeAt_moves (p := .ended) found hkeeps.symm rfl) (runningAt_jobs rfl)

structure Accounts (w : World) : Prop where
  snapshots : Snapshots w
  attended : Attended w
  rows : ∀ i j, w.jobs[i]? = some j → Accounted w.begun i j
  known : ∀ a ∈ w.begun, a.job < w.jobs.length
  once : (w.begun.map Attempt.key).Nodup
  unsettled : ∀ a ∈ w.begun, a.found ≠ .COMPLETED ∧ a.found ≠ .CANCELLED

theorem accounts_initial : Accounts initial := by
  refine ⟨snapshots_initial, ⟨?_, ?_, ?_⟩, ?_, ?_, List.nodup_nil, ?_⟩
  · intro x i row h
    cases h
  · intro x y i row row' h
    cases h
  · intro i n h
    cases h
  · intro i j h
    cases h
  · exact List.forall_mem_nil _
  · exact List.forall_mem_nil _

theorem Accounts.row {w : World} (h : Accounts w) {x : ℕ} {e : Execution} {j : Job}
    (he : w.executions[x]? = some e) (hj : w.jobs[e.job]? = some j) : j.task = e.row.task := by
  obtain ⟨j', hj', htask⟩ := h.snapshots x e he
  cases hj.symm.trans hj'
  exact htask

theorem Accounts.running {w : World} (h : Accounts w) {x : ℕ} {e : Execution}
    (he : w.executions[x]? = some e) (hactive : e.phase.active = true) :
    ∃ j, w.jobs[e.job]? = some j ∧ j.status = .RUNNING ∧ j.attempts = e.row.attempts := by
  have hheld := h.attended.held x e.job e.row (by rw [activeAt_found he, if_pos hactive])
  obtain ⟨j, hj, hrunning⟩ := Option.bind_eq_some_iff.mp hheld
  unfold runningAs at hrunning
  split at hrunning
  · rename_i hstatus
    rw [Option.some.injEq, Prod.mk.injEq] at hrunning
    exact ⟨j, hj, hstatus, hrunning.1⟩
  · cases hrunning

theorem rows_map {w : World} {f : Job → Job} (h : Accounts w)
    (hf : ∀ i j, Accounted w.begun i j → Accounted w.begun i (f j)) (i : ℕ) (j' : Job)
    (hj' : (w.jobs.map f)[i]? = some j') : Accounted w.begun i j' := by
  rw [List.getElem?_map] at hj'
  obtain ⟨j, hj, rfl⟩ := Option.map_eq_some_iff.mp hj'
  exact hf i j (h.rows i j hj)

theorem rows_setJob {w : World} {k : ℕ} {f : Job → Job} (h : Accounts w)
    (hf : ∀ j, w.jobs[k]? = some j → Accounted w.begun k j → Accounted w.begun k (f j)) (i : ℕ) (j' : Job)
    (hj' : (setJob w k f).jobs[i]? = some j') : Accounted w.begun i j' := by
  obtain ⟨-, hj⟩ | ⟨rfl, j, hj, rfl⟩ := setJob_cases hj'
  · exact h.rows i j' hj
  · exact hf j hj (h.rows k j hj)

theorem rows_step {w w' : World} {e : Event} (h : Accounts w) (hkeeps : KeepsExclusive w e)
    (hstep : step w e = some w') (i : ℕ) (j : Job) (hj : w'.jobs[i]? = some j) :
    Accounted w'.begun i j := by
  unfold KeepsExclusive at hkeeps
  cases step_effect hstep with
  | quiet jobs executions begun =>
    rw [begun]
    exact h.rows i j (jobs ▸ hj)
  | enqueues origin jobs executions begun =>
    rw [begun]
    rw [jobs, List.getElem?_append] at hj
    split at hj
    · exact h.rows i j hj
    · rename_i hlt
      refine accounted_fresh (origin j (List.mem_of_getElem? hj)).fresh fun a ha hai => ?_
      have hknown := h.known a ha
      omega
  | cancels found jobs executions begun =>
    rw [begun]
    rw [jobs] at hj
    exact rows_map h (fun i j => accounted_cancelIf _) i j hj
  | retries =>
    refine rows_setJob h (fun j hj hrow => ?_) i j hj
    rw [keepsExclusive, hj, Option.all_some, Bool.or_eq_true, decide_eq_true_eq, decide_eq_true_eq]
      at hkeeps
    unfold retried
    split
    · rename_i htenant
      have hpending := hkeeps.resolve_left (not_not_intro htenant)
      exact accounted_congr hrow hpending.symm rfl rfl rfl
    · exact hrow
  | claims => exact h.rows i j hj
  | @begins x ex j₀ found claimed row =>
    rw [keepsExclusive, found, Option.all_some, Bool.and_eq_true, asClaimed_iff] at hkeeps
    obtain ⟨⟨j', hj', hpending, hattempts, hround⟩, hrecurring⟩ := hkeeps
    obtain ⟨hother, hold⟩ | ⟨hsame, j₁, hj₁, rfl⟩ := setJob_cases hj
    · exact accounted_other (h.rows i j hold) hother
    · subst hsame
      cases hj'.symm.trans hj₁
      have htask := h.row found hj'
      simp only [Job.task, Prod.mk.injEq] at htask
      refine accounted_begin (h.rows _ j' hj') hpending rfl ?_ fun htype => ?_
      · rw [Attempt.turn, Job.turn, hattempts, hround]
      · rw [← htask.1, ← htask.2.2, Bool.or_eq_true] at hrecurring
        exact hrecurring.elim (fun hno => absurd htype (of_decide_eq_true hno)) of_decide_eq_true
  | moves found move jobs executions begun =>
    rw [begun]
    exact h.rows i j (jobs ▸ hj)
  | sweeps found dropped => exact rows_map h (fun i j => accounted_cancelIf _) i j hj
  | @removes x ex found swept =>
    obtain hsame | ⟨id, r, -, -, hrow⟩ := deleteRow_cases w ex.row
    · rw [hsame] at hj ⊢
      exact h.rows i j hj
    · rw [hrow] at hj ⊢
      exact rows_map h (fun i j => accounted_unlink id) i j hj
  | settles found acted =>
    refine rows_setJob h (fun j hj hrow => ?_) i j hj
    obtain ⟨j', hj', hrunning, -⟩ := h.running found (by rw [acted]; rfl)
    cases hj.symm.trans hj'
    exact accounted_settle hrow hrunning (h.row found hj)
  | @fails x ex found live =>
    refine rows_setJob h (fun j hj hrow => ?_) i j hj
    have hopen : (j.status = .PENDING ∨ j.status = .RUNNING) ∧ j.attempts = ex.row.attempts := by
      rw [keepsExclusive, found, Option.all_some, Bool.or_eq_true, asClaimed_iff] at hkeeps
      obtain hactive | ⟨j', hj', hpending, hattempts, -⟩ := hkeeps
      · obtain ⟨j', hj', hrunning, hattempts⟩ := h.running found hactive
        cases hj.symm.trans hj'
        exact ⟨.inr hrunning, hattempts⟩
      · cases hj.symm.trans hj'
        exact ⟨.inl hpending, hattempts⟩
    exact accounted_fail hrow hopen.1 hopen.2 (h.row found hj)
  | aborts found live | crashes found live => exact h.rows i j hj

theorem begun_step {w w' : World} {e : Event} (hstep : step w e = some w') :
    w'.begun = w.begun ∨ ∃ x ex j, e = .begin x ∧ w.executions[x]? = some ex ∧
      w.jobs[ex.job]? = some j ∧ w'.begun = ⟨ex.job, ex.row.round, ex.row.attempts, j.status⟩ :: w.begun := by
  cases step_effect hstep with
  | quiet jobs executions begun => exact .inl begun
  | enqueues origin jobs executions begun => exact .inl begun
  | cancels found jobs executions begun => exact .inl begun
  | begins found claimed row => exact .inr ⟨_, _, _, rfl, found, row, rfl⟩
  | moves found move jobs executions begun => exact .inl begun
  | @removes x ex found swept =>
    obtain hsame | ⟨id, r, -, -, hrow⟩ := deleteRow_cases w ex.row
    · rw [hsame]
      exact .inl rfl
    · rw [hrow]
      exact .inl rfl
  | _ => exact .inl rfl

theorem accounts_step {w w' : World} {e : Event} (h : Accounts w) (hkeeps : KeepsExclusive w e)
    (hstep : step w e = some w') : Accounts w' := by
  have hlength : ∀ a ∈ w.begun, a.job < w'.jobs.length := by
    intro a ha
    have hlt := h.known a ha
    obtain ⟨j, hj, -⟩ := step_task hstep (List.getElem?_eq_getElem hlt)
    exact (List.getElem?_eq_some_iff.mp hj).1
  have hrows := rows_step h hkeeps hstep
  refine ⟨snapshots_step h.snapshots hstep, attended_step h.attended hkeeps hstep, hrows, ?_, ?_, ?_⟩
  · obtain hsame | ⟨x, ex, j, rfl, hex, hj, hbegun⟩ := begun_step hstep
    · rw [hsame]
      exact hlength
    · rw [hbegun]
      obtain ⟨j', hj', -⟩ := step_task hstep hj
      exact List.forall_mem_cons.mpr ⟨(List.getElem?_eq_some_iff.mp hj').1, hlength⟩
  · obtain hsame | ⟨x, ex, j, rfl, hex, hj, hbegun⟩ := begun_step hstep
    · rw [hsame]
      exact h.once
    · rw [hbegun, List.map_cons, List.nodup_cons]
      refine ⟨fun hmem => ?_, h.once⟩
      -- an earlier attempt of the job was for an earlier turn
      obtain ⟨a, ha, hkey⟩ := List.mem_map.mp hmem
      rw [KeepsExclusive, keepsExclusive, hex, Option.all_some, Bool.and_eq_true, asClaimed_iff]
        at hkeeps
      obtain ⟨⟨j', hj', hpending, hattempts, hround⟩, -⟩ := hkeeps
      simp only [Attempt.key, Prod.mk.injEq] at hkey
      have hpast := (h.rows _ j' hj').waiting hpending a ha hkey.1
      rw [Attempt.turn, Job.turn] at hpast
      omega
  · obtain hsame | ⟨x, ex, j, rfl, hex, hj, hbegun⟩ := begun_step hstep
    · rw [hsame]
      exact h.unsettled
    · rw [hbegun]
      rw [KeepsExclusive, keepsExclusive, hex, Option.all_some, Bool.and_eq_true, asClaimed_iff]
        at hkeeps
      obtain ⟨⟨j', hj', hpending, -⟩, -⟩ := hkeeps
      cases hj.symm.trans hj'
      refine List.forall_mem_cons.mpr ⟨?_, h.unsettled⟩
      rw [hpending]
      constructor
      · intro hcompleted
        cases hcompleted
      · intro hcancelled
        cases hcancelled

theorem Accounts.exclusive {w : World} (h : Accounts w) : RunsExclusively w := by
  refine ⟨h.once, h.unsettled, fun i j hj => (h.rows i j hj).bounded, fun i j hj hrunning => ?_⟩
  have hat : runningAt w i = some (j.attempts, j.round) := by
    rw [runningAt, hj, Option.bind_some, runningAs, if_pos hrunning]
  obtain ⟨x, row, hx⟩ := h.attended.attended i _ hat
  obtain ⟨e, he, hactive⟩ := Option.bind_eq_some_iff.mp hx
  split at hactive
  · rename_i hphase
    rw [Option.some.injEq, Prod.mk.injEq] at hactive
    exact ⟨x, e, he, hphase, hactive.1⟩
  · cases hactive

/-- As long as jobs begin as they were claimed, no worker dies at work, no deployment fails inside its transaction and
only waiting jobs are retried by hand, every attempt is executed once, within the limit, and no job is left running. -/
theorem runs_exclusively {w : World}
    (hreach : Reachable {initial} (restrict KeepsExclusive step) w) : RunsExclusively w := by
  have haccounts : Accounts w := by
    refine invariant (P := Accounts) ?_ ?_ hreach
    · rintro s rfl
      exact accounts_initial
    · intro s e s' hs hrestricted
      obtain ⟨hkeeps, hs'⟩ := restrict_some hrestricted
      exact accounts_step hs hkeeps hs'
  exact haccounts.exclusive

/-- The second tick claims the row before the first has changed it. -/
def overlappingTicks : List Event :=
  [.testChannel "acme" "EMAIL", .tick [], .tick [], .begin 0, .begin 1]

theorem overlapping_ticks_execute_twice : ∃ w, Reachable {initial} step w ∧
    w.begun.map Attempt.key = [(0, 0, 0), (0, 0, 0)] ∧ ¬RunsExclusively w := by
  have hrun : run step initial overlappingTicks = some _ := rfl
  refine ⟨_, reachable_run (.init rfl) hrun, rfl, fun h => ?_⟩
  exact absurd h.once (by decide)

def secondAttempt : List Event :=
  [.testChannel "acme" "EMAIL", .tick [], .begin 0, .fail 0, .advance 30, .tick [], .begin 1, .act 1,
    .settle 1 none]

theorem second_attempt_exclusive : ∃ w,
    run (restrict KeepsExclusive step) initial secondAttempt = some w ∧ w.begun.length = 2 ∧
      RunsExclusively w := by
  have hrun : run (restrict KeepsExclusive step) initial secondAttempt = some _ := rfl
  exact ⟨_, hrun, rfl, runs_exclusively (reachable_run (.init rfl) hrun)⟩

end DataFabric.TriggerJobRuns
