import DataFabric.CopyJobs

set_option autoImplicit false

/-!
# Attempts of copy jobs

A claim counts an attempt without asking how many there were; what keeps them bounded is who puts a
job back into the queue.
-/
namespace DataFabric.JobAttempts
open TransitionRuns CopyJobs

variable (staleMs : ℕ) (strategies : JobKey → Strategy)

def claimedJob (w : World) : Event → Option ℕ
  | .claim _ locked => nextQueued w locked
  | _ => none

def claimsOf (i : ℕ) : World → List Event → ℕ
  | _, [] => 0
  | w, e :: es => (if claimedJob w e = some i then 1 else 0) +
      (step staleMs strategies w e).elim 0 fun w' => claimsOf i w' es

def hasAttempts (j : Job) : Bool := j.attempts < j.maxAttempts

def ClaimsInTime (w : World) (e : Event) : Prop :=
  ∀ i j, claimedJob w e = some i → w.jobs[i]? = some j → j.attempts < j.maxAttempts

def retries : Execution → Bool
  | ⟨_, _, _, attempts, maxAttempts, .thrown _⟩ => attempts < maxAttempts
  | _ => false

def resumable (tenantId : String) (j : Job) : Bool :=
  j.key.tenantId = tenantId && (j.status = .PAUSED || j.status = .FAILED)

/-- A job that a reclaim, a retry or a user puts back into the queue has attempts left. -/
def requeuesInTime (w : World) : Event → Bool
  | .reclaimStale => w.jobs.all fun j => !stale staleMs w j || hasAttempts j
  | .settle x => (w.executions[x]?).all fun ex => !retries ex || (w.jobs[ex.job]?).all hasAttempts
  | .resume tenantId i => (w.jobs[i]?).all fun j => !resumable tenantId j || hasAttempts j
  | _ => true

/-- No job exceeds its attempts, and one that waits has some left. -/
def Bounded (w : World) : Prop :=
  ∀ j ∈ w.jobs, j.attempts ≤ j.maxAttempts ∧ (j.status = .QUEUED → j.attempts < j.maxAttempts)

variable {staleMs strategies} {w w' : World} {e : Event}

theorem bounded_setJob {i : ℕ} {f : Job → Job} (bounded : Bounded w)
    (written : ∀ j, w.jobs[i]? = some j → (f j).attempts ≤ (f j).maxAttempts ∧
      ((f j).status = .QUEUED → (f j).attempts < (f j).maxAttempts)) :
    ∀ j ∈ (setJob w i f).jobs, j.attempts ≤ j.maxAttempts ∧ (j.status = .QUEUED → j.attempts < j.maxAttempts) := by
  intro j inside
  rcases List.mem_iff_getElem?.mp inside with ⟨k, found⟩
  by_cases same : i = k
  · subst same
    cases old : w.jobs[i]? with
    | none =>
      rw [setJob, List.getElem?_modify_eq, old] at found
      cases found
    | some j' =>
      rw [setJob_self f old] at found
      cases found
      exact written j' old
  · rw [setJob_other f same] at found
    exact bounded j (List.mem_of_getElem? found)

theorem bounded_new (bounded : Bounded w) (key : JobKey) (forceFull : Bool) : Bounded (addJob w key forceFull) := by
  intro j inside
  rcases List.mem_append.mp inside with old | new
  · exact bounded j old
  · rw [List.mem_singleton.mp new]
    simp [newJob]

theorem settled_requeues {ex : Execution} {j : Job} (queued : ((settled ex j).getD j).status = .QUEUED) :
    retries ex = true ∨ j.status = .QUEUED := by
  obtain ⟨job, key, forceFull, attempts, maxAttempts, phase⟩ := ex
  cases phase with
  | returned errors => cases errors <;> cases queued
  | paused => cases queued
  | thrown message =>
    simp only [settled, Option.getD_some] at queued
    by_cases left : attempts < maxAttempts
    · exact .inl (decide_eq_true left)
    · rw [if_neg left] at queued
      cases queued
  | _ => exact .inr queued

theorem settled_attempts (ex : Execution) (j : Job) :
    ((settled ex j).getD j).attempts = j.attempts ∧ ((settled ex j).getD j).maxAttempts = j.maxAttempts := by
  unfold settled
  split <;> exact ⟨rfl, rfl⟩

theorem requeued_attempts (staleMs : ℕ) (w : World) (j : Job) :
    (requeued staleMs w j).attempts = j.attempts ∧ (requeued staleMs w j).maxAttempts = j.maxAttempts := by
  unfold requeued
  split <;> exact ⟨rfl, rfl⟩

theorem bounded_step (bounded : Bounded w) (inTime : requeuesInTime staleMs w e = true)
    (stepped : step staleMs strategies w e = some w') : Bounded w' := by
  cases step_effect stepped with
  | quiet request jobs executions =>
    unfold Bounded
    rw [jobs]
    exact bounded
  | moves request found live jobs executions =>
    unfold Bounded
    rw [jobs]
    exact bounded
  | enqueues => exact bounded_new bounded _ _
  | inserts waiting jobs executions =>
    unfold Bounded
    rw [jobs]
    exact bounded_new bounded _ _
  | claims found queued next jobs executions =>
    unfold Bounded
    rw [jobs]
    apply bounded_setJob bounded
    intro j old
    cases found.symm.trans old
    have left := (bounded _ (List.mem_of_getElem? found)).2 queued
    exact ⟨left, JobStatus.noConfusion⟩
  | rolls found live =>
    apply bounded_setJob bounded
    intro j old
    exact bounded j (List.mem_of_getElem? old)
  | @settles x ex found live =>
    apply bounded_setJob bounded
    intro j old
    have kept := settled_attempts ex j
    have before := bounded j (List.mem_of_getElem? old)
    rw [kept.1, kept.2]
    refine ⟨before.1, fun queued => ?_⟩
    rcases settled_requeues queued with again | waiting
    · simp only [requeuesInTime, found, Option.all_some, again, old] at inTime
      simpa [hasAttempts] using inTime
    · exact before.2 waiting
  | reclaims =>
    intro j inside
    rcases List.mem_map.mp inside with ⟨j₀, old, rfl⟩
    have kept := requeued_attempts staleMs w j₀
    have before := bounded j₀ old
    rw [kept.1, kept.2]
    refine ⟨before.1, fun queued => ?_⟩
    by_cases lost : stale staleMs w j₀ = true
    · have left := List.all_eq_true.mp inTime j₀ old
      simpa [lost, hasAttempts] using left
    · rw [requeued, if_neg lost] at queued
      exact before.2 queued
  | pauses =>
    apply bounded_setJob bounded
    intro j old
    have before := bounded j (List.mem_of_getElem? old)
    rw [pauseRow_status]
    unfold pauseRow
    split <;> exact before
  | @resumes tenantId i =>
    apply bounded_setJob bounded
    intro j old
    have before := bounded j (List.mem_of_getElem? old)
    unfold resumeRow
    split
    · rename_i chosen
      have left : resumable tenantId j = true := by simpa [resumable] using chosen
      simp only [requeuesInTime, old, Option.all_some, left] at inTime
      exact ⟨before.1, fun _ => by simpa [hasAttempts] using inTime⟩
    · exact before

def attemptsAt (w : World) (i : ℕ) : ℕ := (w.jobs[i]?).elim 0 (·.attempts)

theorem attemptsAt_setJob {k : ℕ} {f : Job → Job} (kept : ∀ j, (f j).attempts = j.attempts) (i : ℕ) :
    attemptsAt (setJob w k f) i = attemptsAt w i := by
  unfold attemptsAt setJob
  rw [List.getElem?_modify]
  cases w.jobs[i]? with
  | none => rfl
  | some j =>
    by_cases same : k = i
    · simp [same, kept]
    · simp [same]

theorem attemptsAt_new (key : JobKey) (forceFull : Bool) (i : ℕ) :
    attemptsAt (addJob w key forceFull) i = attemptsAt w i := by
  unfold attemptsAt addJob
  rw [List.getElem?_append]
  by_cases old : i < w.jobs.length
  · rw [if_pos old]
  · have absent : w.jobs[i]? = none := List.getElem?_eq_none (by omega)
    rw [if_neg old, absent]
    cases new : [newJob key forceFull][i - w.jobs.length]? with
    | none => rfl
    | some j =>
      rw [List.mem_singleton.mp (List.mem_of_getElem? new)]
      rfl

theorem attemptsAt_same {jobs : List Job} (same : w'.jobs = jobs) (i : ℕ) :
    attemptsAt w' i = (jobs[i]?).elim 0 (·.attempts) := by
  rw [attemptsAt, same]

theorem attempts_unclaimed {i : ℕ} (unclaimed : claimedJob w e ≠ some i)
    (same : attemptsAt w' i = attemptsAt w i) :
    attemptsAt w' i = attemptsAt w i + if claimedJob w e = some i then 1 else 0 := by
  rw [same, if_neg unclaimed, Nat.add_zero]

theorem unclaimed_of_length {i : ℕ} (stepped : step staleMs strategies w e = some w')
    (same : w'.executions.length = w.executions.length) : claimedJob w e ≠ some i := by
  intro claimed
  cases e with
  | claim workerId locked =>
    simp only [claimedJob] at claimed
    simp only [step, claimed] at stepped
    rcases Option.map_eq_some_iff.mp stepped with ⟨j, found, rfl⟩
    simp at same
  | _ => cases claimed

theorem attempts_step (stepped : step staleMs strategies w e = some w') (i : ℕ) :
    attemptsAt w' i = attemptsAt w i + if claimedJob w e = some i then 1 else 0 := by
  cases step_effect stepped with
  | quiet request jobs executions =>
    apply attempts_unclaimed (unclaimed_of_length stepped (by rw [executions]))
    rw [attemptsAt_same jobs, attemptsAt]
  | moves request found live jobs executions =>
    apply attempts_unclaimed (unclaimed_of_length stepped (by rw [executions, setPhase, List.length_modify]))
    rw [attemptsAt_same jobs, attemptsAt]
  | enqueues => exact attempts_unclaimed (by simp [claimedJob]) (attemptsAt_new _ _ i)
  | inserts waiting jobs executions =>
    apply attempts_unclaimed (by simp [claimedJob])
    rw [attemptsAt_same jobs]
    exact attemptsAt_new _ _ i
  | @claims workerId locked k j _ found queued next jobs executions =>
    rw [attemptsAt_same jobs, claimedJob, next]
    by_cases same : k = i
    · subst same
      rw [setJob_self _ found, attemptsAt, found, if_pos rfl]
      rfl
    · rw [setJob_other _ same, if_neg fun equal => same (Option.some.inj equal)]
      rfl
  | @rolls x ex found live =>
    apply attempts_unclaimed (by simp [claimedJob])
    exact attemptsAt_setJob (f := rolledUp w.clock (w.checkpoints.filter (·.job = ex.job))) (fun j => rfl) i
  | @settles x ex found live =>
    apply attempts_unclaimed (by simp [claimedJob])
    have kept : attemptsAt (setJob w ex.job fun j => (settled ex j).getD j) i = attemptsAt w i :=
      attemptsAt_setJob (fun j => (settled_attempts ex j).1) i
    exact kept
  | reclaims =>
    apply attempts_unclaimed (by simp [claimedJob])
    unfold attemptsAt
    rw [List.getElem?_map]
    cases w.jobs[i]? with
    | none => rfl
    | some j => exact (requeued_attempts staleMs w j).1
  | pauses =>
    apply attempts_unclaimed (by simp [claimedJob])
    apply attemptsAt_setJob
    intro j
    unfold pauseRow
    split <;> rfl
  | resumes =>
    apply attempts_unclaimed (by simp [claimedJob])
    apply attemptsAt_setJob
    intro j
    unfold resumeRow
    split <;> rfl

theorem attempts_run {es : List Event} (ran : run (step staleMs strategies) w es = some w') (i : ℕ) :
    attemptsAt w' i = attemptsAt w i + claimsOf staleMs strategies i w es := by
  induction es generalizing w with
  | nil =>
    rw [run_nil, Option.some.injEq] at ran
    rw [ran]
    rfl
  | cons e es ih =>
    rw [run_cons, Option.bind_eq_some_iff] at ran
    rcases ran with ⟨middle, stepped, rest⟩
    have first := attempts_step stepped i
    have later := ih rest
    rw [claimsOf, stepped]
    change attemptsAt w' i = attemptsAt w i + ((if claimedJob w e = some i then 1 else 0) +
      claimsOf staleMs strategies i middle es)
    omega

theorem bounded_initial : Bounded initial := by
  intro j inside
  cases inside

theorem bounded_run {es : List Event} (ran : run (step staleMs strategies) initial es = some w)
    (inTime : Throughout (step staleMs strategies) (fun w e => requeuesInTime staleMs w e = true) initial es) :
    Bounded w := by
  apply run_preserves_under ran inTime bounded_initial
  intro e inside s s' before allowed stepped
  exact bounded_step before allowed stepped

theorem claims_in_time (bounded : Bounded w) : ClaimsInTime w e := by
  intro i j claimed found
  cases e with
  | claim workerId locked =>
    rcases nextQueued_some claimed with ⟨j', found', queued⟩
    cases found.symm.trans found'
    exact (bounded j (List.mem_of_getElem? found)).2 queued
  | _ => cases claimed

/-- As long as jobs go back into the queue only with attempts left, every claim has one left, and no job is
claimed more often than it has attempts, whoever pauses and resumes it in between. -/
theorem attempts_stay_bounded (staleMs : ℕ) (strategies : JobKey → Strategy) (es : List Event) (w : World)
    (ran : run (step staleMs strategies) initial es = some w)
    (inTime : Throughout (step staleMs strategies) (fun w e => requeuesInTime staleMs w e = true) initial es) :
    Throughout (step staleMs strategies) ClaimsInTime initial es ∧
      ∀ i j, w.jobs[i]? = some j → claimsOf staleMs strategies i initial es ≤ j.maxAttempts := by
  constructor
  · intro before e after m split reached
    apply claims_in_time
    apply bounded_run reached
    intro before' e' after' m' split' reached'
    refine inTime before' e' (after' ++ e :: after) m' ?_ reached'
    rw [split, split', List.append_assoc, List.cons_append]
  · intro i j found
    have counted := attempts_run ran i
    have most := (bounded_run ran inTime j (List.mem_of_getElem? found)).1
    have start : attemptsAt initial i = 0 := by simp [attemptsAt, initial]
    rw [attemptsAt, found, start] at counted
    change j.attempts = 0 + _ at counted
    omega

def restore : JobKey := ⟨"acme", .RESTORE, "nightly"⟩

/-- The worker dies after its claim, and a minute later the job is queued again. -/
def crashing (x : ℕ) : List Event := [.claim "worker" [], .crash x, .tick 60001, .reclaimStale]

def crashLoop : List Event :=
  .enqueue restore false :: (crashing 0 ++ crashing 1 ++ crashing 2 ++ [.claim "worker" []])

/-- The fourth claim finds all three attempts used up. -/
theorem fourth_claim : ∃ w, run (step 60000 fun _ => .FULL) initial crashLoop = some w ∧
    ¬ Throughout (step 60000 fun _ => .FULL) ClaimsInTime initial crashLoop ∧
    ∃ j, w.jobs[0]? = some j ∧ j.maxAttempts < claimsOf 60000 (fun _ => .FULL) 0 initial crashLoop := by
  refine ⟨_, rfl, fun inTime => ?_, _, rfl, by decide⟩
  have last := inTime (.enqueue restore false :: (crashing 0 ++ crashing 1 ++ crashing 2)) (.claim "worker" []) [] _
    rfl rfl 0 _ rfl rfl
  exact absurd last (by decide)

def unlucky : List Event :=
  [.enqueue restore false, .claim "worker" [], .fail 0 "timeout", .settle 0, .claim "worker" [], .crash 1, .tick 60001,
    .reclaimStale, .claim "worker" [], .fail 2 "timeout", .settle 2, .claim "worker" []]

theorem unlucky_bounded : ∃ w, run (step 60000 fun _ => .FULL) initial unlucky = some w ∧
    Throughout (step 60000 fun _ => .FULL) ClaimsInTime initial unlucky ∧
    ∀ i j, w.jobs[i]? = some j → claimsOf 60000 (fun _ => .FULL) i initial unlucky ≤ j.maxAttempts := by
  have ran : run (step 60000 fun _ => .FULL) initial unlucky = some _ := rfl
  refine ⟨_, ran, attempts_stay_bounded 60000 (fun _ => .FULL) unlucky _ ran ?_⟩
  apply throughout_of_checks
  decide

end DataFabric.JobAttempts
