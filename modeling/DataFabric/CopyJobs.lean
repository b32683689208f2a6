import DataFabric.TransitionRuns
import Mathlib.Algebra.GroupWithZero.Nat
import Mathlib.Data.List.Basic

set_option autoImplicit false

/-!
# The copy job engine

Every statement on `copy_jobs` and `copy_checkpoints` is a step of its own, and so are the batches,
errors and crashes of the workers between them.
-/
namespace DataFabric.CopyJobs
open TransitionRuns

inductive JobKind | SYNC | CDC | REPLICATE | RESTORE
  deriving DecidableEq, Repr

inductive JobStatus | QUEUED | RUNNING | PAUSED | COMPLETED | FAILED
  deriving DecidableEq, Repr

inductive Control | RUN | PAUSE
  deriving DecidableEq, Repr

def JobStatus.active : JobStatus → Bool
  | QUEUED | RUNNING | PAUSED => true
  | COMPLETED | FAILED => false

structure JobKey where
  tenantId : String
  kind : JobKind
  jobRef : String
  deriving DecidableEq, Repr

/-- A row of `copy_jobs`, which keeps its place in the order of creation. -/
structure Job where
  key : JobKey
  forceFull : Bool
  status : JobStatus
  control : Control
  attempts : ℕ
  maxAttempts : ℕ
  claimedBy : Option String
  /-- The errors of the stored result. -/
  result : Option (List String)
  error : Option String
  rowsCopied : ℕ
  rowsTotal : ℕ
  /-- In tenths of a percent. -/
  progressPct : ℕ
  tablesDone : ℕ
  tablesTotal : ℕ
  heartbeatAt : Option ℕ
  deriving DecidableEq, Repr

structure Checkpoint where
  job : ℕ
  schemaName : String
  tableName : String
  cursorValue : Option String
  rowsCopied : ℕ
  totalRows : Option ℕ
  done : Bool
  deriving DecidableEq, Repr

inductive Phase
  | idle
  | copying
  /-- The checkpoint is written, its roll-up is not. -/
  | saving
  | returned (errors : List String)
  | paused
  | thrown (message : String)
  | ended
  deriving DecidableEq, Repr

/-- One call of `processOne` that claimed a job, with the row as the claim returned it. -/
structure Execution where
  job : ℕ
  key : JobKey
  forceFull : Bool
  attempts : ℕ
  maxAttempts : ℕ
  phase : Phase
  deriving DecidableEq, Repr

structure World where
  clock : ℕ
  jobs : List Job
  checkpoints : List Checkpoint
  executions : List Execution
  /-- The deduplicated `enqueue` calls that found no active job and have not inserted theirs. -/
  calls : List (JobKey × Bool)
  deriving DecidableEq, Repr

/-- Strategies of the replication jobs, by tenant and job id. -/
inductive Strategy | FULL | INCREMENTAL | CDC
  deriving DecidableEq, Repr

inductive Event
  | tick (ms : ℕ)
  | enqueue (key : JobKey) (forceFull : Bool)
  | check (key : JobKey) (forceFull : Bool)
  | insert (call : ℕ)
  /-- `SKIP LOCKED` passes over the rows other transactions hold. -/
  | claim (workerId : String) (locked : List ℕ)
  /-- The next turn of a copy loop, with a checkpoint provider or without one. -/
  | batch (x : ℕ) (checkpointed : Bool)
  | applied (x : ℕ)
  | save (x : ℕ) (schemaName tableName : String) (cursorValue : Option String) (rowsCopied : ℕ)
      (done : Bool) (totalRows : Option ℕ)
  | rollUp (x : ℕ)
  | finish (x : ℕ) (errors : List String)
  | fail (x : ℕ) (message : String)
  | settle (x : ℕ)
  | crash (x : ℕ)
  | reclaimStale
  | pause (tenantId : String) (job : ℕ)
  | resume (tenantId : String) (job : ℕ)
  deriving DecidableEq, Repr

def newJob (key : JobKey) (forceFull : Bool) : Job where
  key := key
  forceFull := forceFull
  status := .QUEUED
  control := .RUN
  attempts := 0
  maxAttempts := 3
  claimedBy := none
  result := none
  error := none
  rowsCopied := 0
  rowsTotal := 0
  progressPct := 0
  tablesDone := 0
  tablesTotal := 0
  heartbeatAt := none

def addJob (w : World) (key : JobKey) (forceFull : Bool) : World :=
  { w with jobs := w.jobs ++ [newJob key forceFull] }

def setJob (w : World) (i : ℕ) (f : Job → Job) : World := { w with jobs := w.jobs.modify i f }

def setPhase (w : World) (x : ℕ) (phase : Phase) : World :=
  { w with executions := w.executions.modify x fun e => { e with phase } }

def hasActive (w : World) (key : JobKey) : Bool := w.jobs.any fun j => j.key = key && j.status.active

def nextQueued (w : World) (locked : List ℕ) : Option ℕ :=
  (List.range w.jobs.length).find? fun i =>
    (w.jobs[i]?).any (·.status = .QUEUED) && !locked.contains i

def claimed (clock : ℕ) (workerId : String) (j : Job) : Job :=
  { j with
    status := .RUNNING
    control := .RUN
    attempts := j.attempts + 1
    claimedBy := some workerId
    heartbeatAt := some clock }

def upsertCheckpoint (cps : List Checkpoint) (cp : Checkpoint) : List Checkpoint :=
  if cps.any fun c => c.job = cp.job && c.schemaName = cp.schemaName && c.tableName = cp.tableName then
    cps.map fun c =>
      if c.job = cp.job ∧ c.schemaName = cp.schemaName ∧ c.tableName = cp.tableName then
        { cp with totalRows := cp.totalRows <|> c.totalRows }
      else c
  else cps ++ [cp]

def percentTenths (part whole : ℕ) : ℕ := (2000 * part + whole) / (2 * whole)

def rolledUp (clock : ℕ) (cps : List Checkpoint) (j : Job) : Job :=
  let rows := (cps.map (·.rowsCopied)).sum
  let total := (cps.map fun c => c.totalRows.getD 0).sum
  let done := cps.countP (·.done)
  { j with
    rowsCopied := rows
    rowsTotal := total
    tablesDone := done
    tablesTotal := cps.length
    progressPct :=
      if 0 < total then percentTenths rows total
      else if 0 < cps.length then percentTenths done cps.length
      else 0
    heartbeatAt := some clock }

def stale (staleMs : ℕ) (w : World) (j : Job) : Bool :=
  j.status = .RUNNING && j.heartbeatAt.any fun at_ => at_ + staleMs < w.clock

def requeued (staleMs : ℕ) (w : World) (j : Job) : Job :=
  if stale staleMs w j then { j with status := .QUEUED } else j

def pauseRow (tenantId : String) (j : Job) : Job :=
  if j.key.tenantId = tenantId ∧ (j.status = .RUNNING ∨ j.status = .QUEUED) then
    { j with control := .PAUSE }
  else j

def resumeRow (tenantId : String) (j : Job) : Job :=
  if j.key.tenantId = tenantId ∧ (j.status = .PAUSED ∨ j.status = .FAILED) then
    { j with status := .QUEUED, control := .RUN, error := none }
  else j

/-- What `processOne` writes once the executor has returned or thrown. -/
def settled (e : Execution) (j : Job) : Option Job :=
  match e.phase with
  | .returned [] =>
    some { j with status := .COMPLETED, result := some [], error := none, progressPct := 1000 }
  | .returned errors =>
    some { j with status := .FAILED, result := some errors, error := some ("; ".intercalate errors) }
  | .paused => some { j with status := .PAUSED }
  | .thrown message =>
    some { j with
      status := if e.attempts < e.maxAttempts then .QUEUED else .FAILED
      error := some message }
  | _ => none

def Execution.hasProvider (e : Execution) : Bool := e.key.kind ≠ .CDC

/-- Change-log drains and incremental reads run without a checkpoint provider. -/
def copiesUnprobed (strategies : JobKey → Strategy) (key : JobKey) (forceFull : Bool) : Bool :=
  match key.kind with
  | .SYNC => false
  | .CDC => true
  | .REPLICATE | .RESTORE => strategies key ≠ .FULL && !forceFull

/-- Still between its claim and the moment it returns or throws. -/
def Phase.working : Phase → Bool
  | .idle | .copying | .saving => true
  | _ => false

def Phase.live (p : Phase) : Bool := p ≠ .ended

/-- The continuation runs for an execution in a phase that allows it. -/
def during (w : World) (x : ℕ) (allowed : Phase → Bool) (next : Execution → Option World) :
    Option World :=
  (w.executions[x]?).bind fun e => if allowed e.phase then next e else none

def shouldStop (w : World) (job : ℕ) : Bool := (w.jobs[job]?).any (·.control = .PAUSE)

variable (staleMs : ℕ) (strategies : JobKey → Strategy)

def step (w : World) : Event → Option World
  | .tick ms => some { w with clock := w.clock + ms }
  | .enqueue key forceFull => some (addJob w key forceFull)
  | .check key forceFull =>
    if hasActive w key then some w else some { w with calls := w.calls ++ [(key, forceFull)] }
  | .insert call => (w.calls[call]?).map fun (key, forceFull) =>
      addJob { w with calls := w.calls.eraseIdx call } key forceFull
  | .claim workerId locked => match nextQueued w locked with
    | none => some w
    | some i => (w.jobs[i]?).map fun j =>
      { setJob w i (claimed w.clock workerId) with
        executions := w.executions ++ [⟨i, j.key, j.forceFull, j.attempts + 1, j.maxAttempts, .idle⟩] }
  | .batch x true => during w x (· = .idle) fun e =>
      if e.hasProvider then
        some (setPhase w x (if shouldStop w e.job then .paused else .copying))
      else none
  | .batch x false => during w x (· = .idle) fun e =>
      if copiesUnprobed strategies e.key e.forceFull then some (setPhase w x .copying) else none
  | .applied x => during w x (· = .copying) fun _ => some (setPhase w x .idle)
  | .save x schemaName tableName cursorValue rowsCopied done totalRows =>
    during w x (· = .idle) fun e =>
      if e.hasProvider then
        let cp := ⟨e.job, schemaName, tableName, cursorValue, rowsCopied, totalRows, done⟩
        some (setPhase { w with checkpoints := upsertCheckpoint w.checkpoints cp } x .saving)
      else none
  | .rollUp x => during w x (· = .saving) fun e =>
      some (setPhase (setJob w e.job (rolledUp w.clock (w.checkpoints.filter (·.job = e.job)))) x .idle)
  | .finish x errors => during w x (· = .idle) fun _ => some (setPhase w x (.returned errors))
  | .fail x message => during w x Phase.working fun _ => some (setPhase w x (.thrown message))
  | .settle x => during w x Phase.live fun e =>
      if e.phase.working then none
      else some (setPhase (setJob w e.job fun j => (settled e j).getD j) x .ended)
  | .crash x => during w x Phase.live fun _ => some (setPhase w x .ended)
  | .reclaimStale => some { w with jobs := w.jobs.map (requeued staleMs w) }
  | .pause tenantId job => some (setJob w job (pauseRow tenantId))
  | .resume tenantId job => some (setJob w job (resumeRow tenantId))

def initial : World := ⟨0, [], [], [], []⟩

def Event.execution : Event → Option ℕ
  | .batch x _ | .applied x | .save x _ _ _ _ _ _ | .rollUp x | .finish x _ | .fail x _ | .settle x
  | .crash x => some x
  | _ => none

def Event.isRequest : Event → Bool
  | .pause _ _ | .resume _ _ => true
  | _ => false

inductive Effect (w : World) : Event → World → Prop
  | quiet {e w'} (request : e.isRequest = false) (jobs : w'.jobs = w.jobs)
      (executions : w'.executions = w.executions) : Effect w e w'
  | moves {e w' x ex p} (request : e.isRequest = false) (found : w.executions[x]? = some ex)
      (live : ex.phase.live = true) (jobs : w'.jobs = w.jobs)
      (executions : w'.executions = (setPhase w x p).executions) : Effect w e w'
  | enqueues {key forceFull} : Effect w (.enqueue key forceFull) (addJob w key forceFull)
  | inserts {call key forceFull w'} (waiting : w.calls[call]? = some (key, forceFull))
      (jobs : w'.jobs = (addJob w key forceFull).jobs) (executions : w'.executions = w.executions) :
      Effect w (.insert call) w'
  | claims {workerId locked i j w'} (found : w.jobs[i]? = some j) (queued : j.status = .QUEUED)
      (next : nextQueued w locked = some i)
      (jobs : w'.jobs = (setJob w i (claimed w.clock workerId)).jobs)
      (executions : w'.executions =
        w.executions ++ [⟨i, j.key, j.forceFull, j.attempts + 1, j.maxAttempts, .idle⟩]) :
      Effect w (.claim workerId locked) w'
  | rolls {x ex} (found : w.executions[x]? = some ex) (live : ex.phase.live = true) :
      Effect w (.rollUp x) (setPhase (setJob w ex.job
        (rolledUp w.clock (w.checkpoints.filter (·.job = ex.job)))) x .idle)
  | settles {x ex} (found : w.executions[x]? = some ex) (live : ex.phase.live = true) :
      Effect w (.settle x) (setPhase (setJob w ex.job fun j => (settled ex j).getD j) x .ended)
  | reclaims : Effect w .reclaimStale { w with jobs := w.jobs.map (requeued staleMs w) }
  | pauses {tenantId job} : Effect w (.pause tenantId job) (setJob w job (pauseRow tenantId))
  | resumes {tenantId job} : Effect w (.resume tenantId job) (setJob w job (resumeRow tenantId))

theorem setJob_self {w : World} {i : ℕ} {j : Job} (f : Job → Job) (h : w.jobs[i]? = some j) :
    (setJob w i f).jobs[i]? = some (f j) := by
  rw [setJob, List.getElem?_modify_eq, h]
  rfl

theorem setJob_other {w : World} {i k : ℕ} (f : Job → Job) (h : i ≠ k) :
    (setJob w i f).jobs[k]? = w.jobs[k]? := List.getElem?_modify_ne f w.jobs h

theorem getElem?_addJob {w : World} {key : JobKey} {forceFull : Bool} {i : ℕ} {j : Job}
    (h : w.jobs[i]? = some j) : (addJob w key forceFull).jobs[i]? = some j := by
  obtain ⟨hlt, -⟩ := List.getElem?_eq_some_iff.mp h
  rw [addJob, List.getElem?_append_left hlt, h]

theorem settled_cases (ex : Execution) (j : Job) :
    ((settled ex j).getD j).key = j.key ∧ ((settled ex j).getD j).forceFull = j.forceFull ∧
      ((settled ex j).getD j).control = j.control := by
  unfold settled
  split <;> exact ⟨rfl, rfl, rfl⟩

theorem requeued_cases (staleMs : ℕ) (w : World) (j : Job) :
    (requeued staleMs w j).status = .QUEUED ∨ requeued staleMs w j = j := by
  unfold requeued
  split
  · exact .inl rfl
  · exact .inr rfl

theorem pauseRow_status (tenantId : String) (j : Job) : (pauseRow tenantId j).status = j.status := by
  unfold pauseRow
  split <;> rfl

theorem resumeRow_cases (tenantId : String) (j : Job) :
    ((resumeRow tenantId j).status = .QUEUED ∧ (j.status = .PAUSED ∨ j.status = .FAILED)) ∨
      resumeRow tenantId j = j := by
  unfold resumeRow
  split
  · exact .inl ⟨rfl, by tauto⟩
  · exact .inr rfl

theorem during_some {w w' : World} {x : ℕ} {allowed : Phase → Bool} {next : Execution → Option World}
    (h : during w x allowed next = some w') :
    ∃ ex, w.executions[x]? = some ex ∧ allowed ex.phase = true ∧ next ex = some w' := by
  obtain ⟨ex, hex, h⟩ := Option.bind_eq_some_iff.mp h
  split at h
  · exact ⟨ex, hex, by assumption, h⟩
  · cases h

theorem live_of_working {p : Phase} (h : p.working = true) : p.live = true := by
  cases p with
  | ended => cases h
  | _ => rfl

theorem nextQueued_some {w : World} {locked : List ℕ} {i : ℕ} (h : nextQueued w locked = some i) :
    ∃ j, w.jobs[i]? = some j ∧ j.status = .QUEUED := by
  have hi := List.find?_some h
  rw [Bool.and_eq_true, Option.any_eq_true] at hi
  obtain ⟨⟨j, hj, hqueued⟩, -⟩ := hi
  exact ⟨j, hj, of_decide_eq_true hqueued⟩

variable {staleMs strategies}

theorem step_effect {w w' : World} {e : Event} (h : step staleMs strategies w e = some w') :
    Effect staleMs w e w' := by
  cases e with
  | tick ms =>
    cases h
    exact .quiet rfl rfl rfl
  | enqueue key forceFull =>
    cases h
    exact .enqueues
  | check key forceFull =>
    change (if hasActive w key then some w else some _) = some w' at h
    split at h <;> cases h <;> exact .quiet rfl rfl rfl
  | insert call =>
    obtain ⟨⟨key, forceFull⟩, hcall, rfl⟩ := Option.map_eq_some_iff.mp h
    exact .inserts hcall rfl rfl
  | claim workerId locked =>
    cases hnext : nextQueued w locked with
    | none =>
      simp only [step, hnext] at h
      cases h
      exact .quiet rfl rfl rfl
    | some i =>
      simp only [step, hnext] at h
      obtain ⟨j, hj, rfl⟩ := Option.map_eq_some_iff.mp h
      obtain ⟨j', hj', hqueued⟩ := nextQueued_some hnext
      cases hj.symm.trans hj'
      exact .claims hj hqueued hnext rfl rfl
  | batch x checkpointed =>
    cases checkpointed with
    | true =>
      simp only [step] at h
      obtain ⟨ex, hex, hidle, h⟩ := during_some h
      split at h
      · cases h
        exact .moves rfl hex (by rw [of_decide_eq_true hidle]; rfl) rfl rfl
      · cases h
    | false =>
      simp only [step] at h
      obtain ⟨ex, hex, hidle, h⟩ := during_some h
      split at h
      · cases h
        exact .moves rfl hex (by rw [of_decide_eq_true hidle]; rfl) rfl rfl
      · cases h
  | applied x =>
    simp only [step] at h
    obtain ⟨ex, hex, hcopying, h⟩ := during_some h
    cases h
    exact .moves rfl hex (by rw [of_decide_eq_true hcopying]; rfl) rfl rfl
  | save x schemaName tableName cursorValue rowsCopied done totalRows =>
    simp only [step] at h
    obtain ⟨ex, hex, hidle, h⟩ := during_some h
    split at h
    · cases h
      exact .moves rfl hex (by rw [of_decide_eq_true hidle]; rfl) rfl rfl
    · cases h
  | rollUp x =>
    simp only [step] at h
    obtain ⟨ex, hex, hsaving, h⟩ := during_some h
    cases h
    exact .rolls hex (by rw [of_decide_eq_true hsaving]; rfl)
  | finish x errors =>
    simp only [step] at h
    obtain ⟨ex, hex, hidle, h⟩ := during_some h
    cases h
    exact .moves rfl hex (by rw [of_decide_eq_true hidle]; rfl) rfl rfl
  | fail x message =>
    simp only [step] at h
    obtain ⟨ex, hex, hworking, h⟩ := during_some h
    cases h
    exact .moves rfl hex (live_of_working hworking) rfl rfl
  | settle x =>
    simp only [step] at h
    obtain ⟨ex, hex, hlive, h⟩ := during_some h
    split at h
    · cases h
    · cases h
      exact .settles hex hlive
  | crash x =>
    simp only [step] at h
    obtain ⟨ex, hex, hlive, h⟩ := during_some h
    cases h
    exact .moves rfl hex hlive rfl rfl
  | reclaimStale =>
    cases h
    exact .reclaims
  | pause tenantId job =>
    cases h
    exact .pauses
  | resume tenantId job =>
    cases h
    exact .resumes

def SameTask (j j' : Job) : Prop := j'.key = j.key ∧ j'.forceFull = j.forceFull

theorem setJob_task {w : World} {i k : ℕ} {f : Job → Job} {j : Job} (hf : ∀ j, SameTask j (f j))
    (hj : w.jobs[k]? = some j) : ∃ j', (setJob w i f).jobs[k]? = some j' ∧ SameTask j j' := by
  by_cases hik : i = k
  · subst hik
    exact ⟨f j, setJob_self f hj, hf j⟩
  · exact ⟨j, (setJob_other f hik).trans hj, rfl, rfl⟩

theorem step_task {w w' : World} {e : Event} (h : step staleMs strategies w e = some w') {i : ℕ}
    {j : Job} (hj : w.jobs[i]? = some j) : ∃ j', w'.jobs[i]? = some j' ∧ SameTask j j' := by
  cases step_effect h with
  | quiet request jobs executions => exact ⟨j, jobs ▸ hj, rfl, rfl⟩
  | moves request found live jobs executions => exact ⟨j, jobs ▸ hj, rfl, rfl⟩
  | enqueues => exact ⟨j, getElem?_addJob hj, rfl, rfl⟩
  | inserts waiting jobs executions => exact ⟨j, jobs ▸ getElem?_addJob hj, rfl, rfl⟩
  | claims found queued next jobs executions =>
    rw [jobs]
    exact setJob_task (fun j => ⟨rfl, rfl⟩) hj
  | rolls found live => exact setJob_task (fun j => ⟨rfl, rfl⟩) hj
  | settles found live =>
    exact setJob_task (fun j => ⟨(settled_cases _ j).1, (settled_cases _ j).2.1⟩) hj
  | reclaims =>
    refine ⟨requeued staleMs w j, by rw [List.getElem?_map, hj, Option.map_some], ?_⟩
    unfold requeued
    split <;> exact ⟨rfl, rfl⟩
  | pauses =>
    refine setJob_task (fun j => ?_) hj
    unfold pauseRow
    split <;> exact ⟨rfl, rfl⟩
  | resumes =>
    refine setJob_task (fun j => ?_) hj
    unfold resumeRow
    split <;> exact ⟨rfl, rfl⟩

theorem step_execution {w w' : World} {e : Event} (h : step staleMs strategies w e = some w') {x : ℕ}
    {ex : Execution} (hx : w'.executions[x]? = some ex) :
    (∃ ex₀, w.executions[x]? = some ex₀ ∧ ex₀.job = ex.job ∧ ex₀.key = ex.key ∧
      ex₀.forceFull = ex.forceFull) ∨
      ∃ j, w.jobs[ex.job]? = some j ∧ j.key = ex.key ∧ j.forceFull = ex.forceFull := by
  have hmoved : ∀ {y : ℕ} {p : Phase} {w₀ : World}, w₀.executions = w.executions →
      (setPhase w₀ y p).executions[x]? = some ex → ∃ ex₀, w.executions[x]? = some ex₀ ∧
        ex₀.job = ex.job ∧ ex₀.key = ex.key ∧ ex₀.forceFull = ex.forceFull := by
    intro y p w₀ hsame hy
    rw [setPhase, List.getElem?_modify, hsame] at hy
    obtain ⟨ex₀, hex₀, rfl⟩ := Option.map_eq_some_iff.mp hy
    refine ⟨ex₀, hex₀, ?_⟩
    split <;> exact ⟨rfl, rfl, rfl⟩
  cases step_effect h with
  | quiet request jobs executions => exact .inl ⟨ex, executions ▸ hx, rfl, rfl, rfl⟩
  | moves request found live jobs executions => exact .inl (hmoved rfl (executions ▸ hx))
  | inserts waiting jobs executions => exact .inl ⟨ex, executions ▸ hx, rfl, rfl, rfl⟩
  | claims found queued next jobs executions =>
    rw [executions, List.getElem?_append] at hx
    split at hx
    · exact .inl ⟨ex, hx, rfl, rfl, rfl⟩
    · obtain rfl := List.mem_singleton.mp (List.mem_of_getElem? hx)
      exact .inr ⟨_, found, rfl, rfl⟩
  | rolls found live => exact .inl (hmoved rfl hx)
  | settles found live => exact .inl (hmoved rfl hx)
  | _ => exact .inl ⟨ex, hx, rfl, rfl, rfl⟩

end DataFabric.CopyJobs
