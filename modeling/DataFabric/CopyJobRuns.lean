import DataFabric.CopyJobs

set_option autoImplicit false

/-! # What holds in every run of the copy job engine -/
namespace DataFabric.CopyJobRuns
open TransitionRuns CopyJobs

/-- The job runs, and this execution is the one that claimed it last. -/
def Holds (w : World) (x i : ℕ) : Prop :=
  ∃ ex j, w.executions[x]? = some ex ∧ ex.job = i ∧ w.jobs[i]? = some j ∧ j.status = .RUNNING ∧
    j.attempts = ex.attempts

def settling : JobStatus → Bool
  | .COMPLETED | .FAILED | .PAUSED => true
  | _ => false

/-- The step settles a job, or writes its row at all as an execution, only under its claim. -/
structure ClaimGuarded (w : World) (e : Event) (w' : World) : Prop where
  settles : ∀ i j j', w.jobs[i]? = some j → w'.jobs[i]? = some j' → j.status ≠ j'.status →
    settling j'.status = true → ∃ x, e.execution = some x ∧ Holds w x i
  writes : ∀ x i, e.execution = some x → w'.jobs[i]? ≠ w.jobs[i]? → Holds w x i

def reclaimsDead (staleMs : ℕ) (w : World) : Bool :=
  w.executions.all fun ex => !ex.phase.live || !(w.jobs[ex.job]?).any (stale staleMs w)

def ReclaimsDead (staleMs : ℕ) (w : World) (e : Event) : Prop :=
  e = .reclaimStale → reclaimsDead staleMs w = true

instance (staleMs : ℕ) (w : World) (e : Event) : Decidable (ReclaimsDead staleMs w e) :=
  inferInstanceAs (Decidable (_ → _))

/-- Every execution that goes on has the claim of its job, and no other execution of the job does. -/
structure Claimed (w : World) : Prop where
  held : ∀ (x : ℕ) (ex : Execution), w.executions[x]? = some ex → ex.phase.live = true →
    ∃ j, w.jobs[ex.job]? = some j ∧ j.status = .RUNNING ∧ j.attempts = ex.attempts
  alone : ∀ (x y : ℕ) (ex ey : Execution), w.executions[x]? = some ex → w.executions[y]? = some ey →
    ex.phase.live = true → ey.phase.live = true → ex.job = ey.job → x = y

theorem claimed_initial : Claimed initial := by
  constructor
  · intro x ex h
    cases h
  · intro x y ex ey h
    cases h

theorem claimed_mono {w w' : World} (h : Claimed w)
    (hexecutions : ∀ (x : ℕ) (ex : Execution), w'.executions[x]? = some ex → ex.phase.live = true →
      ∃ e, w.executions[x]? = some e ∧ e.phase.live = true ∧ e.job = ex.job ∧ e.attempts = ex.attempts)
    (hjobs : ∀ (x : ℕ) (ex : Execution), w'.executions[x]? = some ex → ex.phase.live = true →
      ∀ j, w.jobs[ex.job]? = some j → j.status = .RUNNING →
        ∃ j', w'.jobs[ex.job]? = some j' ∧ j'.status = .RUNNING ∧ j'.attempts = j.attempts) :
    Claimed w' := by
  constructor
  · intro x ex hx hlive
    obtain ⟨e, he, helive, hjob, hattempts⟩ := hexecutions x ex hx hlive
    obtain ⟨j, hj, hrunning, heq⟩ := h.held x e he helive
    rw [hjob] at hj
    obtain ⟨j', hj', hrunning', heq'⟩ := hjobs x ex hx hlive j hj hrunning
    exact ⟨j', hj', hrunning', by omega⟩
  · intro x y ex ey hx hy hxlive hylive hsame
    obtain ⟨e, he, helive, hjob, -⟩ := hexecutions x ex hx hxlive
    obtain ⟨e', he', helive', hjob', -⟩ := hexecutions y ey hy hylive
    exact h.alone x y e e' he he' helive helive' (by omega)

theorem setPhase_execution {w w' : World} {x : ℕ} {p : Phase} {ex : Execution}
    (hexecutions : w'.executions = (setPhase w x p).executions) (hx : w.executions[x]? = some ex)
    (hlive : ex.phase.live = true) (y : ℕ) (ey : Execution) (hy : w'.executions[y]? = some ey)
    (hylive : ey.phase.live = true) :
    ∃ e, w.executions[y]? = some e ∧ e.phase.live = true ∧ e.job = ey.job ∧
      e.attempts = ey.attempts := by
  rw [hexecutions, setPhase, List.getElem?_modify] at hy
  obtain ⟨e, he, rfl⟩ := Option.map_eq_some_iff.mp hy
  by_cases hxy : x = y
  · subst hxy
    cases hx.symm.trans he
    rw [if_pos rfl]
    exact ⟨ex, hx, hlive, rfl, rfl⟩
  · rw [if_neg hxy] at hylive ⊢
    exact ⟨e, he, hylive, rfl, rfl⟩

theorem setJob_running {w : World} {i k : ℕ} {f : Job → Job} {j : Job}
    (hf : ∀ j : Job, j.status = .RUNNING → (f j).status = .RUNNING ∧ (f j).attempts = j.attempts)
    (hj : w.jobs[k]? = some j) (hrunning : j.status = .RUNNING) :
    ∃ j', (setJob w i f).jobs[k]? = some j' ∧ j'.status = .RUNNING ∧ j'.attempts = j.attempts := by
  by_cases hik : i = k
  · subst hik
    exact ⟨f j, setJob_self f hj, hf j hrunning⟩
  · exact ⟨j, (setJob_other f hik).trans hj, hrunning, rfl⟩

theorem same_executions {w w' : World} (h : w'.executions = w.executions) (x : ℕ) (ex : Execution)
    (hx : w'.executions[x]? = some ex) (hlive : ex.phase.live = true) :
    ∃ e, w.executions[x]? = some e ∧ e.phase.live = true ∧ e.job = ex.job ∧
      e.attempts = ex.attempts := ⟨ex, h ▸ hx, hlive, rfl, rfl⟩

variable {staleMs : ℕ} {strategies : JobKey → Strategy}

theorem claimed_claims {w w' : World} (h : Claimed w) {i : ℕ} {j : Job} {workerId : String}
    (hj : w.jobs[i]? = some j) (hqueued : j.status = .QUEUED)
    (hjobs : w'.jobs = (setJob w i (claimed w.clock workerId)).jobs)
    (hexecutions : w'.executions =
      w.executions ++ [⟨i, j.key, j.forceFull, j.attempts + 1, j.maxAttempts, .idle⟩]) :
    Claimed w' := by
  -- no execution goes on for a queued job
  have hfree : ∀ (x : ℕ) (ex : Execution), w.executions[x]? = some ex → ex.phase.live = true →
      ex.job ≠ i := by
    rintro x ex hx hlive rfl
    obtain ⟨j', hj', hrunning, -⟩ := h.held x ex hx hlive
    cases hj.symm.trans hj'
    cases hqueued.symm.trans hrunning
  have hcases : ∀ (x : ℕ) (ex : Execution), w'.executions[x]? = some ex →
      w.executions[x]? = some ex ∨ (x = w.executions.length ∧ ex.job = i ∧ ex.attempts = j.attempts + 1) := by
    intro x ex hx
    rw [hexecutions, List.getElem?_append] at hx
    split at hx
    · exact .inl hx
    · have hlast := List.getElem?_eq_some_iff.mp hx
      obtain ⟨hlt, heq⟩ := hlast
      simp only [List.length_singleton] at hlt
      have : x = w.executions.length := by omega
      subst this
      simp only [Nat.sub_self, List.getElem_singleton] at heq
      subst heq
      exact .inr ⟨rfl, rfl, rfl⟩
  constructor
  · intro x ex hx hlive
    rw [hjobs]
    obtain hold | ⟨-, rfl, hattempts⟩ := hcases x ex hx
    · obtain ⟨j', hj', hrunning, heq⟩ := h.held x ex hold hlive
      exact ⟨j', (setJob_other _ (hfree x ex hold hlive).symm).trans hj', hrunning, heq⟩
    · exact ⟨claimed w.clock workerId j, setJob_self _ hj, rfl, hattempts.symm⟩
  · intro x y ex ey hx hy hxlive hylive hsame
    obtain hx | ⟨hx, hxi, -⟩ := hcases x ex hx
    · obtain hy | ⟨-, hyi, -⟩ := hcases y ey hy
      · exact h.alone x y ex ey hx hy hxlive hylive hsame
      · exact absurd (hsame.trans hyi) (hfree x ex hx hxlive)
    · obtain hy | ⟨hy, -, -⟩ := hcases y ey hy
      · exact absurd (hsame.symm.trans hxi) (hfree y ey hy hylive)
      · omega

theorem claimed_step {w w' : World} {e : Event} (h : Claimed w) (hdead : ReclaimsDead staleMs w e)
    (hstep : step staleMs strategies w e = some w') : Claimed w' := by
  cases step_effect hstep with
  | quiet request jobs executions =>
    refine claimed_mono h (same_executions executions) fun x ex hx hlive j hj hrunning => ?_
    exact ⟨j, jobs ▸ hj, hrunning, rfl⟩
  | moves request found live jobs executions =>
    refine claimed_mono h (setPhase_execution executions found live) fun x ex hx hlive j hj hrunning => ?_
    exact ⟨j, jobs ▸ hj, hrunning, rfl⟩
  | enqueues =>
    refine claimed_mono h (same_executions rfl) fun x ex hx hlive j hj hrunning => ?_
    exact ⟨j, getElem?_addJob hj, hrunning, rfl⟩
  | inserts waiting jobs executions =>
    refine claimed_mono h (same_executions executions) fun x ex hx hlive j hj hrunning => ?_
    exact ⟨j, jobs ▸ getElem?_addJob hj, hrunning, rfl⟩
  | claims found queued next jobs executions => exact claimed_claims h found queued jobs executions
  | rolls found live =>
    refine claimed_mono h (setPhase_execution rfl found live) fun x ex hx hlive j hj hrunning => ?_
    exact setJob_running (fun j hj => ⟨hj, rfl⟩) hj hrunning
  | @settles x ex found live =>
    -- the job that is let go has no other execution
    refine claimed_mono h (setPhase_execution rfl found live) fun y ey hy hlive j hj hrunning => ?_
    obtain ⟨e, he, helive, hjob, -⟩ := setPhase_execution rfl found live y ey hy hlive
    have hother : ex.job ≠ ey.job := by
      intro hsame
      have hxy := h.alone x y ex e found he live helive (by omega)
      subst hxy
      rw [setPhase, List.getElem?_modify_eq] at hy
      obtain ⟨e', -, rfl⟩ := Option.map_eq_some_iff.mp hy
      cases hlive
    exact ⟨j, (setJob_other _ hother).trans hj, hrunning, rfl⟩
  | reclaims =>
    refine claimed_mono h (same_executions rfl) fun x ex hx hlive j hj hrunning => ?_
    have hfresh : stale staleMs w j = false := by
      have hall := List.all_eq_true.mp (hdead rfl) ex (List.mem_of_getElem? hx)
      rw [hlive, hj] at hall
      simpa using hall
    refine ⟨j, ?_, hrunning, rfl⟩
    rw [List.getElem?_map, hj, Option.map_some, requeued, if_neg (by rw [hfresh]; exact Bool.false_ne_true)]
  | pauses =>
    refine claimed_mono h (same_executions rfl) fun x ex hx hlive j hj hrunning => ?_
    refine setJob_running (fun j hj => ⟨(pauseRow_status _ j).trans hj, ?_⟩) hj hrunning
    unfold pauseRow
    split <;> rfl
  | resumes =>
    refine claimed_mono h (same_executions rfl) fun x ex hx hlive j hj hrunning => ?_
    refine setJob_running (fun j hj => ?_) hj hrunning
    rw [resumeRow, if_neg (by simp [hj])]
    exact ⟨hj, rfl⟩

theorem holds_of_live {w : World} (h : Claimed w) {x : ℕ} {ex : Execution}
    (hx : w.executions[x]? = some ex) (hlive : ex.phase.live = true) : Holds w x ex.job := by
  obtain ⟨j, hj, hrunning, hattempts⟩ := h.held x ex hx hlive
  exact ⟨ex, j, hx, rfl, hj, hrunning, hattempts⟩

theorem setJob_differs {w : World} {i k : ℕ} {f : Job → Job}
    (h : (setJob w i f).jobs[k]? ≠ w.jobs[k]?) : i = k := by
  by_contra hne
  exact h (setJob_other f hne)

theorem guarded_of_unsettled {w w' : World} {e : Event} (he : e.execution = none)
    (h : ∀ (i : ℕ) (j j' : Job), w.jobs[i]? = some j → w'.jobs[i]? = some j' →
      j.status ≠ j'.status → settling j'.status = false) : ClaimGuarded w e w' := by
  constructor
  · intro i j j' hj hj' hne hsettling
    rw [h i j j' hj hj' hne] at hsettling
    cases hsettling
  · intro x i hx
    rw [he] at hx
    cases hx

theorem guarded_of_same {w w' : World} {e : Event} (h : w'.jobs = w.jobs) : ClaimGuarded w e w' := by
  constructor
  · intro i j j' hj hj' hne
    rw [h, hj] at hj'
    cases hj'
    exact absurd rfl hne
  · intro x i _ hne
    rw [h] at hne
    exact absurd rfl hne

theorem guarded_of_holder {w : World} {x i : ℕ} {e : Event} {f : Job → Job} (he : e.execution = some x)
    (hholds : Holds w x i) (p : Phase) : ClaimGuarded w e (setPhase (setJob w i f) x p) := by
  constructor
  · intro k j j' hj hj' hne _
    have hdiffers : (setJob w i f).jobs[k]? ≠ w.jobs[k]? := by
      intro hsame
      cases hj'.symm.trans (hsame.trans hj)
      exact hne rfl
    exact ⟨x, he, setJob_differs hdiffers ▸ hholds⟩
  · intro y k hy hne
    cases he.symm.trans hy
    exact setJob_differs hne ▸ hholds

theorem guarded_setJob {w w' : World} {i : ℕ} {e : Event} {f : Job → Job} (he : e.execution = none)
    (hjobs : w'.jobs = (setJob w i f).jobs)
    (hf : ∀ j, w.jobs[i]? = some j → (f j).status ≠ j.status → settling (f j).status = false) :
    ClaimGuarded w e w' := by
  refine guarded_of_unsettled he fun k j j' hj hj' hne => ?_
  rw [hjobs] at hj'
  by_cases hik : i = k
  · subst hik
    rw [setJob_self f hj] at hj'
    cases hj'
    exact hf j hj hne.symm
  · rw [setJob_other f hik, hj] at hj'
    cases hj'
    exact absurd rfl hne

theorem guarded_step {w w' : World} {e : Event} (h : Claimed w)
    (hstep : step staleMs strategies w e = some w') : ClaimGuarded w e w' := by
  cases step_effect hstep with
  | quiet request jobs executions => exact guarded_of_same jobs
  | moves request found live jobs executions => exact guarded_of_same jobs
  | enqueues =>
    refine guarded_of_unsettled rfl fun i j j' hj hj' hne => ?_
    rw [getElem?_addJob hj] at hj'
    cases hj'
    exact absurd rfl hne
  | inserts waiting jobs executions =>
    refine guarded_of_unsettled rfl fun i j j' hj hj' hne => ?_
    rw [jobs, getElem?_addJob hj] at hj'
    cases hj'
    exact absurd rfl hne
  | claims found queued next jobs executions => exact guarded_setJob rfl jobs fun j _ _ => rfl
  | rolls found live => exact guarded_of_holder rfl (holds_of_live h found live) .idle
  | settles found live => exact guarded_of_holder rfl (holds_of_live h found live) .ended
  | reclaims =>
    refine guarded_of_unsettled rfl fun i j j' hj hj' hne => ?_
    rw [List.getElem?_map, hj] at hj'
    cases hj'
    obtain hqueued | hsame := requeued_cases staleMs w j
    · rw [hqueued]
      rfl
    · rw [hsame] at hne
      exact absurd rfl hne
  | pauses => exact guarded_setJob rfl rfl fun j _ hne => absurd (pauseRow_status _ j) hne
  | resumes =>
    refine guarded_setJob rfl rfl fun j _ hne => ?_
    obtain ⟨hqueued, -⟩ | hsame := resumeRow_cases _ j
    · rw [hqueued]
      rfl
    · rw [hsame] at hne
      exact absurd rfl hne

/-- As long as only jobs of dead workers are reclaimed, a job is settled and written by the worker
that has claimed it. -/
theorem claim_guards_every_write {w w' : World} {e : Event}
    (hreach : Reachable {initial} (restrict (ReclaimsDead staleMs) (step staleMs strategies)) w)
    (hstep : step staleMs strategies w e = some w') : ClaimGuarded w e w' := by
  refine guarded_step ?_ hstep
  refine invariant (P := Claimed) ?_ ?_ hreach
  · rintro s rfl
    exact claimed_initial
  · intro s e s' hs hrestricted
    obtain ⟨hdead, hs'⟩ := restrict_some hrestricted
    exact claimed_step hs hdead hs'

def nightlySync : JobKey := ⟨"acme", .SYNC, "orders"⟩

/-- The first worker stalls for longer than a minute and wakes up after the second has started. -/
def stalledWorker : List Event :=
  [.enqueue nightlySync false, .claim "worker-1" [], .tick 60001, .reclaimStale, .claim "worker-2" [],
    .finish 0 []]

theorem stalled_worker_settles : ∃ w w' j j',
    Reachable {initial} (step 60000 fun _ => .FULL) w ∧
      step 60000 (fun _ => .FULL) w (.settle 0) = some w' ∧
      w.jobs[0]? = some j ∧ j.status = .RUNNING ∧ j.claimedBy = some "worker-2" ∧
      w'.jobs[0]? = some j' ∧ j'.status = .COMPLETED ∧ ¬ClaimGuarded w (.settle 0) w' := by
  have hrun : run (step 60000 fun _ => .FULL) initial stalledWorker = some _ := rfl
  refine ⟨_, _, _, _, reachable_run (.init rfl) hrun, rfl, rfl, rfl, rfl, rfl, rfl, ?_⟩
  intro h
  obtain ⟨x, hx, ex, j, hex, -, hj, -, hattempts⟩ := h.settles 0 _ _ rfl rfl (by decide) rfl
  cases hx
  cases hex
  cases hj
  cases hattempts

/-- The first worker dies, and the second starts the job again a minute later. -/
def syncOnce : List Event :=
  [.enqueue nightlySync false, .claim "worker-1" [], .crash 0, .tick 60001, .reclaimStale, .claim "worker-2" [],
    .finish 1 []]

theorem claim_guards_syncOnce : ∃ w w',
    run (restrict (ReclaimsDead 60000) (step 60000 fun _ => .FULL)) initial syncOnce = some w ∧
      step 60000 (fun _ => .FULL) w (.settle 1) = some w' ∧ ClaimGuarded w (.settle 1) w' := by
  have hrun : run (restrict (ReclaimsDead 60000) (step 60000 fun _ => .FULL)) initial syncOnce =
    some _ := rfl
  exact ⟨_, _, hrun, rfl, claim_guards_every_write (reachable_run (.init rfl) hrun) rfl⟩

def matchesPause (w : World) (tenantId : String) (job : ℕ) : Bool :=
  (w.jobs[job]?).any fun j => j.key.tenantId = tenantId && (j.status = .RUNNING || j.status = .QUEUED)

/-- The jobs whose pause returned a row, until they are resumed. -/
def requests (w : World) (asked : ℕ → Bool) : Event → ℕ → Bool
  | .pause tenantId job => fun i => asked i || (i = job && matchesPause w tenantId job)
  | .resume _ job => fun i => asked i && i ≠ job
  | _ => asked

def watch (staleMs : ℕ) (strategies : JobKey → Strategy) (s : World × (ℕ → Bool)) (e : Event) :
    Option (World × (ℕ → Bool)) :=
  (step staleMs strategies s.1 e).map fun w' => (w', requests s.1 s.2 e)

def unasked : World × (ℕ → Bool) := (initial, fun _ => false)

/-- No execution starts a batch of a job whose pause is asked for. -/
def PauseHonoured (s : World × (ℕ → Bool)) (e : Event) (s' : World × (ℕ → Bool)) : Prop :=
  ∀ x checkpointed ex ex', e = .batch x checkpointed → s.1.executions[x]? = some ex →
    s'.1.executions[x]? = some ex' → ex'.phase = .copying → s.2 ex.job = false

/-- No claim takes a job with the pause flag, and pauses are for jobs that copy with a checkpoint
provider throughout. -/
def keepsPause (strategies : JobKey → Strategy) (w : World) : Event → Bool
  | .claim _ locked => (nextQueued w locked).all fun i => !shouldStop w i
  | .pause _ job => (w.jobs[job]?).all fun j => !copiesUnprobed strategies j.key j.forceFull
  | _ => true

def KeepsPause (strategies : JobKey → Strategy) (s : World × (ℕ → Bool)) (e : Event) : Prop :=
  keepsPause strategies s.1 e = true

instance (strategies : JobKey → Strategy) (s : World × (ℕ → Bool)) (e : Event) :
    Decidable (KeepsPause strategies s e) := inferInstanceAs (Decidable (_ = _))

def Assigned (w : World) : Prop := ∀ (x : ℕ) (ex : Execution), w.executions[x]? = some ex →
  ∃ j, w.jobs[ex.job]? = some j ∧ j.key = ex.key ∧ j.forceFull = ex.forceFull

/-- A job whose pause is asked for carries the flag and copies with a checkpoint provider. -/
structure Flagged (strategies : JobKey → Strategy) (s : World × (ℕ → Bool)) : Prop where
  assigned : Assigned s.1
  flag : ∀ i, s.2 i = true → shouldStop s.1 i = true
  probed : ∀ i j, s.2 i = true → s.1.jobs[i]? = some j →
    copiesUnprobed strategies j.key j.forceFull = false

theorem shouldStop_iff {w : World} {i : ℕ} :
    shouldStop w i = true ↔ ∃ j, w.jobs[i]? = some j ∧ j.control = .PAUSE := by
  simp [shouldStop, Option.any_eq_true]

theorem shouldStop_setJob {w : World} {i k : ℕ} {f : Job → Job} (h : shouldStop w k = true)
    (hf : i = k → ∀ j : Job, j.control = .PAUSE → (f j).control = .PAUSE) :
    shouldStop (setJob w i f) k = true := by
  rw [shouldStop_iff] at h ⊢
  obtain ⟨j, hj, hpause⟩ := h
  by_cases hik : i = k
  · subst hik
    exact ⟨f j, setJob_self f hj, hf rfl j hpause⟩
  · exact ⟨j, (setJob_other f hik).trans hj, hpause⟩

theorem shouldStop_congr {w w' : World} (h : w'.jobs = w.jobs) (i : ℕ) :
    shouldStop w' i = shouldStop w i := by rw [shouldStop, shouldStop, h]

theorem shouldStop_addJob {w : World} {key : JobKey} {forceFull : Bool} {i : ℕ}
    (h : shouldStop w i = true) : shouldStop (addJob w key forceFull) i = true := by
  rw [shouldStop_iff] at h ⊢
  obtain ⟨j, hj, hpause⟩ := h
  exact ⟨j, getElem?_addJob hj, hpause⟩

theorem requests_of_none {w : World} {asked : ℕ → Bool} {e : Event} (h : e.isRequest = false) :
    requests w asked e = asked := by
  cases e with
  | pause | resume => cases h
  | _ => rfl

theorem requeued_control (staleMs : ℕ) (w : World) (j : Job) :
    (requeued staleMs w j).control = j.control := by
  unfold requeued
  split <;> rfl

theorem assigned_step {w w' : World} {e : Event} (h : Assigned w)
    (hstep : step staleMs strategies w e = some w') : Assigned w' := by
  have hkept : ∀ {i : ℕ} {key : JobKey} {forceFull : Bool},
      (∃ j, w.jobs[i]? = some j ∧ j.key = key ∧ j.forceFull = forceFull) →
      ∃ j, w'.jobs[i]? = some j ∧ j.key = key ∧ j.forceFull = forceFull := by
    rintro i key forceFull ⟨j, hj, rfl, rfl⟩
    exact step_task hstep hj
  intro x ex hx
  obtain ⟨ex₀, hex₀, hjob, hkey, hforce⟩ | hnew := step_execution hstep hx
  · rw [← hjob, ← hkey, ← hforce]
    exact hkept (h x ex₀ hex₀)
  · exact hkept hnew

theorem flag_step {w w' : World} {asked : ℕ → Bool} {e : Event}
    (h : ∀ i, asked i = true → shouldStop w i = true)
    (hkeeps : keepsPause strategies w e = true) (hstep : step staleMs strategies w e = some w') {i : ℕ}
    (hi : requests w asked e i = true) : shouldStop w' i = true := by
  cases step_effect hstep with
  | quiet request jobs executions =>
    rw [requests_of_none request] at hi
    rw [shouldStop_congr jobs]
    exact h i hi
  | moves request found live jobs executions =>
    rw [requests_of_none request] at hi
    rw [shouldStop_congr jobs]
    exact h i hi
  | enqueues => exact shouldStop_addJob (h i hi)
  | inserts waiting jobs executions =>
    rw [shouldStop_congr jobs]
    exact shouldStop_addJob (h i hi)
  | @claims workerId locked k j w' found queued next jobs executions =>
    rw [shouldStop_congr jobs]
    refine shouldStop_setJob (h i hi) ?_
    rintro rfl
    -- a flagged job is not claimed
    have hflag := h k hi
    rw [keepsPause, next, Option.all_some, hflag] at hkeeps
    cases hkeeps
  | rolls found live => exact shouldStop_setJob (h i hi) fun _ j hj => hj
  | settles found live =>
    exact shouldStop_setJob (h i hi) fun _ j hj => (settled_cases _ j).2.2.trans hj
  | reclaims =>
    obtain ⟨j, hj, hpause⟩ := shouldStop_iff.mp (h i hi)
    refine shouldStop_iff.mpr ⟨requeued staleMs w j, ?_, (requeued_control staleMs w j).trans hpause⟩
    rw [List.getElem?_map, hj, Option.map_some]
  | @pauses tenantId job =>
    rw [requests, Bool.or_eq_true] at hi
    obtain hi | hi := hi
    · refine shouldStop_setJob (h i hi) fun _ j hj => ?_
      unfold pauseRow
      split
      · rfl
      · exact hj
    · rw [Bool.and_eq_true, matchesPause, Option.any_eq_true] at hi
      obtain ⟨hjob, j, hj, hmatches⟩ := hi
      obtain rfl := of_decide_eq_true hjob
      refine shouldStop_iff.mpr ⟨pauseRow tenantId j, setJob_self _ hj, ?_⟩
      rw [pauseRow, if_pos (by simpa using hmatches)]
  | @resumes tenantId job =>
    rw [requests, Bool.and_eq_true, decide_eq_true_eq] at hi
    exact shouldStop_setJob (h i hi.1) fun heq => absurd heq.symm hi.2

theorem requests_cases {w : World} {asked : ℕ → Bool} {e : Event} {i : ℕ}
    (h : requests w asked e i = true) :
    asked i = true ∨ ∃ tenantId j, e = .pause tenantId i ∧ w.jobs[i]? = some j := by
  cases e with
  | pause tenantId job =>
    rw [requests, Bool.or_eq_true, Bool.and_eq_true, matchesPause, Option.any_eq_true] at h
    obtain h | ⟨hjob, j, hj, -⟩ := h
    · exact .inl h
    · obtain rfl := of_decide_eq_true hjob
      exact .inr ⟨tenantId, j, rfl, hj⟩
  | resume tenantId job =>
    rw [requests, Bool.and_eq_true] at h
    exact .inl h.1
  | _ => exact .inl h

theorem flagged_step {s s' : World × (ℕ → Bool)} {e : Event} (h : Flagged strategies s)
    (hkeeps : KeepsPause strategies s e) (hstep : watch staleMs strategies s e = some s') :
    Flagged strategies s' := by
  obtain ⟨w, asked⟩ := s
  obtain ⟨w', hw', rfl⟩ := Option.map_eq_some_iff.mp hstep
  refine ⟨assigned_step h.assigned hw', fun i hi => flag_step h.flag hkeeps hw' hi, ?_⟩
  intro i j' hi hj'
  obtain hasked | ⟨tenantId, j, rfl, hj⟩ := requests_cases hi
  · obtain ⟨j, hj, -⟩ := shouldStop_iff.mp (h.flag i hasked)
    obtain ⟨j'', hj'', hkey, hforce⟩ := step_task hw' hj
    cases hj'.symm.trans hj''
    rw [hkey, hforce]
    exact h.probed i j hasked hj
  · obtain ⟨j'', hj'', hkey, hforce⟩ := step_task hw' hj
    cases hj'.symm.trans hj''
    rw [hkey, hforce]
    have hprobed : keepsPause strategies w (.pause tenantId i) = true := hkeeps
    rw [keepsPause, hj, Option.all_some] at hprobed
    simpa using hprobed

theorem batch_cases {w w' : World} {x : ℕ} {checkpointed : Bool} {ex ex' : Execution}
    (hx : w.executions[x]? = some ex)
    (hstep : step staleMs strategies w (.batch x checkpointed) = some w')
    (hx' : w'.executions[x]? = some ex') (hcopying : ex'.phase = .copying) :
    shouldStop w ex.job = false ∨ copiesUnprobed strategies ex.key ex.forceFull = true := by
  cases checkpointed with
  | true =>
    simp only [step] at hstep
    obtain ⟨e, he, -, hstep⟩ := during_some hstep
    cases hx.symm.trans he
    cases hstop : shouldStop w ex.job with
    | false => exact .inl rfl
    | true =>
      rw [hstop, if_pos rfl] at hstep
      split at hstep
      · cases hstep
        rw [setPhase, List.getElem?_modify_eq, hx] at hx'
        cases hx'
        cases hcopying
      · cases hstep
  | false =>
    simp only [step] at hstep
    obtain ⟨e, he, -, hstep⟩ := during_some hstep
    cases hx.symm.trans he
    split at hstep
    · exact .inr (by assumption)
    · cases hstep

/-- As long as no claim takes a job with the pause flag and pauses are for jobs that copy with a
checkpoint provider, nothing starts a batch between a pause and the resume. -/
theorem pause_honoured {s s' : World × (ℕ → Bool)} {e : Event}
    (hreach : Reachable {unasked} (restrict (KeepsPause strategies) (watch staleMs strategies)) s)
    (hstep : watch staleMs strategies s e = some s') : PauseHonoured s e s' := by
  have hflagged : Flagged strategies s := by
    refine invariant (P := Flagged strategies) ?_ ?_ hreach
    · rintro s rfl
      constructor
      · intro x ex hx
        cases hx
      · intro i hi
        cases hi
      · intro i j hi
        cases hi
    · intro s e s' hs hrestricted
      obtain ⟨hkeeps, hs'⟩ := restrict_some hrestricted
      exact flagged_step hs hkeeps hs'
  obtain ⟨w', hw', rfl⟩ := Option.map_eq_some_iff.mp hstep
  rintro x checkpointed ex ex' rfl hx hx' hcopying
  by_contra hne
  have hasked : s.2 ex.job = true := Bool.eq_true_of_not_eq_false hne
  obtain hrun | hunprobed := batch_cases hx hw' hx' hcopying
  · rw [hflagged.flag _ hasked] at hrun
    cases hrun
  · obtain ⟨j, hj, hkey, hforce⟩ := hflagged.assigned x ex hx
    have hprobed := hflagged.probed _ j hasked hj
    rw [hkey, hforce, hunprobed] at hprobed
    cases hprobed

def pausedWhileQueued : List Event :=
  [.enqueue nightlySync false, .pause "acme" 0, .claim "worker-1" []]

theorem pause_lost : ∃ s s' ex', Reachable {unasked} (watch 60000 fun _ => .FULL) s ∧ s.2 0 = true ∧
    watch 60000 (fun _ => .FULL) s (.batch 0 true) = some s' ∧
    s'.1.executions[0]? = some ex' ∧ ex'.phase = .copying ∧ ¬PauseHonoured s (.batch 0 true) s' := by
  have hrun : run (watch 60000 fun _ => .FULL) unasked pausedWhileQueued = some _ := rfl
  refine ⟨_, _, _, reachable_run (.init rfl) hrun, rfl, rfl, rfl, rfl, fun h => ?_⟩
  exact absurd (h 0 true _ _ rfl rfl rfl rfl) (by decide)

def pausedWhileRunning : List Event :=
  [.enqueue nightlySync false, .claim "worker-1" [], .batch 0 true, .pause "acme" 0, .applied 0]

theorem pause_honoured_nightlySync : ∃ s s',
    run (restrict (KeepsPause fun _ => .FULL) (watch 60000 fun _ => .FULL)) unasked
        pausedWhileRunning = some s ∧
      s.2 0 = true ∧ watch 60000 (fun _ => .FULL) s (.batch 0 true) = some s' ∧
      PauseHonoured s (.batch 0 true) s' := by
  have hrun : run (restrict (KeepsPause fun _ => .FULL) (watch 60000 fun _ => .FULL)) unasked
    pausedWhileRunning = some _ := rfl
  exact ⟨_, _, hrun, rfl, rfl, pause_honoured (reachable_run (.init rfl) hrun) rfl⟩

def AtMostOne (w : World) : Prop := ∀ (i k : ℕ) (j j' : Job), w.jobs[i]? = some j →
  w.jobs[k]? = some j' → j.status.active = true → j'.status.active = true → j.key = j'.key → i = k

/-- All calls ask for deduplication, and an insert, a resume or the last write of a worker makes a
job active only while no other job of its key is. -/
def keepsOne (w : World) : Event → Bool
  | .enqueue _ _ => false
  | .insert call => (w.calls[call]?).all fun c => !hasActive w c.1
  | .resume _ job => (w.jobs[job]?).all fun j => j.status ≠ .FAILED || !hasActive w j.key
  | .settle x => (w.executions[x]?).all fun ex => (w.jobs[ex.job]?).all fun j =>
      j.status.active || !((settled ex j).getD j).status.active || !hasActive w j.key
  | _ => true

def KeepsOne (w : World) (e : Event) : Prop := keepsOne w e = true

instance (w : World) (e : Event) : Decidable (KeepsOne w e) := inferInstanceAs (Decidable (_ = _))

theorem hasActive_of_mem {w : World} {i : ℕ} {j : Job} (hj : w.jobs[i]? = some j)
    (hactive : j.status.active = true) : hasActive w j.key = true := by
  refine List.any_eq_true.mpr ⟨j, List.mem_of_getElem? hj, ?_⟩
  rw [hactive, Bool.and_true, decide_eq_true_eq]

theorem atMostOne_setJob {w w' : World} {i : ℕ} {f : Job → Job} (h : AtMostOne w)
    (hjobs : w'.jobs = (setJob w i f).jobs) (hkey : ∀ j, (f j).key = j.key)
    (hf : ∀ j, w.jobs[i]? = some j → (f j).status.active = true → j.status.active = true ∨
      hasActive w j.key = false) : AtMostOne w' := by
  -- an active row of the new table was active, or its key had no active row
  have hbefore : ∀ (k : ℕ) (j' : Job), w'.jobs[k]? = some j' → j'.status.active = true →
      ∃ j, w.jobs[k]? = some j ∧ j.key = j'.key ∧
        (j.status.active = true ∨ (i = k ∧ hasActive w j.key = false)) := by
    intro k j' hj' hactive
    rw [hjobs] at hj'
    by_cases hik : i = k
    · subst hik
      rw [setJob, List.getElem?_modify_eq] at hj'
      obtain ⟨j, hj, rfl⟩ := Option.map_eq_some_iff.mp hj'
      exact ⟨j, hj, (hkey j).symm, (hf j hj hactive).imp_right fun hno => ⟨rfl, hno⟩⟩
    · rw [setJob_other f hik] at hj'
      exact ⟨j', hj', rfl, .inl hactive⟩
  intro a b ja jb hja hjb ha hb hab
  obtain ⟨j, hj, hkj, hactive | ⟨rfl, hno⟩⟩ := hbefore a ja hja ha
  · obtain ⟨j', hj', hkj', hactive' | ⟨rfl, hno⟩⟩ := hbefore b jb hjb hb
    · exact h a b j j' hj hj' hactive hactive' (by rw [hkj, hab, hkj'])
    · have hsome := hasActive_of_mem hj hactive
      rw [hkj, hab, ← hkj', hno] at hsome
      cases hsome
  · obtain ⟨j', hj', hkj', hactive' | ⟨rfl, -⟩⟩ := hbefore b jb hjb hb
    · have hsome := hasActive_of_mem hj' hactive'
      rw [hkj', ← hab, ← hkj, hno] at hsome
      cases hsome
    · rfl

theorem atMostOne_addJob {w w' : World} {key : JobKey} {forceFull : Bool} (h : AtMostOne w)
    (hno : hasActive w key = false) (hjobs : w'.jobs = (addJob w key forceFull).jobs) :
    AtMostOne w' := by
  have hcases : ∀ (k : ℕ) (j : Job), w'.jobs[k]? = some j →
      w.jobs[k]? = some j ∨ (k = w.jobs.length ∧ j.key = key) := by
    intro k j hj
    rw [hjobs, addJob, List.getElem?_append] at hj
    split at hj
    · exact .inl hj
    · obtain ⟨hlt, -⟩ := List.getElem?_eq_some_iff.mp hj
      rw [List.length_singleton] at hlt
      obtain rfl := List.mem_singleton.mp (List.mem_of_getElem? hj)
      exact .inr ⟨by omega, rfl⟩
  intro a b ja jb hja hjb ha hb hab
  obtain hja | ⟨rfl, hka⟩ := hcases a ja hja
  · obtain hjb | ⟨rfl, hkb⟩ := hcases b jb hjb
    · exact h a b ja jb hja hjb ha hb hab
    · have hsome := hasActive_of_mem hja ha
      rw [hab, hkb, hno] at hsome
      cases hsome
  · obtain hjb | ⟨rfl, -⟩ := hcases b jb hjb
    · have hsome := hasActive_of_mem hjb hb
      rw [← hab, hka, hno] at hsome
      cases hsome
    · rfl

theorem requeued_active (staleMs : ℕ) (w : World) (j : Job) :
    (requeued staleMs w j).status.active = j.status.active ∧ (requeued staleMs w j).key = j.key := by
  unfold requeued
  split
  · rename_i hstale
    have hrunning : j.status = .RUNNING := by
      rw [stale, Bool.and_eq_true, decide_eq_true_eq] at hstale
      exact hstale.1
    rw [hrunning]
    exact ⟨rfl, rfl⟩
  · exact ⟨rfl, rfl⟩

theorem atMostOne_step {w w' : World} {e : Event} (h : AtMostOne w) (hkeeps : KeepsOne w e)
    (hstep : step staleMs strategies w e = some w') : AtMostOne w' := by
  unfold KeepsOne at hkeeps
  cases step_effect hstep with
  | quiet request jobs executions =>
    unfold AtMostOne
    rw [jobs]
    exact h
  | moves request found live jobs executions =>
    unfold AtMostOne
    rw [jobs]
    exact h
  | enqueues => cases hkeeps
  | inserts waiting jobs executions =>
    rw [keepsOne, waiting, Option.all_some] at hkeeps
    exact atMostOne_addJob h (by simpa using hkeeps) jobs
  | claims found queued next jobs executions =>
    refine atMostOne_setJob h jobs (fun j => rfl) fun j hj _ => ?_
    cases found.symm.trans hj
    rw [queued]
    exact .inl rfl
  | rolls found live => exact atMostOne_setJob h rfl (fun j => rfl) fun j hj hactive => .inl hactive
  | settles found live =>
    refine atMostOne_setJob h rfl (fun j => (settled_cases _ j).1) fun j hj hactive => ?_
    rw [keepsOne, found, Option.all_some, hj, Option.all_some, hactive] at hkeeps
    simpa using hkeeps
  | reclaims =>
    intro a b ja jb hja hjb ha hb hab
    rw [List.getElem?_map] at hja hjb
    obtain ⟨j, hj, rfl⟩ := Option.map_eq_some_iff.mp hja
    obtain ⟨j', hj', rfl⟩ := Option.map_eq_some_iff.mp hjb
    obtain ⟨hactive, hkey⟩ := requeued_active staleMs w j
    obtain ⟨hactive', hkey'⟩ := requeued_active staleMs w j'
    exact h a b j j' hj hj' (hactive ▸ ha) (hactive' ▸ hb) (by rw [← hkey, hab, hkey'])
  | pauses =>
    refine atMostOne_setJob h rfl (fun j => ?_) fun j hj hactive => ?_
    · unfold pauseRow
      split <;> rfl
    · rw [pauseRow_status] at hactive
      exact .inl hactive
  | resumes =>
    refine atMostOne_setJob h rfl (fun j => ?_) fun j hj hactive => ?_
    · unfold resumeRow
      split <;> rfl
    · obtain ⟨-, hpaused | hfailed⟩ | hsame := resumeRow_cases _ j
      · rw [hpaused]
        exact .inl rfl
      · rw [keepsOne, hj, Option.all_some, hfailed] at hkeeps
        exact .inr (by simpa using hkeeps)
      · rw [hsame] at hactive
        exact .inl hactive

/-- As long as jobs become active only while no other job of their key is, deduplicated calls leave
at most one active job for a key. -/
theorem at_most_one_active {w : World}
    (hreach : Reachable {initial} (restrict KeepsOne (step staleMs strategies)) w) : AtMostOne w := by
  refine invariant (P := AtMostOne) ?_ ?_ hreach
  · rintro s rfl i k j j' hj
    cases hj
  · intro s e s' hs hrestricted
    obtain ⟨hkeeps, hs'⟩ := restrict_some hrestricted
    exact atMostOne_step hs hkeeps hs'

def twoCallers : List Event :=
  [.check nightlySync false, .check nightlySync false, .insert 0, .insert 0]

theorem two_active_jobs : ∃ w,
    Reachable {initial} (step 60000 fun _ => .FULL) w ∧ ¬AtMostOne w := by
  have hrun : run (step 60000 fun _ => .FULL) initial twoCallers = some _ := rfl
  refine ⟨_, reachable_run (.init rfl) hrun, fun h => ?_⟩
  cases h 0 1 _ _ rfl rfl rfl rfl rfl

def oneCallerAtATime : List Event :=
  [.check nightlySync false, .insert 0, .claim "worker-1" [], .check nightlySync false, .finish 0 [], .settle 0,
    .check nightlySync false, .insert 0]

theorem one_active_job : ∃ w,
    run (restrict KeepsOne (step 60000 fun _ => .FULL)) initial oneCallerAtATime = some w ∧
      w.jobs.map (·.status) = [.COMPLETED, .QUEUED] ∧ AtMostOne w := by
  have hrun : run (restrict KeepsOne (step 60000 fun _ => .FULL)) initial oneCallerAtATime = some _ :=
    rfl
  exact ⟨_, hrun, rfl, at_most_one_active (reachable_run (.init rfl) hrun)⟩

end DataFabric.CopyJobRuns
