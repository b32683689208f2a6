import DataFabric.TriggerJobs

set_option autoImplicit false

/-! # The deletion of a trigger stops that trigger -/
namespace DataFabric.TriggerDeletions
open TransitionRuns TriggerJobs

def deleting (w : World) : Event → Option ℕ
  | .cancel call => (w.calls[call]?).map (·.id)
  | .sweep x => (w.executions[x]?).bind (·.row.owner)
  | _ => none

structure StopsExactly (w : World) (e : Event) (w' : World) : Prop where
  others : ∀ (i : ℕ) (j j' : Job), w.jobs[i]? = some j → w'.jobs[i]? = some j' → j.status ≠ .CANCELLED →
    j'.status = .CANCELLED → ∃ id, deleting w e = some id ∧ j.owner = some id
  stopped : ∀ (x : ℕ) (ex : Execution) (id : ℕ), e = .begin x → w.executions[x]? = some ex → ex.row.jobType.acts = true →
    ex.row.owner = some id → id ∉ w.gone

def live (w : World) (owner : Option ℕ) : Bool := owner.all fun id => !w.gone.contains id

/-- Nothing of the trigger is deployed, waits or is claimed. -/
def atRest (w : World) (id : ℕ) : Bool :=
  (w.natives.all fun n => n.owner ≠ id) &&
    (w.jobs.all fun j => j.status ≠ .PENDING || !j.jobType.acts || j.owner ≠ some id) &&
    w.executions.all fun e => e.phase ≠ .claimed || !e.row.jobType.acts || e.row.owner ≠ some id

/-- No waiting job of another trigger bears the name where jobs are cancelled by it, a deletion
completes when the trigger is at rest, and nothing of a deleted trigger is put back. -/
def keepsStopped (w : World) : Event → Bool
  | .cancel call => (w.calls[call]?).all fun c => w.jobs.all fun j =>
      !(j.status = .PENDING && j.tenantId = c.tenantId && j.jobType ≠ .DELETE_TRIGGER &&
        j.triggerName = c.row.triggerName) || j.owner = some c.id
  | .sweep x => (w.executions[x]?).all fun e => w.jobs.all fun j =>
      !(j.status = .PENDING && !j.jobType.drops && j.triggerName = e.row.triggerName) ||
        j.owner = e.row.owner
  | .createNative x => (w.executions[x]?).all fun e => live w e.row.triggerId
  | .settle x _ => (w.executions[x]?).all fun e =>
      (e.row.jobType ≠ .SCHEDULE_TRIGGER || live w e.row.owner) &&
        (e.row.jobType ≠ .DELETE_TRIGGER || e.row.owner.all (atRest w))
  | .fail x => (w.executions[x]?).all fun e => !e.row.jobType.acts || e.final || live w e.row.owner
  | .retryJob tenantId job => (w.jobs[job]?).all fun j =>
      j.tenantId ≠ tenantId || !j.jobType.acts || live w j.owner
  | _ => true

def KeepsStopped (w : World) (e : Event) : Prop := keepsStopped w e = true

instance (w : World) (e : Event) : Decidable (KeepsStopped w e) := inferInstanceAs (Decidable (_ = _))

def Removed (registry : List Registration) (id : ℕ) : Prop :=
  ∃ r, registry[id]? = some r ∧ r.removed = true

/-- Rows keep their place and their tenant, and what is removed stays so. -/
def Grows (registry registry' : List Registration) : Prop :=
  ∀ (id : ℕ) (r : Registration), registry[id]? = some r → ∃ r', registry'[id]? = some r' ∧
    r'.tenantId = r.tenantId ∧ (r.removed = true → r'.removed = true)

theorem grows_refl (registry : List Registration) : Grows registry registry :=
  fun _ r hr => ⟨r, hr, rfl, id⟩

theorem grows_modify {registry : List Registration} {id : ℕ} {f : Registration → Registration}
    (hf : ∀ r, (f r).tenantId = r.tenantId ∧ (r.removed = true → (f r).removed = true)) :
    Grows registry (registry.modify id f) := by
  intro k r hr
  by_cases hk : id = k
  · subst hk
    exact ⟨f r, by rw [List.getElem?_modify_eq, hr]; rfl, hf r⟩
  · exact ⟨r, by rw [List.getElem?_modify_ne _ _ hk, hr], rfl, fun hremoved => hremoved⟩

theorem grows_upsert (registry : List Registration) (r : Registration) :
    Grows registry (upsert registry r).1 := by
  simp only [upsert]
  split
  · exact grows_modify fun q => ⟨rfl, id⟩
  · intro k q hq
    obtain ⟨hlt, -⟩ := List.getElem?_eq_some_iff.mp hq
    exact ⟨q, by rw [List.getElem?_append_left hlt, hq], rfl, id⟩

theorem upsert_live {registry : List Registration} {r : Registration} :
    ¬Removed registry (upsert registry r).2 := by
  rintro ⟨q, hq, hremoved⟩
  simp only [upsert] at hq
  split at hq
  · rename_i hlt
    have hnamed := List.findIdx_getElem (w := hlt)
    rw [List.getElem?_eq_getElem hlt, Option.some.injEq] at hq
    rw [hq] at hnamed
    simp [Registration.named, hremoved] at hnamed
  · rw [List.getElem?_eq_none (Nat.le_refl _)] at hq
    cases hq

theorem Removed.mono {registry registry' : List Registration} {id : ℕ} (h : Removed registry id)
    (hgrows : Grows registry registry') : Removed registry' id := by
  obtain ⟨r, hr, hremoved⟩ := h
  obtain ⟨r', hr', -, hstays⟩ := hgrows id r hr
  exact ⟨r', hr', hstays hremoved⟩

theorem grows_deleteRow (w : World) (row : Job) : Grows w.registry (deleteRow w row).registry := by
  obtain hsame | ⟨id, r, -, -, hrow⟩ := deleteRow_cases w row
  · rw [hsame]
    exact grows_refl _
  · rw [hrow]
    exact grows_modify fun r => ⟨rfl, fun _ => rfl⟩

theorem registry_step {w w' : World} {e : Event} (h : step w e = some w') :
    Grows w.registry w'.registry := by
  cases step_control h with
  | same registry => exact registry ▸ grows_refl _
  | registers kept registry => exact registry ▸ grows_upsert _ _
  | updates registry keeps =>
    rw [registry]
    exact grows_modify fun r => ⟨(keeps r).1, fun hr => (keeps r).2.trans hr⟩
  | applies kept registry => exact registry ▸ grows_upsert _ _
  | asks row registry => exact registry ▸ grows_refl _
  | drops registry => exact registry ▸ grows_refl _
  | creates found triggerId registry => exact registry ▸ grows_refl _
  | removes registry => exact registry ▸ grows_deleteRow _ _

theorem visible_some {w : World} {tenantId : String} {id : ℕ} {r : Registration}
    (h : visible w tenantId id = some r) :
    w.registry[id]? = some r ∧ r.removed = false ∧ r.tenantId = tenantId := by
  rw [visible, Option.filter_eq_some_iff, registrationAt, Option.filter_eq_some_iff] at h
  obtain ⟨⟨hr, hkept⟩, htenant⟩ := h
  exact ⟨hr, by simpa using hkept, of_decide_eq_true htenant⟩

/-- A job that refers to a registry row is of that trigger, and one that drops a trigger knows which. -/
structure Linked (registry : List Registration) (j : Job) : Prop where
  owned : ∀ id, j.triggerId = some id → j.owner = some id ∧
    ∃ r, registry[id]? = some r ∧ r.tenantId = j.tenantId
  drops : j.jobType.drops = true → ∃ id, j.owner = some id ∧
    (j.jobType = .DELETE_TRIGGER → j.triggerId = some id ∨ Removed registry id)

def Fits (e : Execution) : Prop :=
  match e.phase with
  | .read _ | .cleared _ => e.row.jobType = .DEPLOY_TRIGGER
  | .dropped | .swept => e.row.jobType.drops = true
  | _ => True

structure Stopped (w : World) : Prop where
  snapshots : Snapshots w
  gone : ∀ id ∈ w.gone, Removed w.registry id
  natives : ∀ n ∈ w.natives, n.owner ∉ w.gone
  calls : ∀ c ∈ w.calls, ∃ r, w.registry[c.id]? = some r ∧ r.tenantId = c.tenantId
  jobs : ∀ (i : ℕ) (j : Job), w.jobs[i]? = some j → Linked w.registry j
  waiting : ∀ (i : ℕ) (j : Job), w.jobs[i]? = some j → j.status = .PENDING → j.jobType.acts = true →
    live w j.owner = true
  rows : ∀ (x : ℕ) (e : Execution), w.executions[x]? = some e → Linked w.registry e.row
  fits : ∀ (x : ℕ) (e : Execution), w.executions[x]? = some e → Fits e
  claimed : ∀ (x : ℕ) (e : Execution), w.executions[x]? = some e → e.phase = .claimed →
    e.row.jobType.acts = true → live w e.row.owner = true
  deleted : ∀ (x : ℕ) (e : Execution), w.executions[x]? = some e → e.phase = .acted →
    e.row.jobType = .DELETE_TRIGGER → ∀ id, e.row.owner = some id → Removed w.registry id

theorem stopped_initial : Stopped initial where
  snapshots := snapshots_initial
  gone := List.forall_mem_nil _
  natives := List.forall_mem_nil _
  calls := List.forall_mem_nil _
  jobs := fun i j h => by cases h
  waiting := fun i j h => by cases h
  rows := fun x e h => by cases h
  fits := fun x e h => by cases h
  claimed := fun x e h => by cases h
  deleted := fun x e h => by cases h

theorem live_iff {w : World} {owner : Option ℕ} :
    live w owner = true ↔ ∀ id, owner = some id → id ∉ w.gone := by
  cases owner with
  | none => simp [live]
  | some id => simp [live]

theorem Linked.mono {registry registry' : List Registration} {j : Job} (h : Linked registry j)
    (hgrows : Grows registry registry') : Linked registry' j := by
  constructor
  · intro id hid
    obtain ⟨howner, r, hr, htenant⟩ := h.owned id hid
    obtain ⟨r', hr', hsame, -⟩ := hgrows id r hr
    exact ⟨howner, r', hr', hsame.trans htenant⟩
  · intro hdrops
    obtain ⟨id, howner, hid⟩ := h.drops hdrops
    exact ⟨id, howner, fun htype => (hid htype).imp_right fun hremoved => hremoved.mono hgrows⟩

theorem Linked.congr {registry : List Registration} {j j' : Job} (h : Linked registry j)
    (htask : j'.task = j.task) (htrigger : j'.triggerId = j.triggerId)
    (htenant : j'.tenantId = j.tenantId) : Linked registry j' := by
  simp only [Job.task, Prod.mk.injEq] at htask
  obtain ⟨htype, howner, -⟩ := htask
  constructor
  · rw [htrigger, howner, htenant]
    exact h.owned
  · rw [htype, howner, htrigger]
    exact h.drops

theorem Linked.unlink {registry : List Registration} {j : Job} {id : ℕ} (h : Linked registry j)
    (hremoved : Removed registry id) : Linked registry (unlink id j) := by
  unfold TriggerJobs.unlink
  split
  · rename_i hid
    constructor
    · intro k hk
      cases hk
    · intro hdrops
      obtain ⟨howner, -⟩ := h.owned id hid
      exact ⟨id, howner, fun _ => .inr hremoved⟩
  · exact h

theorem linked_origin {w : World} {j : Job} (h : Stopped w) (horigin : Origin w j) :
    Linked w.registry j := by
  cases horigin with
  | @call c asked there =>
    have hlinked : ∀ (k : JobType) (s : Option Schedule) (n m : ℕ), Linked w.registry
        (newJob k c.tenantId c.row.schemaName c.row.tableName c.row.triggerName (some c.id) (some c.id)
          s n m) := by
      intro k s n m
      constructor
      · intro id hid
        cases hid
        exact ⟨rfl, h.calls c asked⟩
      · exact fun _ => ⟨c.id, rfl, fun _ => .inl rfl⟩
    unfold enqueued
    split
    · exact hlinked _ _ _ _
    · exact hlinked _ _ _ _
  | @rowEvent n tenantId autoDrop runAt j deployed fires =>
    have hlinked : ∀ (k : JobType) (s : Option Schedule) (t m : ℕ), k ≠ .DELETE_TRIGGER →
        Linked w.registry
          (newJob k tenantId n.schemaName n.tableName n.triggerName none (some n.owner) s t m) := by
      intro k s t m hk
      constructor
      · intro id hid
        cases hid
      · exact fun _ => ⟨n.owner, rfl, fun htype => absurd htype hk⟩
    rw [fired, List.mem_append] at fires
    obtain fires | fires := fires
    · split at fires
      · rw [List.mem_singleton.mp fires]
        exact hlinked _ _ _ _ fun h => by cases h
      · cases fires
    · split at fires
      · rw [List.mem_singleton.mp fires]
        exact hlinked _ _ _ _ fun h => by cases h
      · cases fires
  | test =>
    constructor
    · intro id hid
      cases hid
    · intro hdrops
      cases hdrops

theorem live_origin {w : World} {j : Job} (h : Stopped w) (horigin : Origin w j) :
    live w j.owner = true := by
  rw [live_iff]
  intro id hid
  cases horigin with
  | @call c asked there =>
    have howner : (enqueued w.clock c).owner = some c.id := by
      unfold enqueued
      split <;> rfl
    rw [howner, Option.some.injEq] at hid
    subst hid
    intro hgone
    obtain ⟨r, hr, hremoved⟩ := h.gone c.id hgone
    rw [registrationAt, hr, Option.filter_some, hremoved] at there
    cases there
  | @rowEvent n tenantId autoDrop runAt j deployed fires =>
    have howner : j.owner = some n.owner := by
      rw [fired, List.mem_append] at fires
      obtain fires | fires := fires
      · split at fires
        · rw [List.mem_singleton.mp fires]
          rfl
        · cases fires
      · split at fires
        · rw [List.mem_singleton.mp fires]
          rfl
        · cases fires
    rw [howner, Option.some.injEq] at hid
    exact hid ▸ h.natives n deployed
  | test => cases hid

theorem atRest_iff {w : World} {id : ℕ} : atRest w id = true ↔
    (∀ n ∈ w.natives, n.owner ≠ id) ∧
    (∀ j ∈ w.jobs, j.status = .PENDING → j.jobType.acts = true → j.owner ≠ some id) ∧
    ∀ e ∈ w.executions, e.phase = .claimed → e.row.jobType.acts = true → e.row.owner ≠ some id := by
  simp only [atRest, Bool.and_eq_true, List.all_eq_true, Bool.or_eq_true, decide_eq_true_eq,
    Bool.not_eq_true', and_assoc]
  refine and_congr_right fun _ => and_congr (forall₂_congr fun j _ => ?_) (forall₂_congr fun e _ => ?_)
  · cases j.jobType.acts <;> grind
  · cases e.row.jobType.acts <;> grind

theorem gone_step {w w' : World} {e : Event} (h : step w e = some w') : w'.gone = w.gone ∨
    ∃ x cron ex, e = .settle x cron ∧ w.executions[x]? = some ex ∧ ex.phase = .acted ∧
      ex.row.jobType = .DELETE_TRIGGER ∧ w'.gone = ex.row.owner.toList ++ w.gone ∧
      w'.natives = w.natives := by
  cases step_effect h with
  | quiet jobs executions begun gone => exact .inl gone
  | enqueues origin jobs executions begun gone => exact .inl gone
  | cancels found jobs executions begun gone => exact .inl gone
  | moves found move jobs executions begun gone => exact .inl gone
  | @settles x ex cron found acted =>
    by_cases htype : ex.row.jobType = .DELETE_TRIGGER
    · exact .inr ⟨x, cron, ex, rfl, found, acted, htype, if_pos htype, rfl⟩
    · exact .inl (if_neg htype)
  | @removes x ex found swept =>
    obtain hsame | ⟨id, r, -, -, hrow⟩ := deleteRow_cases w ex.row
    · rw [hsame]
      exact .inl rfl
    · rw [hrow]
      exact .inl rfl
  | _ => exact .inl rfl

theorem live_step {w w' : World} {e : Event} {owner : Option ℕ} (hkeeps : KeepsStopped w e)
    (hstep : step w e = some w') (hlive : live w owner = true)
    (hbusy : ∀ id, owner = some id → atRest w id = false) : live w' owner = true := by
  rw [live_iff] at hlive ⊢
  intro id hid
  obtain hgone | ⟨x, cron, ex, rfl, hex, -, htype, hgone, -⟩ := gone_step hstep
  · rw [hgone]
    exact hlive id hid
  · rw [hgone, List.mem_append, Option.mem_toList]
    rintro (hdeleted | hbefore)
    · simp only [KeepsStopped, keepsStopped, hex, Option.all_some, Bool.and_eq_true, Bool.or_eq_true]
        at hkeeps
      have hrest := hkeeps.2.resolve_left fun hno => of_decide_eq_true hno htype
      rw [Option.mem_def.mp hdeleted, Option.all_some, hbusy id hid] at hrest
      cases hrest
    · exact hlive id hid hbefore

theorem live_congr {w w' : World} {owner : Option ℕ} (hgone : w'.gone = w.gone) :
    live w' owner = live w owner := by
  rw [live, live, hgone]

theorem busy_of_native {w : World} {n : Native} (hn : n ∈ w.natives) : atRest w n.owner = false := by
  rw [Bool.eq_false_iff]
  intro hrest
  exact (atRest_iff.mp hrest).1 n hn rfl

theorem busy_of_waiting {w : World} {i : ℕ} {j : Job} (hj : w.jobs[i]? = some j)
    (hpending : j.status = .PENDING) (hacts : j.jobType.acts = true) (id : ℕ)
    (hid : j.owner = some id) : atRest w id = false := by
  rw [Bool.eq_false_iff]
  intro hrest
  exact (atRest_iff.mp hrest).2.1 j (List.mem_of_getElem? hj) hpending hacts hid

theorem busy_of_claimed {w : World} {x : ℕ} {e : Execution} (he : w.executions[x]? = some e)
    (hclaimed : e.phase = .claimed) (hacts : e.row.jobType.acts = true) (id : ℕ)
    (hid : e.row.owner = some id) : atRest w id = false := by
  rw [Bool.eq_false_iff]
  intro hrest
  exact (atRest_iff.mp hrest).2.2 e (List.mem_of_getElem? he) hclaimed hacts hid

theorem natives_step {w w' : World} {e : Event} (h : Stopped w) (hkeeps : KeepsStopped w e)
    (hstep : step w e = some w') : ∀ n ∈ w'.natives, n.owner ∉ w'.gone := by
  intro n hn
  obtain hgone | ⟨x, cron, ex, rfl, hex, -, htype, -, hnatives⟩ := gone_step hstep
  · rw [hgone]
    cases step_control hstep with
    | same registry natives => exact h.natives n (natives ▸ hn)
    | registers kept registry natives => exact h.natives n (natives ▸ hn)
    | updates registry keeps natives => exact h.natives n (natives ▸ hn)
    | applies kept registry owner natives =>
      rw [natives, List.mem_append, List.mem_singleton] at hn
      obtain hn | rfl := hn
      · exact h.natives n (List.mem_of_mem_filter hn)
      · rw [owner]
        exact fun hmem => upsert_live (h.gone _ hmem)
    | asks row registry natives => exact h.natives n (natives ▸ hn)
    | drops registry natives =>
      rw [natives] at hn
      exact h.natives n (List.mem_of_mem_filter hn)
    | creates found triggerId registry natives =>
      rw [natives, List.mem_append, List.mem_singleton] at hn
      obtain hn | rfl := hn
      · exact h.natives n hn
      · rw [KeepsStopped, keepsStopped, found, Option.all_some, live_iff] at hkeeps
        exact hkeeps n.owner triggerId
    | removes registry natives => exact h.natives n (natives ▸ hn)
  · rw [hnatives] at hn
    have hlive : live w (some n.owner) = true := by
      rw [live_iff]
      intro id hid
      cases hid
      exact h.natives n hn
    have hafter := live_step hkeeps hstep hlive fun id hid => by
      cases hid
      exact busy_of_native hn
    exact live_iff.mp hafter n.owner rfl

theorem calls_step {w w' : World} {e : Event} (h : Stopped w) (hstep : step w e = some w') :
    ∀ c ∈ w'.calls, ∃ r, w'.registry[c.id]? = some r ∧ r.tenantId = c.tenantId := by
  have hgrows := registry_step hstep
  have hold : ∀ c ∈ w.calls, ∃ r, w'.registry[c.id]? = some r ∧ r.tenantId = c.tenantId := by
    intro c hc
    obtain ⟨r, hr, htenant⟩ := h.calls c hc
    obtain ⟨r', hr', hsame, -⟩ := hgrows c.id r hr
    exact ⟨r', hr', hsame.trans htenant⟩
  intro c hc
  cases step_control hstep with
  | same registry natives calls =>
    obtain ⟨c₀, hc₀, hid, htenant⟩ := calls c hc
    rw [← hid, ← htenant]
    exact hold c₀ hc₀
  | registers kept registry natives calls => exact hold c (calls ▸ hc)
  | updates registry keeps natives calls => exact hold c (calls ▸ hc)
  | applies kept registry owner natives calls => exact hold c (calls ▸ hc)
  | asks row registry natives calls =>
    rw [calls, List.mem_append, List.mem_singleton] at hc
    obtain hc | rfl := hc
    · exact hold c hc
    · obtain ⟨hr, -, htenant⟩ := visible_some row
      exact ⟨c.row, registry ▸ hr, htenant⟩
  | drops registry natives calls => exact hold c (calls ▸ hc)
  | creates found triggerId registry natives calls => exact hold c (calls ▸ hc)
  | removes registry natives calls => exact hold c (calls ▸ hc)

theorem linked_cancelIf {registry : List Registration} {j : Job} (p : Job → Bool)
    (h : Linked registry j) : Linked registry (cancelIf p j) := by
  unfold cancelIf
  split
  · exact h.congr rfl rfl rfl
  · exact h

theorem linked_setJob {w : World} {k i : ℕ} {f : Job → Job} {j' : Job} (h : Stopped w)
    (htask : ∀ j, (f j).task = j.task) (htrigger : ∀ j, (f j).triggerId = j.triggerId)
    (htenant : ∀ j, (f j).tenantId = j.tenantId) (hj' : (setJob w k f).jobs[i]? = some j') :
    Linked w.registry j' := by
  obtain ⟨-, hj⟩ | ⟨-, j, hj, rfl⟩ := setJob_cases hj'
  · exact h.jobs i j' hj
  · exact (h.jobs i j hj).congr (htask j) (htrigger j) (htenant j)

theorem removed_deleteRow {w : World} {row : Job} {id : ℕ} {r : Registration}
    (hid : row.triggerId = some id) (hr : visible w row.tenantId id = some r) :
    Removed (deleteRow w row).registry id := by
  refine ⟨{ r with removed := true }, ?_, rfl⟩
  simp only [deleteRow, hid, hr]
  rw [List.getElem?_modify_eq, (visible_some hr).1]
  rfl

theorem jobs_step {w w' : World} {e : Event} (h : Stopped w) (hstep : step w e = some w') (i : ℕ)
    (j : Job) (hj : w'.jobs[i]? = some j) : Linked w'.registry j := by
  have hgrows := registry_step hstep
  cases step_effect hstep with
  | quiet jobs => exact (h.jobs i j (jobs ▸ hj)).mono hgrows
  | enqueues origin jobs =>
    rw [jobs, List.getElem?_append] at hj
    split at hj
    · exact (h.jobs i j hj).mono hgrows
    · exact (linked_origin h (origin j (List.mem_of_getElem? hj))).mono hgrows
  | cancels found jobs =>
    rw [jobs, List.getElem?_map] at hj
    obtain ⟨j₀, hj₀, rfl⟩ := Option.map_eq_some_iff.mp hj
    exact (linked_cancelIf _ (h.jobs i j₀ hj₀)).mono hgrows
  | retries =>
    refine (linked_setJob h (retried_task _ _) (fun j => ?_) (fun j => ?_) hj).mono hgrows
    · unfold retried
      split <;> rfl
    · unfold retried
      split <;> rfl
  | claims => exact (h.jobs i j hj).mono hgrows
  | begins found claimed row =>
    exact (linked_setJob (f := fun j => { j with status := .RUNNING }) h (fun _ => rfl) (fun _ => rfl)
      (fun _ => rfl) hj).mono hgrows
  | moves found move jobs => exact (h.jobs i j (jobs ▸ hj)).mono hgrows
  | sweeps found dropped =>
    obtain ⟨j₀, hj₀, rfl⟩ := Option.map_eq_some_iff.mp (List.getElem?_map (i := i) ▸ hj)
    exact (linked_cancelIf _ (h.jobs i j₀ hj₀)).mono hgrows
  | @removes x ex found swept =>
    change (deleteRow w ex.row).jobs[i]? = some j at hj
    obtain hsame | ⟨id, r, hid, hr, hrow⟩ := deleteRow_cases w ex.row
    · rw [hsame] at hj
      exact (h.jobs i j hj).mono hgrows
    · have hremoved : Removed (deleteRow w ex.row).registry id := removed_deleteRow hid hr
      rw [hrow, List.getElem?_map] at hj
      obtain ⟨j₀, hj₀, rfl⟩ := Option.map_eq_some_iff.mp hj
      exact ((h.jobs i j₀ hj₀).mono hgrows).unlink hremoved
  | settles found acted =>
    refine (linked_setJob h (settled_task _ _ _) (fun j => ?_) (fun j => ?_) hj).mono hgrows
    · unfold settled
      split <;> rfl
    · unfold settled
      split <;> rfl
  | fails found live =>
    exact (linked_setJob (f := failed w.clock _) h (fun _ => rfl) (fun _ => rfl) (fun _ => rfl) hj).mono
      hgrows
  | aborts found live | crashes found live => exact (h.jobs i j hj).mono hgrows

theorem cancelIf_waiting {p : Job → Bool} {j : Job} (h : (cancelIf p j).status = .PENDING) :
    cancelIf p j = j := by
  unfold cancelIf at h ⊢
  split
  · rename_i hp
    rw [if_pos hp] at h
    cases h
  · rfl

theorem waiting_cases {w w' : World} {e : Event} (h : Stopped w) (hkeeps : KeepsStopped w e)
    (hstep : step w e = some w') {i : ℕ} {j : Job} (hj : w'.jobs[i]? = some j)
    (hpending : j.status = .PENDING) (hacts : j.jobType.acts = true) :
    (∃ j₀, w.jobs[i]? = some j₀ ∧ j₀.status = .PENDING ∧ j₀.task = j.task) ∨
      (w'.gone = w.gone ∧ live w j.owner = true) := by
  have htaskOf : ∀ {x : ℕ} {ex : Execution} {j₀ : Job}, w.executions[x]? = some ex →
      w.jobs[ex.job]? = some j₀ → j₀.task = ex.row.task := by
    intro x ex j₀ hx hj₀
    obtain ⟨j₁, hj₁, htask⟩ := h.snapshots x ex hx
    cases hj₀.symm.trans hj₁
    exact htask
  unfold KeepsStopped at hkeeps
  cases step_effect hstep with
  | quiet jobs => exact .inl ⟨j, jobs ▸ hj, hpending, rfl⟩
  | enqueues origin jobs executions begun gone =>
    rw [jobs, List.getElem?_append] at hj
    split at hj
    · exact .inl ⟨j, hj, hpending, rfl⟩
    · exact .inr ⟨gone, live_origin h (origin j (List.mem_of_getElem? hj))⟩
  | cancels found jobs =>
    rw [jobs, List.getElem?_map] at hj
    obtain ⟨j₀, hj₀, rfl⟩ := Option.map_eq_some_iff.mp hj
    have hsame := cancelIf_waiting hpending
    rw [hsame] at hpending ⊢
    exact .inl ⟨j₀, hj₀, hpending, rfl⟩
  | retries =>
    obtain ⟨-, hj⟩ | ⟨rfl, j₀, hj₀, rfl⟩ := setJob_cases hj
    · exact .inl ⟨j, hj, hpending, rfl⟩
    · simp only [keepsStopped, hj₀, Option.all_some, Bool.or_eq_true] at hkeeps
      unfold retried at hpending hacts ⊢
      split
      · rename_i htenant
        rw [if_pos htenant] at hacts
        refine .inr ⟨rfl, ?_⟩
        obtain (hno | hno) | hlive := hkeeps
        · exact absurd htenant (of_decide_eq_true hno)
        · rw [Bool.not_eq_true'] at hno
          cases hacts.symm.trans hno
        · exact hlive
      · rename_i htenant
        rw [if_neg htenant] at hpending
        exact .inl ⟨j₀, hj₀, hpending, rfl⟩
  | claims => exact .inl ⟨j, hj, hpending, rfl⟩
  | begins found claimed row =>
    obtain ⟨-, hj⟩ | ⟨-, j₀, hj₀, rfl⟩ := setJob_cases hj
    · exact .inl ⟨j, hj, hpending, rfl⟩
    · cases hpending
  | moves found move jobs => exact .inl ⟨j, jobs ▸ hj, hpending, rfl⟩
  | sweeps found dropped =>
    obtain ⟨j₀, hj₀, rfl⟩ := Option.map_eq_some_iff.mp (List.getElem?_map (i := i) ▸ hj)
    have hsame := cancelIf_waiting hpending
    rw [hsame] at hpending ⊢
    exact .inl ⟨j₀, hj₀, hpending, rfl⟩
  | @removes x ex found swept =>
    change (deleteRow w ex.row).jobs[i]? = some j at hj
    obtain hsame | ⟨id, r, hid, hr, hrow⟩ := deleteRow_cases w ex.row
    · rw [hsame] at hj
      exact .inl ⟨j, hj, hpending, rfl⟩
    · rw [hrow, List.getElem?_map] at hj
      obtain ⟨j₀, hj₀, rfl⟩ := Option.map_eq_some_iff.mp hj
      refine .inl ⟨j₀, hj₀, ?_, (unlink_task id j₀).symm⟩
      unfold unlink at hpending
      split at hpending <;> exact hpending
  | @settles x ex cron found acted =>
    obtain ⟨-, hj⟩ | ⟨rfl, j₀, hj₀, rfl⟩ := setJob_cases hj
    · exact .inl ⟨j, hj, hpending, rfl⟩
    · have htask := htaskOf found hj₀
      simp only [keepsStopped, found, Option.all_some, Bool.and_eq_true, Bool.or_eq_true] at hkeeps
      unfold settled at hpending
      split at hpending
      · rename_i hschedule
        have hlive := hkeeps.1.resolve_left fun hno => of_decide_eq_true hno hschedule
        have howner := (settled_task w.clock cron ex j₀).trans htask
        simp only [Job.task, Prod.mk.injEq] at howner
        refine .inr ⟨if_neg ?_, ?_⟩
        · rw [hschedule]
          exact fun h => by cases h
        · rw [howner.2.1]
          exact hlive
      · cases hpending
  | @fails x ex found alive =>
    obtain ⟨-, hj⟩ | ⟨rfl, j₀, hj₀, rfl⟩ := setJob_cases hj
    · exact .inl ⟨j, hj, hpending, rfl⟩
    · have htask := htaskOf found hj₀
      simp only [Job.task, Prod.mk.injEq] at htask
      simp only [keepsStopped, found, Option.all_some, Bool.or_eq_true] at hkeeps
      refine .inr ⟨rfl, ?_⟩
      change live w j₀.owner = true
      rw [htask.2.1]
      obtain (hno | hfinal) | hlive := hkeeps
      · change j₀.jobType.acts = true at hacts
        rw [htask.1] at hacts
        rw [hacts] at hno
        cases hno
      · rw [failed, hfinal] at hpending
        cases hpending
      · exact hlive
  | aborts found live | crashes found live => exact .inl ⟨j, hj, hpending, rfl⟩

theorem waiting_step {w w' : World} {e : Event} (h : Stopped w) (hkeeps : KeepsStopped w e)
    (hstep : step w e = some w') (i : ℕ) (j : Job) (hj : w'.jobs[i]? = some j)
    (hpending : j.status = .PENDING) (hacts : j.jobType.acts = true) : live w' j.owner = true := by
  obtain ⟨j₀, hj₀, hpending₀, htask⟩ | ⟨hgone, hlive⟩ := waiting_cases h hkeeps hstep hj hpending hacts
  · simp only [Job.task, Prod.mk.injEq] at htask
    rw [← htask.1] at hacts
    rw [← htask.2.1]
    exact live_step hkeeps hstep (h.waiting i j₀ hj₀ hpending₀ hacts)
      (busy_of_waiting hj₀ hpending₀ hacts)
  · rw [live_congr hgone]
    exact hlive

theorem rows_step {w w' : World} {e : Event} (h : Stopped w) (hstep : step w e = some w') (x : ℕ)
    (ex : Execution) (hx : w'.executions[x]? = some ex) : Linked w'.registry ex.row := by
  have hgrows := registry_step hstep
  obtain ⟨ex₀, hex₀, -, hrow⟩ | hread := step_execution hstep hx
  · rw [← hrow]
    exact (h.rows x ex₀ hex₀).mono hgrows
  · exact (h.jobs _ _ hread).mono hgrows

theorem fits_step {w w' : World} {e : Event} (h : Stopped w) (hstep : step w e = some w') (x : ℕ)
    (ex : Execution) (hx : w'.executions[x]? = some ex) : Fits ex := by
  cases step_succeeds hstep hx with
  | stays found => exact h.fits x ex found
  | claimed row pending phase =>
    rw [Fits, phase]
    trivial
  | begins found => trivial
  | @moves ex p found move =>
    have hfits := h.fits x ex found
    cases hphase : ex.phase with
    | begun =>
      rw [hphase] at move
      cases move with
      | load deploys => exact deploys
      | drop drops => exact drops
      | act acts => trivial
    | read r =>
      rw [hphase] at move
      cases move
      rw [Fits, hphase] at hfits
      exact hfits
    | cleared r =>
      rw [hphase] at move
      cases move
      trivial
    | _ =>
      rw [hphase] at move
      cases move
  | @sweeps ex found dropped =>
    have hfits := h.fits x ex found
    rw [Fits, dropped] at hfits
    exact hfits
  | removes event found => trivial
  | ends found => trivial

theorem claimed_step {w w' : World} {e : Event} (h : Stopped w) (hkeeps : KeepsStopped w e)
    (hstep : step w e = some w') (x : ℕ) (ex : Execution) (hx : w'.executions[x]? = some ex)
    (hclaimed : ex.phase = .claimed) (hacts : ex.row.jobType.acts = true) :
    live w' ex.row.owner = true := by
  cases step_succeeds hstep hx with
  | stays found =>
    exact live_step hkeeps hstep (h.claimed x ex found hclaimed hacts)
      (busy_of_claimed found hclaimed hacts)
  | claimed row pending phase =>
    exact live_step hkeeps hstep (h.waiting _ _ row pending hacts) (busy_of_waiting row pending hacts)
  | begins found => cases hclaimed
  | moves found move =>
    cases hclaimed
    cases move.active.2
  | sweeps found dropped => cases hclaimed
  | removes event found => cases hclaimed
  | ends found => cases hclaimed

theorem deleted_step {w w' : World} {e : Event} (h : Stopped w) (hstep : step w e = some w') (x : ℕ)
    (ex : Execution) (hx : w'.executions[x]? = some ex) (hacted : ex.phase = .acted)
    (htype : ex.row.jobType = .DELETE_TRIGGER) (id : ℕ) (hid : ex.row.owner = some id) :
    Removed w'.registry id := by
  have hgrows := registry_step hstep
  cases step_succeeds hstep hx with
  | stays found => exact (h.deleted x ex found hacted htype id hid).mono hgrows
  | claimed row pending phase =>
    rw [phase] at hacted
    cases hacted
  | begins found => cases hacted
  | @moves ex p found move =>
    -- a deletion acts only by the removal of the row
    have hfits := h.fits x ex found
    change ex.row.jobType = _ at htype
    cases hacted
    cases hphase : ex.phase with
    | begun =>
      rw [hphase] at move
      cases move with
      | act acts =>
        rw [htype] at acts
        cases acts
    | cleared r =>
      rw [Fits, hphase] at hfits
      rw [htype] at hfits
      cases hfits
    | _ =>
      rw [hphase] at move
      cases move
  | sweeps found dropped => cases hacted
  | @removes ex event found =>
    subst event
    change ex.row.jobType = _ at htype
    change ex.row.owner = _ at hid
    have hlinked := h.rows x ex found
    obtain ⟨id', howner, hlink⟩ := hlinked.drops (by rw [htype]; rfl)
    cases hid.symm.trans howner
    obtain htrigger | hremoved := hlink htype
    · obtain ⟨-, r, hr, htenant⟩ := hlinked.owned id htrigger
      simp only [step] at hstep
      obtain ⟨ex', hex', -, hw'⟩ := during_some hstep
      cases found.symm.trans hex'
      cases hw'
      cases hkept : r.removed with
      | true => exact Removed.mono ⟨r, hr, hkept⟩ hgrows
      | false =>
        refine removed_deleteRow htrigger (r := r) ?_
        rw [visible, registrationAt, hr, Option.filter_some, hkept]
        simp [htenant]
    · exact hremoved.mono hgrows
  | ends found => cases hacted

theorem removed_step {w w' : World} {e : Event} (h : Stopped w) (hstep : step w e = some w') :
    ∀ id ∈ w'.gone, Removed w'.registry id := by
  have hgrows := registry_step hstep
  intro id hid
  obtain hgone | ⟨x, cron, ex, rfl, hex, hacted, htype, hgone, -⟩ := gone_step hstep
  · rw [hgone] at hid
    exact (h.gone id hid).mono hgrows
  · rw [hgone, List.mem_append, Option.mem_toList] at hid
    obtain hdeleted | hbefore := hid
    · exact (h.deleted x ex hex hacted htype id hdeleted).mono hgrows
    · exact (h.gone id hbefore).mono hgrows

theorem stopped_step {w w' : World} {e : Event} (h : Stopped w) (hkeeps : KeepsStopped w e)
    (hstep : step w e = some w') : Stopped w' where
  snapshots := snapshots_step h.snapshots hstep
  gone := removed_step h hstep
  natives := natives_step h hkeeps hstep
  calls := calls_step h hstep
  jobs := jobs_step h hstep
  waiting := waiting_step h hkeeps hstep
  rows := rows_step h hstep
  fits := fits_step h hstep
  claimed := claimed_step h hkeeps hstep
  deleted := deleted_step h hstep

theorem status_setJob {w : World} {k i : ℕ} {f : Job → Job} {j j' : Job}
    (hf : ∀ j, (f j).status = .CANCELLED → j.status = .CANCELLED) (hj : w.jobs[i]? = some j)
    (hj' : (setJob w k f).jobs[i]? = some j') (hcancelled : j'.status = .CANCELLED) :
    j.status = .CANCELLED := by
  obtain ⟨-, hsame⟩ | ⟨-, j₀, hj₀, rfl⟩ := setJob_cases hj'
  · cases hj.symm.trans hsame
    exact hcancelled
  · cases hj.symm.trans hj₀
    exact hf j hcancelled

theorem cancelled_cases {w w' : World} {e : Event} (hstep : step w e = some w') {i : ℕ} {j j' : Job}
    (hj : w.jobs[i]? = some j) (hj' : w'.jobs[i]? = some j') (hopen : j.status ≠ .CANCELLED)
    (hcancelled : j'.status = .CANCELLED) :
    (∃ call c, e = .cancel call ∧ w.calls[call]? = some c ∧
      cancels c.tenantId c.id c.row.triggerName j = true) ∨
    ∃ x ex, e = .sweep x ∧ w.executions[x]? = some ex ∧ ex.phase = .dropped ∧
      sweeps ex.row j = true := by
  have hsame : w'.jobs[i]? = w.jobs[i]? → False := by
    intro hsame
    rw [hsame, hj, Option.some.injEq] at hj'
    subst hj'
    exact hopen hcancelled
  have hselected : ∀ {p : Job → Bool}, (w.jobs.map (cancelIf p))[i]? = some j' → p j = true := by
    intro p hmap
    rw [List.getElem?_map, hj, Option.map_some, Option.some.injEq] at hmap
    subst hmap
    by_contra hp
    rw [cancelIf, if_neg hp] at hcancelled
    exact hopen hcancelled
  cases step_effect hstep with
  | quiet jobs => exact (hsame (by rw [jobs])).elim
  | enqueues origin jobs =>
    obtain ⟨hlt, -⟩ := List.getElem?_eq_some_iff.mp hj
    exact (hsame (by rw [jobs, List.getElem?_append_left hlt])).elim
  | cancels found jobs =>
    rw [jobs] at hj'
    exact .inl ⟨_, _, rfl, found, hselected hj'⟩
  | retries =>
    refine absurd (status_setJob (fun j h => ?_) hj hj' hcancelled) hopen
    unfold retried at h
    split at h
    · cases h
    · exact h
  | claims => exact (hsame rfl).elim
  | begins found claimed row =>
    exact absurd (status_setJob (f := fun j => { j with status := .RUNNING }) (fun j h => by cases h) hj
      hj' hcancelled) hopen
  | moves found move jobs => exact (hsame (by rw [jobs])).elim
  | sweeps found dropped => exact .inr ⟨_, _, rfl, found, dropped, hselected hj'⟩
  | @removes x ex found swept =>
    obtain hrow | ⟨id, r, -, -, hrow⟩ := deleteRow_cases w ex.row
    · rw [hrow] at hj'
      exact (hopen (by cases hj.symm.trans hj'; exact hcancelled)).elim
    · rw [hrow] at hj'
      change (w.jobs.map (unlink id))[i]? = _ at hj'
      rw [List.getElem?_map, hj, Option.map_some, Option.some.injEq] at hj'
      subst hj'
      unfold unlink at hcancelled
      split at hcancelled <;> exact absurd hcancelled hopen
  | settles found acted =>
    refine absurd (status_setJob (fun j h => ?_) hj hj' hcancelled) hopen
    unfold settled at h
    split at h <;> cases h
  | fails found live =>
    refine absurd (status_setJob (fun j h => ?_) hj hj' hcancelled) hopen
    rw [failed] at h
    change (if _ then JobStatus.FAILED else JobStatus.PENDING) = _ at h
    split at h <;> cases h
  | aborts found live | crashes found live => exact (hsame rfl).elim

theorem stopsExactly_step {w w' : World} {e : Event} (h : Stopped w) (hkeeps : KeepsStopped w e)
    (hstep : step w e = some w') : StopsExactly w e w' := by
  constructor
  · intro i j j' hj hj' hopen hcancelled
    have hmem := List.mem_of_getElem? hj
    obtain ⟨call, c, rfl, hc, hselected⟩ | ⟨x, ex, rfl, hex, hdropped, hselected⟩ :=
      cancelled_cases hstep hj hj' hopen hcancelled
    · refine ⟨c.id, by rw [deleting, hc, Option.map_some], ?_⟩
      simp only [KeepsStopped, keepsStopped, hc, Option.all_some, List.all_eq_true] at hkeeps
      simp only [cancels, Bool.and_eq_true, Bool.or_eq_true, decide_eq_true_eq] at hselected
      obtain ⟨⟨⟨hpending, htenant⟩, htype⟩, hid | hname⟩ := hselected
      · exact ((h.jobs i j hj).owned c.id hid).1
      · simpa [hpending, htenant, htype, hname] using hkeeps j hmem
    · have hfits := h.fits x ex hex
      rw [Fits, hdropped] at hfits
      obtain ⟨id, howner, -⟩ := (h.rows x ex hex).drops hfits
      refine ⟨id, by rw [deleting, hex, Option.bind_some, howner], ?_⟩
      simp only [KeepsStopped, keepsStopped, hex, Option.all_some, List.all_eq_true] at hkeeps
      simp only [sweeps, Bool.and_eq_true, Bool.or_eq_true, decide_eq_true_eq] at hselected
      obtain ⟨⟨hpending, htype⟩, ⟨hsome, hid⟩ | hname⟩ := hselected
      · obtain ⟨k, hk⟩ := Option.isSome_iff_exists.mp hsome
        have hrow := ((h.rows x ex hex).owned k hk).1
        rw [((h.jobs i j hj).owned k (hid.trans hk)).1, ← hrow, howner]
      · rw [← howner]
        simpa [hpending, htype, hname] using hkeeps j hmem
  · rintro x ex id rfl hex hacts hid
    simp only [step] at hstep
    obtain ⟨ex', hex', hclaimed, -⟩ := during_some hstep
    cases hex.symm.trans hex'
    exact live_iff.mp (h.claimed x ex hex (of_decide_eq_true hclaimed) hacts) id hid

/-- As long as the names tell the triggers apart where jobs are cancelled and a deletion completes
with nothing of the trigger left, exactly the deleted trigger stops. -/
theorem stops_exactly {w w' : World} {e : Event}
    (hreach : Reachable {initial} (restrict KeepsStopped step) w) (hkeeps : KeepsStopped w e)
    (hstep : step w e = some w') : StopsExactly w e w' := by
  refine stopsExactly_step ?_ hkeeps hstep
  refine invariant (P := Stopped) ?_ ?_ hreach
  · rintro s rfl
    exact stopped_initial
  · intro s e s' hs hrestricted
    obtain ⟨hkeeps, hs'⟩ := restrict_some hrestricted
    exact stopped_step hs hkeeps hs'

def notify : Definition := ⟨none, true, false⟩

/-- Two tables of a tenant have a trigger of one name, and the one on `users` has fired. -/
def sharedName : List Event :=
  [.applyManifest "acme" "tenant_acme" "orders" "notify" notify,
    .applyManifest "acme" "tenant_acme" "users" "notify" notify, .fire 1 "acme" false 0,
    .deleteTrigger "acme" 0]

theorem shared_name_cancelled : ∃ w w' j, Reachable {initial} step w ∧
    step w (.cancel 0) = some w' ∧ deleting w (.cancel 0) = some 0 ∧ w.jobs[0]? = some j ∧
    j.owner = some 1 ∧ ¬StopsExactly w (.cancel 0) w' := by
  have hrun : run step initial sharedName = some _ := rfl
  refine ⟨_, _, _, reachable_run (.init rfl) hrun, rfl, rfl, rfl, rfl, fun h => ?_⟩
  obtain ⟨id, hid, howner⟩ := h.others 0 _ _ rfl rfl (by decide) rfl
  cases hid
  cases howner

def ownNames : List Event :=
  [.applyManifest "acme" "tenant_acme" "orders" "notify_orders" notify,
    .applyManifest "acme" "tenant_acme" "users" "notify_users" notify, .fire 0 "acme" false 0,
    .fire 1 "acme" false 0, .deleteTrigger "acme" 0]

theorem own_names_stop : ∃ w w', run (restrict KeepsStopped step) initial ownNames = some w ∧
    step w (.cancel 0) = some w' ∧ (w'.jobs.map (·.status)) = [.CANCELLED, .PENDING] ∧
    StopsExactly w (.cancel 0) w' := by
  have hrun : run (restrict KeepsStopped step) initial ownNames = some _ := rfl
  exact ⟨_, _, hrun, rfl, rfl, stops_exactly (reachable_run (.init rfl) hrun) rfl rfl⟩

end DataFabric.TriggerDeletions
