import DataFabric.TriggerDeployments
import DataFabric.TriggerJobs

set_option autoImplicit false

/-!
# Trigger deployments that fail

The worker of the trigger engine sends every statement of a deployment in a transaction of its own, all
through one pooled connection, and the account of a failure through the same connection.
-/
namespace DataFabric.DeploymentFailures
open JsValues TenantIdentifiers ExceptRules TriggerDefinitions TriggerCompilers TriggerSites TriggerDeployments
open TriggerJobs (JobStatus)

structure JobRow where
  status : JobStatus
  attempts : ℕ
  lastError : Option String
  runAt : ℕ

structure World where
  db : Database
  job : JobRow
  /-- the registry row is `ACTIVE` -/
  active : Bool
  logs : List (String × String)

inductive Query
  | begin_
  | commit
  /-- `SELECT`, of the registry or of `set_config` -/
  | select
  | running
  | ddl (c : CompiledTrigger) (s : Statement)
  | activate
  | log (action status : String)
  | completed
  | settle (terminal : Bool) (attempts : ℕ) (lastError : String)

structure Clock where
  now : ℕ
  delay : ℕ

variable (clock : Clock)

/-- What a query other than `BEGIN` and `COMMIT` makes of the tables; `none` where the database refuses it. -/
def effect (w : World) : Query → Option World
  | .begin_ | .commit | .select => some w
  | .running => some { w with job := { w.job with status := .RUNNING } }
  | .ddl c s => (exec c w.db s).map fun db => { w with db := db }
  | .activate => some { w with active := true }
  | .log action status => some { w with logs := w.logs ++ [(action, status)] }
  | .completed => some { w with job := { w.job with status := .COMPLETED } }
  | .settle terminal attempts lastError => some
    { w with
      job :=
        { status := if terminal then .FAILED else .PENDING
          attempts := attempts
          lastError := some lastError
          runAt := if terminal then w.job.runAt else clock.now + clock.delay } }

inductive Transaction
  | none
  | open_ (working : World)
  | aborted

structure Connection where
  committed : World
  transaction : Transaction

/-- A query that does not fail on its own account. In an aborted transaction only its end is accepted. -/
def attempt (conn : Connection) (q : Query) : Option Connection :=
  match conn.transaction, q with
  | .aborted, .commit => some ⟨conn.committed, .none⟩
  | .aborted, _ => none
  | .open_ w, .commit => some ⟨w, .none⟩
  | .open_ w, q => (effect clock w q).map fun w' => ⟨conn.committed, .open_ w'⟩
  | .none, .begin_ => some ⟨conn.committed, .open_ conn.committed⟩
  | .none, q => (effect clock conn.committed q).map fun w' => ⟨w', .none⟩

/-- A query that fails: it aborts a transaction, and a `COMMIT` ends it. -/
def refuse (conn : Connection) (q : Query) : Connection :=
  match conn.transaction, q with
  | .open_ _, .commit => ⟨conn.committed, .none⟩
  | .open_ _, _ => ⟨conn.committed, .aborted⟩
  | _, _ => conn

inductive BlockQuery | begin_ | tenant | user | statement | commit
  deriving DecidableEq, Repr

inductive Place
  | running
  | registry
  /-- no query: the row is missing, is refused or does not compile -/
  | compile
  | during (statement : ℕ) (query : BlockQuery)
  | activate
  | log
  | completed
  deriving DecidableEq, Repr

structure RegistryRow where
  schemaName : String
  tableName : String
  triggerName : String
  definition : JsValue

structure ClaimedJob where
  tenantId : String
  attempts : ℕ
  maxAttempts : ℕ

def withName (definition : JsValue) (name : String) : JsValue :=
  match definition with
  | .obj fields => .obj (("name", .str name) :: fields.filter (·.1 ≠ "name"))
  | _ => .obj [("name", .str name)]

def compileRow (guard : UrlGuard) (tenantId : String) (row : Option RegistryRow) :
    Except FabricError CompiledTrigger :=
  match row with
  | none => unexpected "Trigger registry entry not found"
  | some trg => do
    let schema ← assertIdent (.str trg.schemaName) "schema"
    let table ← assertIdent (.str trg.tableName) "table"
    let name ← assertIdent (.str trg.triggerName) "trigger name"
    if !belongsToTenant schema tenantId then
      unexpected ("Refusing to deploy: schema \"" ++ schema ++ "\" is outside the workspace")
    else TriggerTranspiler.toSql (withName trg.definition name) ⟨schema, table, some tenantId, false, guard⟩

def block (c : CompiledTrigger) (i : ℕ) (s : Statement) : List (Place × Query) :=
  [(.during i .begin_, .begin_), (.during i .tenant, .select), (.during i .user, .select),
    (.during i .statement, .ddl c s), (.during i .commit, .commit)]

def blocks (c : CompiledTrigger) : ℕ → List Statement → List (Place × Query)
  | _, [] => []
  | i, s :: ss => block c i s ++ blocks c (i + 1) ss

def finish : List (Place × Query) :=
  [(.activate, .activate), (.log, .log "TRIGGER_DEPLOY" "SUCCESS"), (.completed, .completed)]

def runQueries (fails : Place → Bool) : List (Place × Query) → Connection → Connection × Option Place
  | [], conn => (conn, none)
  | (p, q) :: rest, conn =>
    match if fails p then none else attempt clock conn q with
    | some conn' => runQueries fails rest conn'
    | none => (refuse conn q, some p)

/-- The account of a failure; an error of its own leaves the handler. -/
def handle (job : ClaimedJob) (message : String) (conn : Connection) : Connection :=
  let attempts := job.attempts + 1
  match attempt clock conn (.settle (job.maxAttempts ≤ attempts) attempts message) with
  | none => refuse conn (.settle (job.maxAttempts ≤ attempts) attempts message)
  | some conn' => (attempt clock conn' (.log "TRIGGER_JOB" "FAILED")).getD (refuse conn' (.log "TRIGGER_JOB" "FAILED"))

def deploy (guard : UrlGuard) (job : ClaimedJob) (row : Option RegistryRow) (fails : Place → Bool) (conn : Connection) :
    Connection × Option Place :=
  let started := runQueries clock fails [(.running, .running)] conn
  match started.2 with
  | some p => (started.1, some p)
  | none =>
    match assertTenantId (.str job.tenantId) with
    | .error _ => (started.1, some .compile)
    | .ok tenantId =>
      let read := runQueries clock fails [(.registry, .select)] started.1
      match read.2 with
      | some p => (read.1, some p)
      | none =>
        match compileRow guard tenantId row with
        | .error _ => (read.1, some .compile)
        | .ok c => runQueries clock fails (blocks c 0 c.statements ++ finish) read.1

/-- The connection when it is released, and where the job has failed. -/
def processJob (guard : UrlGuard) (job : ClaimedJob) (row : Option RegistryRow) (message : String)
    (fails : Place → Bool) (conn : Connection) : Connection × Option Place :=
  let r := deploy clock guard job row fails conn
  match r.2 with
  | none => r
  | some p => (handle clock job message r.1, some p)

def inForce (db : Database) (trg : RegistryRow) : Option DbFunction × Option NativeTrigger :=
  (db.functions ⟨trg.schemaName, trg.triggerName ++ "_func"⟩,
    (db.triggers ⟨trg.schemaName, trg.tableName, trg.triggerName⟩).map (·.trigger))

structure Atomic (job : ClaimedJob) (row : Option RegistryRow) (before : World) (after : Connection) : Prop where
  kept : ∀ trg, row = some trg → inForce after.committed.db trg = inForce before.db trg
  status : after.committed.job.status = if job.maxAttempts ≤ job.attempts + 1 then .FAILED else .PENDING
  attempts : after.committed.job.attempts = job.attempts + 1
  idle : after.transaction = .none

/-- The first statements of the deployment leave the function and the trigger as they are. -/
def Current (c : CompiledTrigger) (db : Database) (done : ℕ) : Prop :=
  ∀ q b, c.function = some (q, b) →
    (1 ≤ done → db.functions q = some (.generated b)) ∧
    (done = 2 → db.triggers (keyOf c.trigger) = none) ∧
    (3 ≤ done → (db.triggers (keyOf c.trigger)).map (·.trigger) = some c.trigger)

/-- The failing query is outside of a transaction or at its end, and what has been committed changes nothing. -/
def Spared (compiled : Except FabricError CompiledTrigger) (db : Database) : Place → Prop
  | .running | .registry | .compile => True
  | .during i q => (q = .begin_ ∨ q = .commit) ∧ ∀ c, compiled = .ok c → Current c db i
  | .activate | .log | .completed => ∀ c, compiled = .ok c → Current c db 3

section

variable {clock} {fails : Place → Bool} {w : World} {c : CompiledTrigger} {p : Place}

theorem runQueries_cons (q : Query) (rest : List (Place × Query)) (conn : Connection) :
    runQueries clock fails ((p, q) :: rest) conn =
      match if fails p then none else attempt clock conn q with
      | some conn' => runQueries clock fails rest conn'
      | none => (refuse conn q, some p) := rfl

theorem runQueries_step (clock : Clock) (fails : Place → Bool) (p : Place) (q : Query) (rest : List (Place × Query))
    (conn : Connection) :
    runQueries clock fails ((p, q) :: rest) conn = (refuse conn q, some p) ∨
      ∃ conn', attempt clock conn q = some conn' ∧
        runQueries clock fails ((p, q) :: rest) conn = runQueries clock fails rest conn' := by
  rw [runQueries_cons]
  by_cases failing : fails p = true
  · rw [if_pos failing]
    exact .inl rfl
  · rw [if_neg failing]
    cases done : attempt clock conn q with
    | none => exact .inl rfl
    | some conn' => exact .inr ⟨conn', rfl, rfl⟩

theorem block_cases (clock : Clock) (fails : Place → Bool) (w : World) (c : CompiledTrigger) (i : ℕ) (s : Statement)
    (rest : List (Place × Query)) :
    (∃ db, exec c w.db s = some db ∧
      runQueries clock fails (block c i s ++ rest) ⟨w, .none⟩ =
        runQueries clock fails rest ⟨{ w with db := db }, .none⟩) ∨
    (∃ q, (q = .begin_ ∨ q = .commit) ∧
      runQueries clock fails (block c i s ++ rest) ⟨w, .none⟩ = (⟨w, .none⟩, some (.during i q))) ∨
    ∃ q, ¬ (q = .begin_ ∨ q = .commit) ∧
      runQueries clock fails (block c i s ++ rest) ⟨w, .none⟩ = (⟨w, .aborted⟩, some (.during i q)) := by
  simp only [block, List.cons_append, List.nil_append]
  rcases runQueries_step clock fails (.during i .begin_) .begin_ _ ⟨w, .none⟩ with
    stop | ⟨_, begun, goes⟩
  · exact .inr (.inl ⟨.begin_, .inl rfl, stop⟩)
  cases begun
  rw [goes]
  rcases runQueries_step clock fails (.during i .tenant) .select _ ⟨w, .open_ w⟩ with
    stop | ⟨_, begun, goes⟩
  · exact .inr (.inr ⟨.tenant, by decide, stop⟩)
  cases begun
  rw [goes]
  rcases runQueries_step clock fails (.during i .user) .select _ ⟨w, .open_ w⟩ with
    stop | ⟨_, begun, goes⟩
  · exact .inr (.inr ⟨.user, by decide, stop⟩)
  cases begun
  rw [goes]
  rcases runQueries_step clock fails (.during i .statement) (.ddl c s) _ ⟨w, .open_ w⟩ with
    stop | ⟨_, begun, goes⟩
  · exact .inr (.inr ⟨.statement, by decide, stop⟩)
  obtain ⟨w', changed, rfl⟩ := Option.map_eq_some_iff.mp begun
  obtain ⟨db, executed, rfl⟩ := Option.map_eq_some_iff.mp changed
  rw [goes]
  rcases runQueries_step clock fails (.during i .commit) .commit rest
    ⟨w, .open_ { w with db := db }⟩ with stop | ⟨_, begun, goes⟩
  · exact .inr (.inl ⟨.commit, .inr rfl, stop⟩)
  cases begun
  exact .inl ⟨db, executed, goes⟩

/-- A query that neither opens nor ends a transaction and leaves functions and triggers alone. -/
def quiet : Query → Bool
  | .begin_ | .commit | .ddl _ _ => false
  | _ => true

theorem attempt_quiet (clock : Clock) (w : World) {q : Query} (h : quiet q = true) :
    ∃ w', attempt clock ⟨w, .none⟩ q = some ⟨w', .none⟩ ∧ w'.db = w.db := by
  cases q with
  | begin_ | commit | ddl => cases h
  | select | running | activate | log | completed | settle => exact ⟨_, rfl, rfl⟩

theorem runQueries_quiet (clock : Clock) (fails : Place → Bool) (w : World) {es : List (Place × Query)}
    (h : ∀ e ∈ es, quiet e.2 = true) :
    ∃ w', w'.db = w.db ∧ (runQueries clock fails es ⟨w, .none⟩).1 = ⟨w', .none⟩ ∧
      ∀ p, (runQueries clock fails es ⟨w, .none⟩).2 = some p → p ∈ es.map Prod.fst := by
  induction es generalizing w with
  | nil => exact ⟨w, rfl, rfl, fun p hp => by cases hp⟩
  | cons e rest ih =>
    rcases e with ⟨p₀, q⟩
    rcases runQueries_step clock fails p₀ q rest ⟨w, .none⟩ with stop | ⟨_, done, goes⟩
    · rw [stop]
      refine ⟨w, rfl, by cases q <;> rfl, fun p hp => ?_⟩
      cases hp
      exact List.mem_cons_self
    · obtain ⟨w₁, done', same⟩ := attempt_quiet clock w (h (p₀, q) List.mem_cons_self)
      rw [done'] at done
      cases done
      obtain ⟨w', same', conn, places⟩ := ih (w := w₁) fun e he => h e (List.mem_cons_of_mem _ he)
      rw [goes]
      exact ⟨w', same'.trans same, conn, fun p hp => List.mem_cons_of_mem _ (places p hp)⟩

/-- What a stopped deployment leaves: the statements before are committed. -/
def Stopped (c : CompiledTrigger) (db : Database) (ss : List Statement) (i : ℕ) (conn : Connection) (p : Place) :
    Prop :=
  ∃ j, j ≤ ss.length ∧ ∃ w', execAll c (ss.take j) db = some w'.db ∧
    ((∃ q, (q = .begin_ ∨ q = .commit) ∧ p = .during (i + j) q ∧ conn = ⟨w', .none⟩) ∨
      (j = ss.length ∧ p ∈ finish.map Prod.fst ∧ conn = ⟨w', .none⟩) ∨
      ∃ q, ¬ (q = .begin_ ∨ q = .commit) ∧ p = .during (i + j) q ∧ conn = ⟨w', .aborted⟩)

theorem blocks_stopped (ss : List Statement) (i : ℕ)
    (h : (runQueries clock fails (blocks c i ss ++ finish) ⟨w, .none⟩).2 = some p) :
    Stopped c w.db ss i (runQueries clock fails (blocks c i ss ++ finish) ⟨w, .none⟩).1 p := by
  induction ss generalizing i w with
  | nil =>
    obtain ⟨w', same, conn, places⟩ := runQueries_quiet clock fails w (by decide : ∀ e ∈ finish, quiet e.2 = true)
    exact ⟨0, le_rfl, w', congrArg some same.symm, .inr (.inl ⟨rfl, places p h, conn⟩)⟩
  | cons s ss ih =>
    rw [blocks, List.append_assoc] at h ⊢
    rcases block_cases clock fails w c i s (blocks c (i + 1) ss ++ finish) with
      ⟨db, executed, goes⟩ | ⟨q, border, stop⟩ | ⟨q, inside, stop⟩
    · rw [goes] at h ⊢
      obtain ⟨j, most, w', committed, outcome⟩ := ih (i + 1) h
      refine ⟨j + 1, Nat.succ_le_succ most, w', ?_, ?_⟩
      · rw [List.take_succ_cons, execAll, executed]
        exact committed
      · rw [show i + (j + 1) = i + 1 + j by omega, List.length_cons]
        simpa only [Nat.add_right_cancel_iff] using outcome
    · rw [stop] at h ⊢
      cases h
      exact ⟨0, Nat.zero_le _, w, rfl, .inl ⟨q, border, rfl, rfl⟩⟩
    · rw [stop] at h ⊢
      cases h
      exact ⟨0, Nat.zero_le _, w, rfl, .inr (.inr ⟨q, inside, rfl, rfl⟩)⟩

end

section

variable {c : CompiledTrigger} {db db' : Database} {q : Qualified} {b : Body}

theorem statements_eq (own : c.function = some (q, b)) :
    c.statements = [.createFunction q b, .dropTrigger c.trigger.schema c.trigger.table c.trigger.name,
      .createTrigger c.trigger] := by
  rw [CompiledTrigger.statements, own]
  rfl

theorem adopt_trigger (t : Deployed) : (adopt q b t).trigger = t.trigger := by
  unfold adopt
  split <;> rfl

theorem committed_values (own : c.function = some (q, b)) {done : ℕ} (most : done ≤ 3)
    (h : execAll c (c.statements.take done) db = some db') :
    db'.functions q = (if done = 0 then db.functions q else some (.generated b)) ∧
      (db'.triggers (keyOf c.trigger)).map (·.trigger) =
        if done ≤ 1 then (db.triggers (keyOf c.trigger)).map (·.trigger)
        else if done = 2 then none else some c.trigger := by
  rw [statements_eq own] at h
  cases done with
  | zero =>
    cases h
    exact ⟨rfl, rfl⟩
  | succ done =>
    obtain ⟨first, created, h⟩ := execAll_cons h
    obtain ⟨_, rfl⟩ := exec_createFunction created
    rcases done with _ | _ | _ | done
    · cases h
      refine ⟨setFunction_self q _, ?_⟩
      rw [setTrigger_self, Option.map_map]
      exact congrArg (Option.map · _) (funext adopt_trigger)
    · cases h
      refine ⟨setFunction_self q _, congrArg (Option.map _) (setTrigger_self _ _)⟩
    · obtain ⟨second, dropped, h⟩ := execAll_cons h
      cases dropped
      obtain ⟨third, attached, h⟩ := execAll_cons h
      cases h
      rw [exec] at attached
      split at attached
      · cases attached
      · cases attached
        exact ⟨setFunction_self q _, congrArg (Option.map _) (setTrigger_self _ _)⟩
    · omega

theorem committed_iff (own : c.function = some (q, b)) {done : ℕ} (most : done ≤ 3)
    (h : execAll c (c.statements.take done) db = some db') :
    (db.functions q = db'.functions q ∧
      (db.triggers (keyOf c.trigger)).map (·.trigger) = (db'.triggers (keyOf c.trigger)).map (·.trigger)) ↔
      Current c db done := by
  have current : Current c db done ↔
      (1 ≤ done → db.functions q = some (.generated b)) ∧
      (done = 2 → db.triggers (keyOf c.trigger) = none) ∧
      (3 ≤ done → (db.triggers (keyOf c.trigger)).map (·.trigger) = some c.trigger) := by
    constructor
    · exact fun all => all q b own
    · intro this q' b' same
      rw [own] at same
      cases same
      exact this
  have values := committed_values own most h
  rw [current, values.1, values.2]
  rcases done with _ | _ | _ | _ | done
  · simp
  · simp
  · simp
  · simp
  · omega

end

section

variable {clock} {guard : UrlGuard} {job : ClaimedJob} {row : Option RegistryRow} {message : String}
variable {fails : Place → Bool} {w : World} {c : CompiledTrigger} {p : Place}

theorem withName_name (d : JsValue) (name : String) : (withName d name).get "name" = .str name := by
  cases d <;> rfl

theorem toSql_named {d : JsValue} {name : String} {ctx : CompileCtx} (hname : d.get "name" = .str name)
    (h : TriggerTranspiler.toSql d ctx = .ok c) :
    ∃ b, c.function = some (⟨ctx.schemaName, name ++ "_func"⟩, b) ∧
      c.trigger.executes = ⟨ctx.schemaName, name ++ "_func"⟩ ∧
      keyOf c.trigger = ⟨ctx.schemaName, ctx.tableName, name⟩ := by
  unfold TriggerTranspiler.toSql at h
  obtain ⟨name', read, h⟩ := bind_ok h
  rw [hname] at read
  cases (assertIdent_ok read).1
  obtain ⟨schema, read, h⟩ := bind_ok h
  cases (assertIdent_ok read).1
  obtain ⟨table, read, h⟩ := bind_ok h
  cases (assertIdent_ok read).1
  split at h
  · cases h
  · split at h
    · cases h
    · obtain ⟨body, _, h⟩ := bind_ok h
      split at h
      · cases h
      · obtain ⟨fnName, read, h⟩ := bind_ok h
        cases (assertIdent_ok read).1
        obtain ⟨when_, _, h⟩ := bind_ok h
        cases h
        exact ⟨body, rfl, rfl, rfl⟩

theorem compileRow_named (h : compileRow guard job.tenantId row = .ok c) :
    ∃ trg b, row = some trg ∧ c.function = some (⟨trg.schemaName, trg.triggerName ++ "_func"⟩, b) ∧
      c.trigger.executes = ⟨trg.schemaName, trg.triggerName ++ "_func"⟩ ∧
      keyOf c.trigger = ⟨trg.schemaName, trg.tableName, trg.triggerName⟩ := by
  cases row with
  | none => cases h
  | some trg =>
    rw [compileRow] at h
    obtain ⟨schema, read, h⟩ := bind_ok h
    cases (assertIdent_ok read).1
    obtain ⟨table, read, h⟩ := bind_ok h
    cases (assertIdent_ok read).1
    obtain ⟨name, read, h⟩ := bind_ok h
    cases (assertIdent_ok read).1
    split at h
    · cases h
    · obtain ⟨b, own, executes, key⟩ := toSql_named (withName_name _ _) h
      exact ⟨trg, b, rfl, own, executes, key⟩

theorem handle_idle (clock : Clock) (job : ClaimedJob) (message : String) (w : World) :
    ∃ w', handle clock job message ⟨w, .none⟩ = ⟨w', .none⟩ ∧ w'.db = w.db ∧
    w'.job.attempts = job.attempts + 1 ∧
    w'.job.status = if job.maxAttempts ≤ job.attempts + 1 then .FAILED else .PENDING := by
  refine ⟨_, rfl, rfl, rfl, ?_⟩
  by_cases terminal : job.maxAttempts ≤ job.attempts + 1
  · rw [if_pos terminal]
    exact if_pos (decide_eq_true terminal)
  · rw [if_neg terminal]
    exact if_neg (by rw [decide_eq_true_iff]; exact terminal)

theorem handle_aborted : handle clock job message ⟨w, .aborted⟩ = ⟨w, .aborted⟩ := rfl

theorem deploy_cases (h : (deploy clock guard job row fails ⟨w, .none⟩).2 = some p) :
    (∃ w' : World, w'.db = w.db ∧ (deploy clock guard job row fails ⟨w, .none⟩).1 = ⟨w', .none⟩ ∧
      p ∈ [.running, .registry, .compile]) ∨
    ∃ c, compileRow guard job.tenantId row = .ok c ∧
      Stopped c w.db c.statements 0 (deploy clock guard job row fails ⟨w, .none⟩).1 p := by
  obtain ⟨w₁, same₁, conn₁, places₁⟩ := runQueries_quiet clock fails w
    (by decide : ∀ e ∈ [(Place.running, Query.running)], quiet e.2 = true)
  obtain ⟨w₂, same₂, conn₂, places₂⟩ := runQueries_quiet clock fails w₁
    (by decide : ∀ e ∈ [(Place.registry, Query.select)], quiet e.2 = true)
  rw [deploy] at h ⊢
  cases begun : (runQueries clock fails [(.running, .running)] ⟨w, .none⟩).2 with
  | some p₁ =>
    simp only [begun] at h ⊢
    cases h
    have place := places₁ p begun
    exact .inl ⟨w₁, same₁, conn₁, List.mem_of_mem_head? (by simpa [eq_comm] using place)⟩
  | none =>
    simp only [begun, conn₁] at h ⊢
    cases tenant : assertTenantId (.str job.tenantId) with
    | error e =>
      simp only [tenant] at h ⊢
      cases h
      exact .inl ⟨w₁, same₁, rfl, by simp⟩
    | ok tenantId =>
      obtain ⟨_, rfl⟩ := assertTenantId_ok_iff.mp tenant
      simp only [tenant] at h ⊢
      cases read : (runQueries clock fails [(.registry, .select)] ⟨w₁, .none⟩).2 with
      | some p₂ =>
        simp only [read] at h ⊢
        cases h
        have place := places₂ p read
        exact .inl ⟨w₂, same₂.trans same₁, conn₂, by simpa using Or.inr (Or.inl (by simpa using place))⟩
      | none =>
        simp only [read, conn₂] at h ⊢
        cases compiled : compileRow guard job.tenantId row with
        | error e =>
          simp only [compiled] at h ⊢
          cases h
          exact .inl ⟨w₂, same₂.trans same₁, rfl, by simp⟩
        | ok c =>
          simp only [compiled] at h ⊢
          have stopped := blocks_stopped c.statements 0 h
          rw [same₂, same₁] at stopped
          exact .inr ⟨c, rfl, stopped⟩

theorem processJob_failed (h : (processJob clock guard job row message fails ⟨w, .none⟩).2 = some p) :
    (deploy clock guard job row fails ⟨w, .none⟩).2 = some p ∧
      (processJob clock guard job row message fails ⟨w, .none⟩).1 =
        handle clock job message (deploy clock guard job row fails ⟨w, .none⟩).1 := by
  rw [processJob] at h ⊢
  cases ended : (deploy clock guard job row fails ⟨w, .none⟩).2 with
  | none =>
    simp only [ended] at h
    cases h
  | some p' =>
    simp only [ended] at h ⊢
    exact ⟨h, trivial⟩

theorem atomic_idle (w' : World) : Atomic job row w (handle clock job message ⟨w', .none⟩) ↔
    ∀ trg, row = some trg → inForce w'.db trg = inForce w.db trg := by
  obtain ⟨w'', handled, same, attempts, status⟩ :=
    handle_idle clock job message w'
  rw [handled, ← same]
  exact ⟨fun atomic => atomic.kept, fun kept => ⟨kept, status, attempts, rfl⟩⟩

theorem inForce_iff {w' : World} {trg : RegistryRow} (compiled : compileRow guard job.tenantId (some trg) = .ok c)
    {done : ℕ} (most : done ≤ 3) (committed : execAll c (c.statements.take done) w.db = some w'.db) :
    inForce w'.db trg = inForce w.db trg ↔ Current c w.db done := by
  obtain ⟨trg', b, same, own, executes, key⟩ := compileRow_named compiled
  cases same
  rw [← committed_iff own most committed, key, inForce, inForce, Prod.mk.injEq]
  exact and_congr eq_comm eq_comm

/-- A failed deployment is atomic exactly when it fails outside of the transactions or at their borders, and the
statements committed before were current. -/
theorem deploymentAtomic_iff (clock : Clock) (guard : UrlGuard) (job : ClaimedJob) (row : Option RegistryRow)
    (message : String) (fails : Place → Bool) (w : World) (p : Place)
    (h : (processJob clock guard job row message fails ⟨w, .none⟩).2 = some p) :
    Atomic job row w (processJob clock guard job row message fails ⟨w, .none⟩).1 ↔
      Spared (compileRow guard job.tenantId row) w.db p := by
  obtain ⟨failed, handled⟩ := processJob_failed h
  rw [handled]
  rcases deploy_cases failed with ⟨w', same, conn, early⟩ | ⟨c, compiled, j, most, w', committed, outcome⟩
  · rw [conn, atomic_idle, same]
    simp only [List.mem_cons, List.not_mem_nil, or_false] at early
    rcases early with rfl | rfl | rfl
    · exact ⟨fun _ => trivial, fun _ _ _ => rfl⟩
    · exact ⟨fun _ => trivial, fun _ _ _ => rfl⟩
    · exact ⟨fun _ => trivial, fun _ _ _ => rfl⟩
  · obtain ⟨trg, b, rfl, own, _, _⟩ := compileRow_named compiled
    have three : c.statements.length = 3 := by rw [statements_eq own]; rfl
    have kept := inForce_iff (w := w) compiled (most.trans three.le) committed
    have asked : (∀ trg', some trg = some trg' → inForce w'.db trg' = inForce w.db trg') ↔
        ∀ c', compileRow guard job.tenantId (some trg) = .ok c' → Current c' w.db j := by
      constructor
      · intro all c' compiled'
        rw [compiled] at compiled'
        cases compiled'
        exact kept.mp (all trg rfl)
      · intro all trg' same
        cases same
        exact kept.mpr (all c compiled)
    rcases outcome with ⟨q, border, rfl, conn⟩ | ⟨whole, last, conn⟩ | ⟨q, inside, rfl, conn⟩
    · rw [conn, atomic_idle, asked, Nat.zero_add]
      exact ⟨fun current => ⟨border, current⟩, fun spared => spared.2⟩
    · rw [conn, atomic_idle, asked, whole, three]
      simp only [finish, List.map_cons, List.map_nil, List.mem_cons, List.not_mem_nil, or_false] at last
      rcases last with rfl | rfl | rfl
      · exact Iff.rfl
      · exact Iff.rfl
      · exact Iff.rfl
    · rw [conn, handle_aborted]
      constructor
      · intro atomic
        cases atomic.idle
      · intro spared
        exact absurd spared.1 inside

end

def halfMinute : Clock := ⟨0, 30⟩

def firstClaim : ClaimedJob := ⟨"acme", 0, 3⟩

def ordersRow : RegistryRow := ⟨"tenant_acme_sales", "orders", "note", note "b"⟩

def ordersWorld : World where
  db :=
    { functions := fun q =>
        if q = ⟨"tenant_acme_sales", "note_func"⟩ then some (.generated (noteBody "a")) else none
      triggers := fun k =>
        if k = ⟨"tenant_acme_sales", "orders", "note"⟩ then
          some ⟨(noteTrigger orders "a").trigger, (noteTrigger orders "a").function⟩
        else none }
  job := ⟨.PENDING, 0, none, 0⟩
  active := true
  logs := []

def failingAt (place : Place) : Connection × Option Place :=
  processJob halfMinute orders.engineGuard firstClaim (some ordersRow) "lock timeout" (· = place) ⟨ordersWorld, .none⟩

theorem deploymentAtomic_iff_begin : Atomic firstClaim (some ordersRow) ordersWorld (failingAt (.during 0 .begin_)).1 :=
  (deploymentAtomic_iff halfMinute orders.engineGuard firstClaim (some ordersRow) "lock timeout" (· = .during 0 .begin_)
    ordersWorld (.during 0 .begin_) rfl).mpr
    ⟨.inl rfl, fun c _ q b _ => ⟨by omega, by omega, by omega⟩⟩

/-- The `DROP TRIGGER` of the second version fails: its function is in force, the job stays `RUNNING`, and the
connection goes back inside an aborted transaction. -/
theorem drop_refused :
    (failingAt (.during 1 .statement)).2 = some (.during 1 .statement) ∧
      (failingAt (.during 1 .statement)).1.committed.db.functions ⟨"tenant_acme_sales", "note_func"⟩ =
        some (.generated (noteBody "b")) ∧
      (failingAt (.during 1 .statement)).1.committed.job.status = .RUNNING ∧
      ¬ Atomic firstClaim (some ordersRow) ordersWorld (failingAt (.during 1 .statement)).1 := by
  refine ⟨rfl, rfl, rfl, fun atomic => ?_⟩
  have idle : Transaction.aborted = .none := atomic.idle
  cases idle

end DataFabric.DeploymentFailures
