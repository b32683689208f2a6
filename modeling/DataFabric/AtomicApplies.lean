import DataFabric.FabricRecords
import DataFabric.TransactionScripts

set_option autoImplicit false

/-!
# The transaction of an apply

The statements that an apply sends to the hub, through the connection that holds its transaction and
past it.
-/
namespace DataFabric.AtomicApplies
open Manifests HubCatalog ManifestPlans FabricRecords TransactionScripts

inductive Query
  | statementTimeout
  | extension (name : String)
  | fabricSchema
  | primitive (name : String)
  | statement (s : Statement)
  | history
  | dataSource (source : String)
  | sourceOwner (source : String)
  | catalogSchema (schema : String)
  | catalogResource (schema resource : String)
  | catalogTrigger (schema table trigger : String)
  | catalogPolicy (schema table policy : String)
  | relationship (name : String)
  | schemaExists (schema : String)
  | schemaPrivileges (schema : String)
  deriving DecidableEq, Repr

inductive HubStatement
  | query (q : Query)
  | service (w : ServiceWrite)
  deriving DecidableEq, Repr

/-- A query, or the call of a service; the error of a caught query is logged and forgotten. -/
inductive Call
  | query (q : Query) (caught : Bool)
  | upsert (key : RecordKey) (value : RecordValue)
  deriving DecidableEq, Repr

def coreExtensions : List String := ["uuid-ossp", "pg_stat_statements", "pgcrypto", "btree_gist"]

def fabricPrimitives : List String :=
  ["uuid_generate_v7", "current_tenant", "current_user_id", "generate_tenant_id", "global_seq",
    "audit_log_fn"]

def ensureBaseInfrastructure : List (Query × Bool) :=
  coreExtensions.map (fun name => (.extension name, false)) ++
    (.fabricSchema, false) :: fabricPrimitives.map fun name => (.primitive name, true)

variable (checksOf : TableDefinition → List CheckRule)

def resourceCalls (t S : String) (s : SchemaDefinition) (r : ResourceDefinition) : List Call :=
  .query (.catalogResource S r.name) false ::
    match r with
    | .table tb =>
      tb.triggers.map (fun trigger => .query (.catalogTrigger S tb.name trigger.name) false) ++
      tb.policies.map (fun policy => .query (.catalogPolicy S tb.name policy.name) false) ++
      (serviceRecords checksOf t S s tb).map fun row => .upsert row.1 row.2
    | _ => []

def schemaSource (m : MetadataManifest) (s : SchemaDefinition) : String :=
  (s.targetSource <|> m.targetSource).getD hubName

/-- A schema is recorded when its source is registered; the hub's own source is registered on the
way. -/
def schemaCalls (registered : List String) (t : String) (m : MetadataManifest) (s : SchemaDefinition) :
    List Call :=
  let source := schemaSource m s
  .query (.dataSource source) false ::
    if source = hubName ∨ source ∈ registered then
      .query (.sourceOwner source) false :: .query (.catalogSchema s.name) false ::
        s.resources.flatMap (resourceCalls checksOf t ((physicalName t s.name).getD "") s)
    else []

def persistMetadataState (registered : List String) (t : String) (m : MetadataManifest) : List Call :=
  .query .history false :: m.schemas.flatMap (schemaCalls checksOf registered t m) ++
    m.relationships.map fun r => .query (.relationship r.name) true

def ensureTenantSchemaPrivileges (m : MetadataManifest) : List Call :=
  m.schemas.flatMap fun s =>
    [.query (.schemaExists s.name) false, .query (.schemaPrivileges s.name) false]

def applyCalls (registered : List String) (t : String) (m : MetadataManifest) (ss : List Statement) :
    List Call :=
  .query .statementTimeout false :: ensureBaseInfrastructure.map (fun q => .query q.1 q.2) ++
    (m.extensions.map (fun name => .query (.extension name) false) ++
      ss.map (fun s => .query (.statement s) false) ++
      persistMetadataState checksOf registered t m) ++
    ensureTenantSchemaPrivileges m

/-- A service that is not `ready` yet creates its table before it writes. -/
def expand : List Service → List Call → List (Step HubStatement)
  | _, [] => []
  | ready, .query q caught :: calls => ⟨.query q, .transaction, caught⟩ :: expand ready calls
  | ready, .upsert key value :: calls =>
    if key.service ∈ ready then
      ⟨.service (.upsert key value), .pool, false⟩ :: expand ready calls
    else
      ⟨.service (.ensureTable key.service), .pool, false⟩ ::
        ⟨.service (.upsert key value), .pool, false⟩ :: expand (key.service :: ready) calls

/-- What comparing a schema with its own source comes to. The changes of the source itself wait for the commit; the
hub gets the rest. -/
structure Elsewhere where
  creates : Bool
  highRisk : Bool
  compensations : List Statement

/-- What lies outside the code: PostgreSQL, and the registered sources. `σ` is what the transaction
writes. -/
structure Environment (σ : Type*) where
  write : σ → Services → Query → Option σ
  serves : σ → Services → ServiceWrite → Bool
  commits : σ → Services → Bool
  hub : σ → Hub
  sources : σ → List String
  elsewhere : σ → SchemaDefinition → Option Elsewhere
  /-- `validateDataSources` finds every source active. -/
  active : σ → MetadataManifest → Bool

variable {σ : Type*} (env : Environment σ) (md5 : String → String)

def engine : Engine σ Services HubStatement where
  write w τ
    | .query q => env.write w τ q
    | .service _ => none
  serve c τ
    | .query _ => none
    | .service w => if env.serves c τ w then some (τ.write w) else none
  commits := env.commits

def runPlain (τ : Services) : σ → List (Query × Bool) → Except σ σ
  | w, [] => .ok w
  | w, (q, caught) :: qs =>
    match env.write w τ q with
    | some w' => runPlain τ w' qs
    | none => if caught then runPlain τ w qs else .error w

/-- What the plan has for a schema: whether it creates it, whether it is risky, and the statements for the hub. -/
structure SchemaPlan where
  creates : Bool
  highRisk : Bool
  statements : List Statement

def schemaPlan (w : σ) (t : String) (m : MetadataManifest) (s : SchemaDefinition) : Option SchemaPlan :=
  if onHub (s.targetSource <|> m.targetSource) then
    (compareSchema (env.hub w) t s).bind fun changes =>
      (changes.mapM (compileChange md5 t m)).map fun ss =>
        ⟨Change.createSchema s.name ∈ changes, changes.any Change.highRisk, ss.flatten⟩
  else
    (physicalName t s.name).bind fun S => (env.elsewhere w s).map fun e =>
      ⟨e.creates, e.highRisk, (if e.creates then [.createSchema S] else []) ++ e.compensations⟩

/-- With `force` every schema that the plan does not create is created all the same. -/
def forcedStatements (t : String) (m : MetadataManifest) (force : Bool) (plans : List SchemaPlan) :
    Option (List Statement) :=
  if force then
    (((m.schemas.zip plans).filter fun p => !p.2.creates).mapM fun p =>
      (physicalName t p.1.name).map Statement.createSchema).map List.reverse
  else some []

/-- The statements that the transaction gets for the changes of the plan. -/
def planStatements (w : σ) (t : String) (m : MetadataManifest) (force : Bool) : Option (List Statement) :=
  (m.schemas.mapM (schemaPlan env md5 w t m)).bind fun plans =>
    if plans.any SchemaPlan.highRisk && !force then none
    else
      (forcedStatements t m force plans).bind fun forced =>
        (hubStatements md5 t m (relationshipChanges m)).map fun related =>
          forced ++ plans.flatMap SchemaPlan.statements ++ related

/-- The inputs of an apply; `ready` are the services that have created their table in this process. -/
structure Input where
  tenant : String
  manifest : MetadataManifest
  force : Bool
  ready : List Service

def stepsOf (w : σ) (a : Input) (ss : List Statement) : List (Step HubStatement) :=
  expand a.ready (applyCalls checksOf (env.sources w) a.tenant a.manifest ss)

/-- The planning has its own connection, without a transaction. -/
def applyManifest (d : σ × Services) (a : Input) : Ending × σ × Services :=
  if validateManifestDocument a.manifest = [] ∧ env.active d.1 a.manifest = true then
    match runPlain env d.2 d.1 ensureBaseInfrastructure with
    | .error w => (.thrown, w, d.2)
    | .ok w =>
      match planStatements env md5 w a.tenant a.manifest a.force with
      | none => (.thrown, w, d.2)
      | some ss => transact (engine env) (w, d.2) (stepsOf checksOf env w a ss)
  else (.thrown, d)

/-- The apply gets to its transaction on the database `w`, with these steps. -/
structure Opens (d : σ × Services) (a : Input) (w : σ) (steps : List (Step HubStatement)) : Prop where
  valid : validateManifestDocument a.manifest = []
  active : env.active d.1 a.manifest = true
  planned : runPlain env d.2 d.1 ensureBaseInfrastructure = .ok w
  compiled : ∃ ss, planStatements env md5 w a.tenant a.manifest a.force = some ss ∧
    steps = stepsOf checksOf env w a ss

/-- An error that is thrown leaves the hub as it was before the call; one that is swallowed in the
transaction neither makes the rest fail nor has it discarded. -/
structure Atomic (d : σ × Services) (a : Input) : Prop where
  restores : (applyManifest checksOf env md5 d a).1 = .thrown →
    (applyManifest checksOf env md5 d a).2 = d
  unrefused : ∀ w steps, Opens checksOf env md5 d a w steps → ∀ pre e s,
    Before (engine env) (w, d.2) steps pre e s → e.via = .transaction → s.aborted = false
  kept : ∀ w steps, Opens checksOf env md5 d a w steps → ∀ s,
    runSteps (engine env) w (begin_ (w, d.2)) steps = .ok s → s.aborted = false

/-- A statement that leaves the services' tables as they were before the call. -/
def Harmless (τ : Services) (e : Step HubStatement) : Prop :=
  match e.statement with
  | .query _ => True
  | .service w => Idle τ w

/-- No swallowed statement of the transaction is refused. When another statement is refused, the plan
or the commit, the planning has added nothing to the database and no service has written. -/
structure Undisturbed (d : σ × Services) (a : Input) : Prop where
  planning : validateManifestDocument a.manifest = [] → env.active d.1 a.manifest = true →
    ∀ w, runPlain env d.2 d.1 ensureBaseInfrastructure = .error w → w = d.1
  plan : validateManifestDocument a.manifest = [] → env.active d.1 a.manifest = true →
    ∀ w, runPlain env d.2 d.1 ensureBaseInfrastructure = .ok w →
      planStatements env md5 w a.tenant a.manifest a.force = none → w = d.1
  caught : ∀ w steps, Opens checksOf env md5 d a w steps → ∀ pre e s,
    Before (engine env) (w, d.2) steps pre e s → e.via = .transaction → e.caught = true →
      (attempt (engine env) w s e).isSome = true
  refused : ∀ w steps, Opens checksOf env md5 d a w steps → ∀ pre e s,
    Before (engine env) (w, d.2) steps pre e s → attempt (engine env) w s e = none →
      e.caught = false → w = d.1 ∧ ∀ e' ∈ pre, Harmless d.2 e'
  commit : ∀ w steps, Opens checksOf env md5 d a w steps → ∀ s,
    runSteps (engine env) w (begin_ (w, d.2)) steps = .ok s →
      env.commits s.working s.shared = false → w = d.1 ∧ ∀ e' ∈ steps, Harmless d.2 e'

section Steps

variable {env} {ready : List Service} {calls rest : List Call} {e : Step HubStatement} {w : σ}
  {s s' : Session σ Services} {steps : List (Step HubStatement)}

/-- Queries run in the transaction, the services write past it. -/
def Separated (e : Step HubStatement) : Prop :=
  (∃ q, e.statement = .query q ∧ e.via = .transaction) ∨
    ∃ w, e.statement = .service w ∧ e.via = .pool ∧ e.caught = false

theorem expand_separated (he : e ∈ expand ready calls) : Separated e := by
  induction calls generalizing ready with
  | nil => cases he
  | cons call calls ih =>
    cases call with
    | query q caught =>
      rcases List.mem_cons.mp he with rfl | he
      · exact .inl ⟨q, rfl, rfl⟩
      · exact ih he
    | upsert key value =>
      rw [expand] at he
      split at he
      · rcases List.mem_cons.mp he with rfl | he
        · exact .inr ⟨_, rfl, rfl, rfl⟩
        · exact ih he
      · rcases List.mem_cons.mp he with rfl | he
        · exact .inr ⟨_, rfl, rfl, rfl⟩
        rcases List.mem_cons.mp he with rfl | he
        · exact .inr ⟨_, rfl, rfl, rfl⟩
        · exact ih he

def FollowedCalls : List Call → Prop
  | [] => True
  | .query _ caught :: calls =>
    (caught = true → ∃ q caught' calls', calls = .query q caught' :: calls') ∧ FollowedCalls calls
  | .upsert _ _ :: calls => FollowedCalls calls

theorem followed_expand (h : FollowedCalls calls) : Followed (expand ready calls) := by
  induction calls generalizing ready with
  | nil =>
    intro pre e post hsplit
    cases pre <;> cases hsplit
  | cons call calls ih =>
    cases call with
    | query q caught =>
      refine (ih h.2).cons fun _ hcaught => ?_
      obtain ⟨q', caught', calls', rfl⟩ := h.1 hcaught
      exact ⟨_, _, rfl, rfl⟩
    | upsert key value =>
      rw [expand]
      split
      · exact (ih h).cons fun hvia => by cases hvia
      · exact ((ih h).cons fun hvia => by cases hvia).cons fun hvia => by cases hvia

theorem followed_uncaught (h : FollowedCalls rest)
    (hcalls : ∀ call ∈ calls, ∀ q, call ≠ .query q true) : FollowedCalls (calls ++ rest) := by
  induction calls with
  | nil => exact h
  | cons call calls ih =>
    have ih := ih fun call' hcall' => hcalls call' (List.mem_cons_of_mem _ hcall')
    cases call with
    | upsert key value => exact ih
    | query q caught =>
      refine ⟨fun hcaught => ?_, ih⟩
      subst hcaught
      exact absurd rfl (hcalls _ List.mem_cons_self q)

theorem followed_query {q : Query} (h : FollowedCalls calls) : FollowedCalls (.query q false :: calls) :=
  ⟨nofun, h⟩

theorem followed_queries (qs : List (Query × Bool)) (h : FollowedCalls rest)
    (hrest : ∃ q caught calls, rest = .query q caught :: calls) :
    FollowedCalls (qs.map (fun q => .query q.1 q.2) ++ rest) := by
  induction qs with
  | nil => exact h
  | cons q qs ih =>
    refine ⟨fun _ => ?_, ih⟩
    cases qs with
    | nil => exact hrest
    | cons q' qs => exact ⟨q'.1, q'.2, _, rfl⟩

theorem schemaCalls_uncaught {registered : List String} {t : String} {m : MetadataManifest}
    {sd : SchemaDefinition} {call : Call} (hcall : call ∈ schemaCalls checksOf registered t m sd) (q : Query) :
    call ≠ .query q true := by
  rintro rfl
  rcases List.mem_cons.mp hcall with hcall | hcall
  · cases hcall
  split at hcall
  · rcases List.mem_cons.mp hcall with hcall | hcall
    · cases hcall
    rcases List.mem_cons.mp hcall with hcall | hcall
    · cases hcall
    obtain ⟨r, _, hcall⟩ := List.mem_flatMap.mp hcall
    rcases List.mem_cons.mp hcall with hcall | hcall
    · cases hcall
    cases r with
    | table tb =>
      simp at hcall
    | _ => cases hcall
  · cases hcall

theorem privileges_queries {m : MetadataManifest} (hvalid : validateManifestDocument m = []) :
    ∃ q caught calls, ensureTenantSchemaPrivileges m = .query q caught :: calls := by
  cases hschemas : m.schemas with
  | nil =>
    rw [validateManifestDocument, hschemas] at hvalid
    cases hvalid
  | cons sd schemas =>
    rw [ensureTenantSchemaPrivileges, hschemas]
    exact ⟨_, _, _, rfl⟩

theorem followed_applyCalls {registered : List String} {t : String} {m : MetadataManifest}
    {ss : List Statement} (hvalid : validateManifestDocument m = []) :
    FollowedCalls (applyCalls checksOf registered t m ss) := by
  have hprivileges : FollowedCalls (ensureTenantSchemaPrivileges m) := by
    rw [← List.append_nil (ensureTenantSchemaPrivileges m)]
    refine followed_uncaught trivial fun call hcall q => ?_
    rintro rfl
    simp [ensureTenantSchemaPrivileges] at hcall
  have hrelationships : FollowedCalls
      ((m.relationships.map fun r => Call.query (.relationship r.name) true) ++
        ensureTenantSchemaPrivileges m) := by
    have hqueries := followed_queries (m.relationships.map fun r => (.relationship r.name, true))
      hprivileges (privileges_queries hvalid)
    rwa [List.map_map] at hqueries
  have hpersist : FollowedCalls (persistMetadataState checksOf registered t m ++
      ensureTenantSchemaPrivileges m) := by
    rw [persistMetadataState, List.append_assoc]
    refine followed_uncaught hrelationships fun call hcall q => ?_
    rcases List.mem_cons.mp hcall with rfl | hcall
    · exact nofun
    · obtain ⟨sd, _, hcall⟩ := List.mem_flatMap.mp hcall
      exact schemaCalls_uncaught checksOf hcall q
  have hstatements : FollowedCalls (m.extensions.map (fun name => Call.query (.extension name) false) ++
      ss.map (fun st => Call.query (.statement st) false) ++
      persistMetadataState checksOf registered t m ++ ensureTenantSchemaPrivileges m) := by
    rw [List.append_assoc _ (persistMetadataState checksOf registered t m)]
    refine followed_uncaught hpersist fun call hcall q => ?_
    rintro rfl
    simp at hcall
  have hstart : ∃ q caught calls, m.extensions.map (fun name => Call.query (.extension name) false) ++
      ss.map (fun st => Call.query (.statement st) false) ++
      persistMetadataState checksOf registered t m ++ ensureTenantSchemaPrivileges m =
        .query q caught :: calls := by
    cases m.extensions with
    | cons name names =>
      rw [List.map_cons, List.cons_append, List.cons_append, List.cons_append]
      exact ⟨_, _, _, rfl⟩
    | nil =>
      rw [List.map_nil, List.nil_append]
      cases ss with
      | cons st ss =>
        rw [List.map_cons, List.cons_append, List.cons_append]
        exact ⟨_, _, _, rfl⟩
      | nil =>
        rw [List.map_nil, List.nil_append, persistMetadataState, List.cons_append, List.cons_append]
        exact ⟨_, _, _, rfl⟩
  rw [applyCalls, List.append_assoc, List.cons_append]
  exact followed_query (followed_queries ensureBaseInfrastructure hstatements hstart)

theorem attempt_transaction (hvia : e.via = .transaction)
    (h : attempt (engine env) w s e = some s') : s'.shared = s.shared := by
  unfold attempt at h
  rw [hvia] at h
  dsimp only at h
  split at h
  · cases h
  · obtain ⟨w', _, rfl⟩ := Option.map_eq_some_iff.mp h
    rfl

theorem attempt_service {sw : ServiceWrite} (he : e.statement = .service sw) (hvia : e.via = .pool)
    (h : attempt (engine env) w s e = some s') : s'.shared = s.shared.write sw := by
  unfold attempt at h
  rw [hvia, he] at h
  obtain ⟨τ, hτ, rfl⟩ := Option.map_eq_some_iff.mp h
  change (if env.serves w s.shared sw then some (s.shared.write sw) else none) = some τ at hτ
  split at hτ
  · exact (Option.some.inj hτ).symm
  · cases hτ

theorem runSteps_shared (τ₀ : Services) (hseparated : ∀ e ∈ steps, Separated e)
    (hrun : runSteps (engine env) w s steps = .ok s') (hs : s.shared = τ₀ ∨ Grown τ₀ s.shared) :
    (s'.shared = τ₀ ∧ s.shared = τ₀ ∧ ∀ e ∈ steps, Harmless τ₀ e) ∨ Grown τ₀ s'.shared ∧
      (Grown τ₀ s.shared ∨ ¬ ∀ e ∈ steps, Harmless τ₀ e) := by
  induction steps generalizing s with
  | nil =>
    cases hrun
    rcases hs with hs | hs
    · exact .inl ⟨hs, hs, List.forall_mem_nil _⟩
    · exact .inr ⟨hs, .inl hs⟩
  | cons e steps ih =>
    have hlater : ∀ e ∈ steps, Separated e := fun e' he' => hseparated e' (List.mem_cons_of_mem e he')
    rw [runSteps] at hrun
    -- a query, run or refused, leaves the services alone
    have hquiet {s₁ : Session σ Services} (hsame : s₁.shared = s.shared) (hharmless : Harmless τ₀ e)
        (hrest : runSteps (engine env) w s₁ steps = .ok s') :
        (s'.shared = τ₀ ∧ s.shared = τ₀ ∧ ∀ e' ∈ e :: steps, Harmless τ₀ e') ∨ Grown τ₀ s'.shared ∧
          (Grown τ₀ s.shared ∨ ¬ ∀ e' ∈ e :: steps, Harmless τ₀ e') := by
      rw [List.forall_mem_cons, and_iff_right hharmless, ← hsame]
      rw [← hsame] at hs
      exact ih hlater hrest hs
    rcases hseparated e List.mem_cons_self with ⟨q, hq, hvia⟩ | ⟨sw, hsw, hvia, hcaught⟩
    · have hharmless : Harmless τ₀ e := by
        rw [Harmless, hq]
        trivial
      cases hattempt : attempt (engine env) w s e with
      | some s₁ =>
        rw [hattempt] at hrun
        change runSteps (engine env) w s₁ steps = .ok s' at hrun
        exact hquiet (attempt_transaction hvia hattempt) hharmless hrun
      | none =>
        rw [hattempt] at hrun
        dsimp only at hrun
        split at hrun
        · exact hquiet refuse_shared hharmless hrun
        · cases hrun
    · cases hattempt : attempt (engine env) w s e with
      | none =>
        rw [hattempt, hcaught] at hrun
        cases hrun
      | some s₁ =>
        rw [hattempt] at hrun
        change runSteps (engine env) w s₁ steps = .ok s' at hrun
        have hwrite := attempt_service hsw hvia hattempt
        have hharmless : Harmless τ₀ e ↔ Idle τ₀ sw := by rw [Harmless, hsw]
        rcases hs with hs | hs
        · by_cases hidle : Idle τ₀ sw
          · have hsame : s.shared.write sw = s.shared := by
              rw [hs]
              exact idle_write hidle
            exact hquiet (hwrite.trans hsame) (hharmless.mpr hidle) hrun
          · have hgrown : Grown τ₀ s₁.shared := by
              rw [hwrite, hs]
              exact grown_of_not_idle hidle
            have hnot : ¬ ∀ e' ∈ e :: steps, Harmless τ₀ e' := fun hall =>
              hidle (hharmless.mp (hall e List.mem_cons_self))
            rcases ih hlater hrun (.inr hgrown) with ⟨_, hsame, _⟩ | ⟨hgrown', _⟩
            · exact absurd hsame hgrown.ne
            · exact .inr ⟨hgrown', .inr hnot⟩
        · have hgrown : Grown τ₀ s₁.shared := by
            rw [hwrite]
            exact hs.write sw
          rcases ih hlater hrun (.inr hgrown) with ⟨_, hsame, _⟩ | ⟨hgrown', _⟩
          · exact absurd hsame hgrown.ne
          · exact .inr ⟨hgrown', .inl hs⟩

theorem shared_iff (hseparated : ∀ e ∈ steps, Separated e)
    (hrun : runSteps (engine env) w s steps = .ok s') :
    s'.shared = s.shared ↔ ∀ e ∈ steps, Harmless s.shared e := by
  rcases runSteps_shared s.shared hseparated hrun (.inl rfl) with
    ⟨hsame, _, hall⟩ | ⟨hgrown, hgrown' | hnot⟩
  · exact iff_of_true hsame hall
  · exact absurd rfl hgrown'.ne
  · exact iff_of_false hgrown.ne hnot

end Steps

section Applies

variable {checksOf env md5} {d : σ × Services} {a : Input} {w : σ} {steps : List (Step HubStatement)}

theorem Opens.transact (o : Opens checksOf env md5 d a w steps) :
    applyManifest checksOf env md5 d a = TransactionScripts.transact (engine env) (w, d.2) steps := by
  obtain ⟨hvalid, hactive, hplanned, ss, hss, rfl⟩ := o
  rw [applyManifest, if_pos ⟨hvalid, hactive⟩, hplanned]
  dsimp only
  rw [hss]

theorem Opens.separated (o : Opens checksOf env md5 d a w steps) : ∀ e ∈ steps, Separated e := by
  obtain ⟨_, _, _, ss, _, rfl⟩ := o
  exact fun e he => expand_separated he

theorem Opens.followed (o : Opens checksOf env md5 d a w steps) : Followed steps := by
  obtain ⟨hvalid, _, _, ss, _, rfl⟩ := o
  exact followed_expand (followed_applyCalls checksOf hvalid)

theorem Opens.harmless_iff (o : Opens checksOf env md5 d a w steps) {pre post : List (Step HubStatement)}
    {s : Session σ Services} (hsteps : steps = pre ++ post)
    (hrun : runSteps (engine env) w (begin_ (w, d.2)) pre = .ok s) :
    s.shared = d.2 ↔ ∀ e ∈ pre, Harmless d.2 e :=
  shared_iff (fun e he => o.separated e (hsteps ▸ List.mem_append_left post he)) hrun

theorem Atomic.script (h : Atomic checksOf env md5 d a) (o : Opens checksOf env md5 d a w steps) :
    AllOrNothing (engine env) (w, d.2) steps := by
  refine ⟨fun hthrown => ?_, h.unrefused w steps o, h.kept w steps o⟩
  have hrestores := h.restores
  rw [o.transact] at hrestores
  have hshared : (TransactionScripts.transact (engine env) (w, d.2) steps).2.2 = d.2 :=
    congrArg Prod.snd (hrestores hthrown)
  exact Prod.ext (transact_thrown hthrown) hshared

theorem Atomic.planned (h : Atomic checksOf env md5 d a) (o : Opens checksOf env md5 d a w steps)
    (hthrown : (TransactionScripts.transact (engine env) (w, d.2) steps).1 = .thrown) : w = d.1 := by
  have hrestores := h.restores
  rw [o.transact] at hrestores
  exact (transact_thrown hthrown).symm.trans (congrArg Prod.fst (hrestores hthrown))

theorem undisturbed_of_atomic (h : Atomic checksOf env md5 d a) : Undisturbed checksOf env md5 d a := by
  have hrestores := h.restores
  refine ⟨fun hvalid hactive w hw => ?_, fun hvalid hactive w hw hnone => ?_,
    fun w steps o pre e s hbefore hvia hcaught => ?_, fun w steps o pre e s hbefore hattempt hcaught => ?_,
    fun w steps o s hrun hcommits => ?_⟩
  · rw [applyManifest, if_pos ⟨hvalid, hactive⟩, hw] at hrestores
    exact congrArg Prod.fst (hrestores rfl)
  · rw [applyManifest, if_pos ⟨hvalid, hactive⟩, hw] at hrestores
    dsimp only at hrestores
    rw [hnone] at hrestores
    exact congrArg Prod.fst (hrestores rfl)
  · exact (sound_of_allOrNothing o.followed (h.script o)).caught pre e s hbefore hvia hcaught
  · have hsound := sound_of_allOrNothing o.followed (h.script o)
    have hshared := hsound.refused pre e s hbefore hattempt hcaught
    obtain ⟨⟨post, hsteps⟩, hpre⟩ := hbefore
    refine ⟨h.planned o (transact_refused ⟨⟨post, hsteps⟩, hpre⟩ hattempt hcaught), ?_⟩
    exact (o.harmless_iff hsteps hpre).mp hshared
  · have hsound := sound_of_allOrNothing o.followed (h.script o)
    refine ⟨h.planned o (transact_uncommitted hrun (h.kept w steps o s hrun) hcommits), ?_⟩
    exact (o.harmless_iff (List.append_nil steps).symm hrun).mp (hsound.commit s hrun hcommits)

theorem Undisturbed.sound (h : Undisturbed checksOf env md5 d a) (o : Opens checksOf env md5 d a w steps) :
    Sound (engine env) (w, d.2) steps := by
  refine ⟨h.caught w steps o, fun pre e s hbefore hattempt hcaught => ?_, fun s hrun hcommits => ?_⟩
  · have hharmless := (h.refused w steps o pre e s hbefore hattempt hcaught).2
    obtain ⟨⟨post, hsteps⟩, hpre⟩ := hbefore
    exact (o.harmless_iff hsteps hpre).mpr hharmless
  · exact (o.harmless_iff (List.append_nil steps).symm hrun).mpr (h.commit w steps o s hrun hcommits).2

theorem Undisturbed.base (h : Undisturbed checksOf env md5 d a) (o : Opens checksOf env md5 d a w steps)
    (hthrown : (TransactionScripts.transact (engine env) (w, d.2) steps).1 = .thrown) : w = d.1 := by
  unfold TransactionScripts.transact at hthrown
  cases hrun : runSteps (engine env) w (begin_ (w, d.2)) steps with
  | error s =>
    obtain ⟨pre, e, post, s₀, hsteps, hpre, hattempt, hcaught, _⟩ := runSteps_error hrun
    exact (h.refused w steps o pre e s₀ ⟨⟨post, hsteps⟩, hpre⟩ hattempt hcaught).1
  | ok s =>
    rw [hrun] at hthrown
    dsimp only at hthrown
    split_ifs at hthrown with _ hcommits
    exact (h.commit w steps o s hrun (Bool.eq_false_iff.mpr hcommits)).1

theorem atomic_of_undisturbed (h : Undisturbed checksOf env md5 d a) : Atomic checksOf env md5 d a := by
  refine ⟨fun hthrown => ?_, fun w steps o => (allOrNothing_of_sound (h.sound o)).unrefused,
    fun w steps o => (allOrNothing_of_sound (h.sound o)).kept⟩
  unfold applyManifest at hthrown ⊢
  split at hthrown
  · rename_i hstart
    rw [if_pos hstart]
    cases hplanned : runPlain env d.2 d.1 ensureBaseInfrastructure with
    | error w => exact Prod.ext (h.planning hstart.1 hstart.2 w hplanned) rfl
    | ok w =>
      rw [hplanned] at hthrown
      dsimp only at hthrown ⊢
      cases hss : planStatements env md5 w a.tenant a.manifest a.force with
      | none => exact Prod.ext (h.plan hstart.1 hstart.2 w hplanned hss) rfl
      | some ss =>
        rw [hss] at hthrown
        have o : Opens checksOf env md5 d a w (stepsOf checksOf env w a ss) :=
          ⟨hstart.1, hstart.2, hplanned, ss, hss, rfl⟩
        exact ((allOrNothing_of_sound (h.sound o)).restores hthrown).trans
          (Prod.ext (h.base o hthrown) rfl)
  · rename_i hstart
    rw [if_neg hstart]

end Applies

/-- An apply is all or nothing exactly under the condition. -/
theorem atomic_iff (d : σ × Services) (a : Input) :
    Atomic checksOf env md5 d a ↔ Undisturbed checksOf env md5 d a :=
  ⟨undisturbed_of_atomic, atomic_of_undisturbed⟩

def unprivileged : Environment Hub where
  write h _
    | .statement s => exec lenient h s
    | .schemaPrivileges _ => none
    | _ => some h
  serves _ _ _ := true
  commits _ _ := true
  hub h := h
  sources _ := []
  elsewhere _ _ := none
  active _ _ := true

def guardedTable : TableDefinition :=
  ⟨"orders", [plainColumn "total" "NUMERIC"], none, [], none, false, [], [],
    [⟨"own_region", [], ["region EQ session.region"], []⟩], [], []⟩

def guardedInput : Input where
  tenant := "acme"
  manifest := ⟨none, [], [⟨"app", none, [.table guardedTable]⟩], []⟩
  force := false
  ready := [.PolicyService, .GrantService, .ConstraintService]

theorem policy_survives_rollback :
    ¬ Atomic (fun _ => []) unprivileged id (emptyHub, ⟨[], []⟩) guardedInput := by
  intro h
  have hrun : (applyManifest (fun _ => []) unprivileged id (emptyHub, ⟨[], []⟩) guardedInput).1 = .thrown ∧
      (applyManifest (fun _ => []) unprivileged id (emptyHub, ⟨[], []⟩) guardedInput).2.2.rows.length = 1 := by
    decide +kernel
  have hrows := hrun.2
  rw [h.restores hrun.1] at hrows
  cases hrows

end DataFabric.AtomicApplies
