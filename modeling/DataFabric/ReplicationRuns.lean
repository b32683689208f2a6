import DataFabric.CopyJobs
import DataFabric.ExceptRules
import DataFabric.HubReplicas
import DataFabric.Restores

set_option autoImplicit false

/-!
# What a replication run reports to the engine

A run returns the object of a finished run, the object of a skipped one, or throws; the engine reads
the outcome of the job off what it gets. The copy of one table is given by its answer.
-/
namespace DataFabric.ReplicationRuns
open CharText ExceptRules HubReplicas ReplicaTables
open Restores
open CopyJobs hiding Strategy Job

structure ReplicationJob where
  sourceName : String
  destName : String
  strategy : Strategy
  destSchema : Option String

inductive Thrown
  | copyPaused
  | error (message : String)
  deriving DecidableEq

/-- What the copy of a table has brought, and how many documents a bulk request has refused, which
`insertDocs` leaves out of its count. -/
structure Copied where
  rows : ℕ
  refused : ℕ
  deriving DecidableEq

inductive Copier | cdcRun | copyTableEs | copyTableMongo | copyTableMySql | copyTableGeneric | copyTable
  deriving DecidableEq

structure Selected where
  schema : String
  table : String
  targetSchema : String
  deriving DecidableEq

/-- The answers of the control database and of both connectors during a run; a query that fails
answers with its message. -/
structure Answers where
  getJob : Option ReplicationJob
  /-- The engine of a registered source. -/
  getSource : String → Option String
  handshake : Except String Unit
  createSchema : String → Except String Unit
  discoverSchemas : Except String (List String)
  discoverTables : String → Except String (List Discovered)
  /-- A table whose checkpoint is done answers with the rows an earlier attempt of the job copied. -/
  copy : Copier → Selected → Except Thrown Copied
  /-- The statement that writes `last_status`. -/
  record : Except String Unit

structure Result where
  status : String
  error : Option String
  tables : List (Selected × Copied)
  errors : Option (List String)

/-- `this.copyTable*` by destination; CDC has one path for all of them. -/
def copierFor (kind : DestKind) (strategy : Strategy) (forceFull : Bool) : Copier :=
  if strategy = .CDC ∧ !forceFull then .cdcRun
  else match kind with
    | .es => .copyTableEs
    | .mongo => .copyTableMongo
    | .mysql => .copyTableMySql
    | .oracle => .copyTableGeneric
    | .pg | .snowflake => .copyTable

def throws {α : Type} : Except String α → Except Thrown α
  | .ok a => .ok a
  | .error message => .error (.error message)

def ofNone {α : Type} (message : String) : Option α → Except Thrown α
  | some a => .ok a
  | none => .error (.error message)

/-- One turn of the inner loop: an error is kept for the table, a pause ends the run. -/
def copyOne (a : Answers) (copier : Copier) (r : Result) (t : Selected) : Except Thrown Result :=
  match a.copy copier t with
  | .ok c => .ok { r with tables := r.tables ++ [(t, c)] }
  | .error .copyPaused => .error .copyPaused
  | .error (.error message) =>
    .ok { r with errors := r.errors.map (· ++ [t.schema ++ "." ++ t.table ++ ": " ++ message]) }

def userSchemas (schemas : List String) : List String :=
  schemas.filter fun s => asciiLower s ∉ systemSchemas

def selectedIn (job : ReplicationJob) (multiSchema : Bool) (schema : String) (tables : List Discovered) :
    List Selected :=
  (tables.filter Discovered.isTable).map fun t =>
    ⟨schema, t.name, targetSchema ⟨job.strategy, job.destSchema, false⟩ multiSchema schema⟩

def copySchema (a : Answers) (job : ReplicationJob) (kind : DestKind) (copier : Copier)
    (multiSchema : Bool) (r : Result) (schema : String) : Except Thrown Result := do
  let target := targetSchema ⟨job.strategy, job.destSchema, false⟩ multiSchema schema
  if kind = .pg then throws (a.createSchema target)
  let tables ← throws (a.discoverTables schema)
  (selectedIn job multiSchema schema tables).foldlM (copyOne a copier) r

def fromName (job : ReplicationJob) (reverse : Bool) : String :=
  if reverse then job.destName else job.sourceName

def toName (job : ReplicationJob) (reverse : Bool) (overrideDest : Option String) : String :=
  if reverse then (overrideDest.filter (· ≠ "")).getD job.sourceName else job.destName

def runOnce (a : Answers) (reverse : Bool) (overrideDest : Option String) (forceFull : Bool) :
    Except Thrown Result := do
  let job ← ofNone "replication job not found" a.getJob
  let source := fromName job reverse
  let dest := toName job reverse overrideDest
  let _ ← ofNone s!"data source \"{source}\" not found" (a.getSource source)
  let engine ← ofNone s!"data source \"{dest}\" not found" (a.getSource dest)
  let kind ← ofNone
    (s!"destination \"{dest}\" ({engine}) is not a supported replication target yet — use " ++
      "PostgreSQL, MySQL, MongoDB, Oracle (same-engine DR) or Elasticsearch (query accelerator).")
    (destKindOf engine)
  throws (a.handshake.mapError fun m => s!"destination \"{dest}\" handshake failed: {m}")
  if kind = .pg then throws (a.createSchema ((job.destSchema.filter (· ≠ "")).getD "public"))
  let schemas ← throws a.discoverSchemas
  let user := userSchemas schemas
  let r ← user.foldlM
    (copySchema a job kind (copierFor kind job.strategy forceFull) (1 < user.length))
    ⟨"", none, [], some []⟩
  throws a.record
  return { r with status := if r.errors = some [] then "SUCCESS" else "PARTIAL" }

def lockKey (tenantId id : String) (reverse : Bool) : String :=
  "repl:" ++ tenantId ++ ":" ++ id ++ ":" ++ if reverse then "restore" else "run"

def run (running : List String) (a : Answers) (tenantId id : String) (reverse : Bool)
    (overrideDest : Option String) (forceFull : Bool) : Except Thrown Result :=
  if lockKey tenantId id reverse ∈ running then
    .ok ⟨"SKIPPED", some "a run for this job is already in progress", [], none⟩
  else runOnce a reverse overrideDest forceFull

/-- A job that replicates, the other way round with the source to restore. -/
inductive RunKind
  | replicate
  | restore (targetSource : Option String)

def RunKind.reverse : RunKind → Bool
  | replicate => false
  | restore _ => true

def RunKind.overrideDest : RunKind → Option String
  | replicate => none
  | restore targetSource => targetSource

def execute (running : List String) (a : Answers) (kind : RunKind) (e : Execution) :
    Except Thrown Result :=
  run running a e.key.tenantId e.key.jobRef kind.reverse kind.overrideDest e.forceFull

/-- What the engine makes of it: a run has failed when its `errors` are there and not empty. -/
def outcome : Except Thrown Result → Phase
  | .ok r => .returned (r.errors.getD [])
  | .error .copyPaused => .paused
  | .error (.error message) => .thrown message

def processOne (running : List String) (a : Answers) (kind : RunKind) (e : Execution)
    (j : CopyJobs.Job) : CopyJobs.Job :=
  (settled { e with phase := outcome (execute running a kind e) } j).getD j

def selected (a : Answers) : List Selected :=
  match a.getJob, a.discoverSchemas with
  | some job, .ok schemas => (userSchemas schemas).flatMap fun s =>
    match a.discoverTables s with
    | .ok tables => selectedIn job (1 < (userSchemas schemas).length) s tables
    | .error _ => []
  | _, _ => []

/-- Every table was copied by the run, and nothing of it refused. -/
def TablesCopied (a : Answers) (r : Except Thrown Result) : Prop :=
  ∀ t ∈ selected a, ∃ result c, r = .ok result ∧ (t, c) ∈ result.tables ∧ c.refused = 0

structure SchemaAnswered (a : Answers) (job : ReplicationJob) (kind : DestKind) (copier : Copier)
    (multiSchema : Bool) (schema : String) : Prop where
  created : kind = .pg →
    a.createSchema (targetSchema ⟨job.strategy, job.destSchema, false⟩ multiSchema schema) = .ok ()
  copied : ∃ tables, a.discoverTables schema = .ok tables ∧
    ∀ t ∈ selectedIn job multiSchema schema tables, ∃ c, a.copy copier t = .ok c

structure Answered (a : Answers) (reverse : Bool) (overrideDest : Option String) (forceFull : Bool)
    (job : ReplicationJob) (kind : DestKind) : Prop where
  found : a.getJob = some job
  source : (a.getSource (fromName job reverse)).isSome = true
  dest : ∃ engine, a.getSource (toName job reverse overrideDest) = some engine ∧
    destKindOf engine = some kind
  handshake : a.handshake = .ok ()
  created : kind = .pg → a.createSchema ((job.destSchema.filter (· ≠ "")).getD "public") = .ok ()
  schemas : ∃ schemas, a.discoverSchemas = .ok schemas ∧ ∀ s ∈ userSchemas schemas,
    SchemaAnswered a job kind (copierFor kind job.strategy forceFull)
      (1 < (userSchemas schemas).length) s
  record : a.record = .ok ()

/-- No other run holds the lock, and where nothing fails no bulk request refuses a document; or there
is nothing to copy. -/
def RunsAlone (running : List String) (a : Answers) (kind : RunKind) (e : Execution) : Prop :=
  selected a = [] ∨ lockKey e.key.tenantId e.key.jobRef kind.reverse ∉ running ∧
    ∀ job dest, Answered a kind.reverse kind.overrideDest e.forceFull job dest →
      ∀ t ∈ selected a, ∀ c, a.copy (copierFor dest job.strategy e.forceFull) t = .ok c → c.refused = 0

/-- What the copies of the tables bring when none of them fails. -/
def copies (a : Answers) (copier : Copier) (ts : List Selected) : List (Selected × Copied) :=
  ts.filterMap fun t => (a.copy copier t).toOption.map fun c => (t, c)

theorem foldlM_grown {β : Type} {f : Result → β → Except Thrown Result}
    {g : β → List (Selected × Copied)} {xs : List β} (r : Result)
    (hf : ∀ x ∈ xs, ∀ r, f r x = .ok { r with tables := r.tables ++ g x }) :
    xs.foldlM f r = .ok { r with tables := r.tables ++ xs.flatMap g } := by
  induction xs generalizing r with
  | nil =>
    rw [List.flatMap_nil, List.append_nil]
    rfl
  | cons x xs ih =>
    rw [List.foldlM_cons, hf x List.mem_cons_self, ok_bind,
      ih _ fun y hy => hf y (List.mem_cons_of_mem x hy), List.flatMap_cons, List.append_assoc]

theorem foldlM_clean {β : Type} {f : Result → β → Except Thrown Result} {P : β → Prop} {xs : List β}
    {r r' : Result}
    (hf : ∀ x r r', f r x = .ok r' → r'.errors = some [] → r.errors = some [] ∧ P x)
    (h : xs.foldlM f r = .ok r') (hclean : r'.errors = some []) :
    r.errors = some [] ∧ ∀ x ∈ xs, P x := by
  induction xs generalizing r with
  | nil =>
    cases h
    exact ⟨hclean, List.forall_mem_nil _⟩
  | cons x xs ih =>
    rw [List.foldlM_cons] at h
    obtain ⟨m, hm, hrest⟩ := bind_ok h
    obtain ⟨hmid, hall⟩ := ih hrest
    obtain ⟨hfirst, hx⟩ := hf x r m hm hmid
    exact ⟨hfirst, List.forall_mem_cons.mpr ⟨hx, hall⟩⟩

theorem throws_ok {α : Type} {x : Except String α} {y : α} (h : throws x = .ok y) : x = .ok y := by
  cases x with
  | ok z => exact congrArg _ (Except.ok.inj h)
  | error message => cases h

theorem ofNone_ok {α : Type} {message : String} {x : Option α} {y : α}
    (h : ofNone message x = .ok y) : x = some y := by
  cases x with
  | some z => exact congrArg _ (Except.ok.inj h)
  | none => cases h

theorem copyOne_ok {a : Answers} {copier : Copier} {t : Selected} {c : Copied} (r : Result)
    (h : a.copy copier t = .ok c) :
    copyOne a copier r t = .ok { r with tables := r.tables ++ copies a copier [t] } := by
  have hcopies : copies a copier [t] = [(t, c)] := by simp [copies, h, Except.toOption]
  rw [hcopies]
  simp only [copyOne, h]

theorem copyOne_clean {a : Answers} {copier : Copier} {t : Selected} {r r' : Result}
    (h : copyOne a copier r t = .ok r') (hclean : r'.errors = some []) :
    r.errors = some [] ∧ ∃ c, a.copy copier t = .ok c := by
  unfold copyOne at h
  split at h
  · rename_i c hc
    cases h
    exact ⟨hclean, c, hc⟩
  · cases h
  · cases h
    cases herrors : r.errors <;> simp [herrors] at hclean

theorem copies_flatMap (a : Answers) (copier : Copier) (ts : List Selected) :
    (ts.flatMap fun t => copies a copier [t]) = copies a copier ts := by
  induction ts with
  | nil => rfl
  | cons t ts ih =>
    rw [List.flatMap_cons, ih]
    exact (List.filterMap_append (l := [t])).symm

theorem copySchema_ok {a : Answers} {job : ReplicationJob} {kind : DestKind} {copier : Copier}
    {multiSchema : Bool} {schema : String} (h : SchemaAnswered a job kind copier multiSchema schema)
    {tables : List Discovered} (htables : a.discoverTables schema = .ok tables) (r : Result) :
    copySchema a job kind copier multiSchema r schema = .ok { r with
      tables := r.tables ++ copies a copier (selectedIn job multiSchema schema tables) } := by
  obtain ⟨tables', hdiscovered, hcopied⟩ := h.copied
  cases htables.symm.trans hdiscovered
  have hloop := foldlM_grown (f := copyOne a copier) (g := fun t => copies a copier [t]) r fun t ht r => by
    obtain ⟨c, hc⟩ := hcopied t ht
    exact copyOne_ok r hc
  rw [copies_flatMap] at hloop
  unfold copySchema
  by_cases hkind : kind = .pg
  · simp only [hkind, if_true, h.created hkind, htables, throws, ok_bind]
    exact hloop
  · simp only [hkind, if_false, htables, throws, ok_bind]
    exact hloop

theorem copySchema_finished {a : Answers} {job : ReplicationJob} {kind : DestKind} {copier : Copier}
    {multiSchema : Bool} {schema : String} {r r' : Result}
    (h : copySchema a job kind copier multiSchema r schema = .ok r') :
    (kind = .pg →
      a.createSchema (targetSchema ⟨job.strategy, job.destSchema, false⟩ multiSchema schema) = .ok ()) ∧
    ∃ tables, a.discoverTables schema = .ok tables ∧
      (selectedIn job multiSchema schema tables).foldlM (copyOne a copier) r = .ok r' := by
  have hrest : ∀ {x : Except Thrown Unit}, (x >>= fun _ => throws (a.discoverTables schema) >>=
      fun tables => (selectedIn job multiSchema schema tables).foldlM (copyOne a copier) r) = .ok r' →
      x = .ok () ∧ ∃ tables, a.discoverTables schema = .ok tables ∧
        (selectedIn job multiSchema schema tables).foldlM (copyOne a copier) r = .ok r' := by
    intro x hx
    obtain ⟨u, hu, hx⟩ := bind_ok hx
    obtain ⟨tables, htables, hloop⟩ := bind_ok hx
    exact ⟨hu, tables, throws_ok htables, hloop⟩
  unfold copySchema at h
  by_cases hkind : kind = .pg
  · simp only [hkind, if_true] at h
    obtain ⟨hcreated, hfinished⟩ := hrest h
    exact ⟨fun _ => throws_ok hcreated, hfinished⟩
  · simp only [hkind, if_false] at h
    obtain ⟨-, hfinished⟩ := hrest (x := .ok ()) h
    exact ⟨fun hpg => absurd hpg hkind, hfinished⟩

theorem copySchema_clean {a : Answers} {job : ReplicationJob} {kind : DestKind} {copier : Copier}
    {multiSchema : Bool} {schema : String} {r r' : Result}
    (h : copySchema a job kind copier multiSchema r schema = .ok r') (hclean : r'.errors = some []) :
    r.errors = some [] ∧ SchemaAnswered a job kind copier multiSchema schema := by
  obtain ⟨hcreated, tables, htables, hloop⟩ := copySchema_finished h
  obtain ⟨hbefore, hall⟩ := foldlM_clean (f := copyOne a copier) (fun t r r' => copyOne_clean) hloop hclean
  exact ⟨hbefore, hcreated, tables, htables, hall⟩

def listed (a : Answers) (job : ReplicationJob) (multiSchema : Bool) (schema : String) : List Selected :=
  match a.discoverTables schema with
  | .ok tables => selectedIn job multiSchema schema tables
  | .error _ => []

theorem selected_eq {a : Answers} {job : ReplicationJob} {schemas : List String}
    (hjob : a.getJob = some job) (hschemas : a.discoverSchemas = .ok schemas) :
    selected a =
      (userSchemas schemas).flatMap (listed a job (1 < (userSchemas schemas).length)) := by
  simp only [selected, hjob, hschemas]
  rfl

theorem mem_copies {a : Answers} {copier : Copier} {ts : List Selected} {t : Selected} {c : Copied} :
    (t, c) ∈ copies a copier ts ↔ t ∈ ts ∧ a.copy copier t = .ok c := by
  rw [copies, List.mem_filterMap]
  constructor
  · rintro ⟨u, hu, h⟩
    obtain ⟨d, hd, heq⟩ := Option.map_eq_some_iff.mp h
    cases heq
    refine ⟨hu, ?_⟩
    cases hcopy : a.copy copier t with
    | ok c' =>
      rw [hcopy] at hd
      exact congrArg _ (Option.some.inj hd)
    | error e =>
      rw [hcopy] at hd
      cases hd
  · rintro ⟨ht, hc⟩
    exact ⟨t, ht, by rw [hc]; rfl⟩

theorem foldlM_listed {β : Type} {f : Result → β → Except Thrown Result} {xs : List β} {r r' : Result}
    (hf : ∀ x r r', f r x = .ok r' → r.errors.isSome = true → r'.errors.isSome = true)
    (h : xs.foldlM f r = .ok r') (hlisted : r.errors.isSome = true) : r'.errors.isSome = true := by
  induction xs generalizing r with
  | nil =>
    cases h
    exact hlisted
  | cons x xs ih =>
    rw [List.foldlM_cons] at h
    obtain ⟨m, hm, hrest⟩ := bind_ok h
    exact ih hrest (hf x r m hm hlisted)

theorem copyOne_listed {a : Answers} {copier : Copier} {t : Selected} {r r' : Result}
    (h : copyOne a copier r t = .ok r') (hlisted : r.errors.isSome = true) : r'.errors.isSome = true := by
  unfold copyOne at h
  split at h
  · cases h
    exact hlisted
  · cases h
  · cases h
    rw [Option.isSome_map]
    exact hlisted

theorem copySchema_listed {a : Answers} {job : ReplicationJob} {kind : DestKind} {copier : Copier}
    {multiSchema : Bool} {schema : String} {r r' : Result}
    (h : copySchema a job kind copier multiSchema r schema = .ok r')
    (hlisted : r.errors.isSome = true) : r'.errors.isSome = true := by
  obtain ⟨-, tables, -, hloop⟩ := copySchema_finished h
  exact foldlM_listed (f := copyOne a copier) (fun t r r' => copyOne_listed) hloop hlisted

section Run

variable {a : Answers} {reverse : Bool} {overrideDest : Option String} {forceFull : Bool}
variable {job : ReplicationJob} {kind : DestKind}

theorem runOnce_ok (h : Answered a reverse overrideDest forceFull job kind) :
    runOnce a reverse overrideDest forceFull = .ok ⟨"SUCCESS", none,
      copies a (copierFor kind job.strategy forceFull) (selected a), some []⟩ := by
  obtain ⟨source, hsource⟩ := Option.isSome_iff_exists.mp h.source
  obtain ⟨engine, hengine, hkind⟩ := h.dest
  obtain ⟨schemas, hschemas, hall⟩ := h.schemas
  have hloop := foldlM_grown (f := copySchema a job kind (copierFor kind job.strategy forceFull)
      (1 < (userSchemas schemas).length))
    (g := fun s => copies a (copierFor kind job.strategy forceFull)
      (listed a job (1 < (userSchemas schemas).length) s)) ⟨"", none, [], some []⟩ fun s hs r => by
    obtain ⟨tables, htables, -⟩ := (hall s hs).copied
    rw [copySchema_ok (hall s hs) htables, listed, htables]
  have hselected : (userSchemas schemas).flatMap (fun s =>
      copies a (copierFor kind job.strategy forceFull)
        (listed a job (1 < (userSchemas schemas).length) s)) =
      copies a (copierFor kind job.strategy forceFull) (selected a) := by
    rw [selected_eq h.found hschemas, copies, List.filterMap_flatMap]
    rfl
  rw [hselected, List.nil_append] at hloop
  unfold runOnce
  simp only [h.found, hsource, hengine, hkind, ofNone, ok_bind, h.handshake, Except.mapError, throws]
  by_cases hpg : kind = .pg
  · simp only [hpg, if_true, h.created hpg, ok_bind]
    simp only [hpg] at hloop
    simp only [hschemas, ok_bind, hloop, h.record]
    rfl
  · simp only [hpg, if_false, hschemas, ok_bind, hloop, h.record]
    rfl

theorem runOnce_finished {r : Result} (h : runOnce a reverse overrideDest forceFull = .ok r) :
    ∃ job kind schemas r', a.getJob = some job ∧
      (a.getSource (fromName job reverse)).isSome = true ∧
      (∃ engine, a.getSource (toName job reverse overrideDest) = some engine ∧
        destKindOf engine = some kind) ∧ a.handshake = .ok () ∧
      (kind = .pg → a.createSchema ((job.destSchema.filter (· ≠ "")).getD "public") = .ok ()) ∧
      a.discoverSchemas = .ok schemas ∧
      (userSchemas schemas).foldlM (copySchema a job kind (copierFor kind job.strategy forceFull)
        (1 < (userSchemas schemas).length)) ⟨"", none, [], some []⟩ = .ok r' ∧
      a.record = .ok () ∧ r.errors = r'.errors := by
  unfold runOnce at h
  obtain ⟨job, hjob, h⟩ := bind_ok h
  obtain ⟨source, hsource, h⟩ := bind_ok h
  obtain ⟨engine, hengine, h⟩ := bind_ok h
  obtain ⟨kind, hkind, h⟩ := bind_ok h
  obtain ⟨u, hhandshake, h⟩ := bind_ok h
  have hready : a.handshake = .ok () := by
    cases hanswer : a.handshake with
    | ok u => rfl
    | error m =>
      rw [hanswer] at hhandshake
      cases hhandshake
  have hrest : ∀ {x : Except Thrown Unit}, (x >>= fun _ => throws a.discoverSchemas >>= fun schemas =>
      (userSchemas schemas).foldlM (copySchema a job kind (copierFor kind job.strategy forceFull)
        (1 < (userSchemas schemas).length)) ⟨"", none, [], some []⟩ >>= fun r' =>
      throws a.record >>= fun _ =>
        (.ok { r' with status := if r'.errors = some [] then "SUCCESS" else "PARTIAL" } :
          Except Thrown Result)) = .ok r →
      x = .ok () ∧ ∃ schemas r', a.discoverSchemas = .ok schemas ∧
        (userSchemas schemas).foldlM (copySchema a job kind (copierFor kind job.strategy forceFull)
          (1 < (userSchemas schemas).length)) ⟨"", none, [], some []⟩ = .ok r' ∧
        a.record = .ok () ∧ r.errors = r'.errors := by
    intro x hx
    obtain ⟨u, hu, hx⟩ := bind_ok hx
    obtain ⟨schemas, hschemas, hx⟩ := bind_ok hx
    obtain ⟨r', hloop, hx⟩ := bind_ok hx
    obtain ⟨v, hrecord, hx⟩ := bind_ok hx
    cases hx
    exact ⟨hu, schemas, r', throws_ok hschemas, hloop, throws_ok hrecord, rfl⟩
  have hsource' : (a.getSource (fromName job reverse)).isSome = true := by
    rw [ofNone_ok hsource]
    rfl
  by_cases hpg : kind = .pg
  · simp only [hpg, if_true] at h
    rw [← hpg] at h
    obtain ⟨hcreated, schemas, r', hfinished⟩ := hrest h
    exact ⟨job, kind, schemas, r', ofNone_ok hjob, hsource', ⟨engine, ofNone_ok hengine, ofNone_ok hkind⟩,
      hready, fun _ => throws_ok hcreated, hfinished⟩
  · simp only [hpg, if_false] at h
    obtain ⟨-, schemas, r', hfinished⟩ := hrest (x := .ok ()) h
    exact ⟨job, kind, schemas, r', ofNone_ok hjob, hsource', ⟨engine, ofNone_ok hengine, ofNone_ok hkind⟩,
      hready, fun hno => absurd hno hpg, hfinished⟩

theorem runOnce_clean {r : Result} (h : runOnce a reverse overrideDest forceFull = .ok r)
    (hclean : r.errors = some []) : ∃ job kind, Answered a reverse overrideDest forceFull job kind := by
  obtain ⟨job, kind, schemas, r', hjob, hsource, hdest, hhandshake, hcreated, hschemas, hloop, hrecord,
    herrors⟩ := runOnce_finished h
  rw [herrors] at hclean
  obtain ⟨-, hall⟩ := foldlM_clean
    (f := copySchema a job kind (copierFor kind job.strategy forceFull)
      (1 < (userSchemas schemas).length)) (fun s r r' => copySchema_clean) hloop hclean
  exact ⟨job, kind, hjob, hsource, hdest, hhandshake, hcreated, ⟨schemas, hschemas, hall⟩, hrecord⟩

theorem runOnce_errors {r : Result} (h : runOnce a reverse overrideDest forceFull = .ok r) :
    r.errors.isSome = true := by
  obtain ⟨job, kind, schemas, r', -, -, -, -, -, -, hloop, -, herrors⟩ := runOnce_finished h
  rw [herrors]
  refine foldlM_listed (fun s r r' hs => ?_) hloop rfl
  exact copySchema_listed hs

theorem copied_of_answered (h : Answered a reverse overrideDest forceFull job kind) {t : Selected}
    (ht : t ∈ selected a) : ∃ c, a.copy (copierFor kind job.strategy forceFull) t = .ok c := by
  obtain ⟨schemas, hschemas, hall⟩ := h.schemas
  rw [selected_eq h.found hschemas, List.mem_flatMap] at ht
  obtain ⟨s, hs, ht⟩ := ht
  obtain ⟨tables, htables, hcopied⟩ := (hall s hs).copied
  rw [listed, htables] at ht
  exact hcopied t ht

end Run

theorem completed_iff {r : Except Thrown Result} {e : Execution} {j : CopyJobs.Job} :
    ((settled { e with phase := outcome r } j).getD j).status = .COMPLETED ↔
      ∃ result, r = .ok result ∧ result.errors.getD [] = [] := by
  cases r with
  | ok result =>
    cases herrors : result.errors.getD [] with
    | nil => simp [outcome, settled, herrors]
    | cons m ms => simp [outcome, settled, herrors]
  | error t =>
    cases t with
    | copyPaused => simp [outcome, settled]
    | error m =>
      simp only [outcome, settled, Option.getD_some, reduceCtorEq, false_and, exists_false, iff_false]
      split <;> exact fun h => by cases h

theorem runOnce_completed_iff {a : Answers} {reverse : Bool} {overrideDest : Option String}
    {forceFull : Bool} : (∃ result, runOnce a reverse overrideDest forceFull = .ok result ∧
      result.errors.getD [] = []) ↔ ∃ job kind, Answered a reverse overrideDest forceFull job kind := by
  constructor
  · rintro ⟨result, hrun, hempty⟩
    refine runOnce_clean hrun ?_
    -- only a skipped run comes without the list
    obtain ⟨es, hes⟩ := Option.isSome_iff_exists.mp (runOnce_errors hrun)
    rw [hes] at hempty ⊢
    exact congrArg some hempty
  · rintro ⟨job, kind, h⟩
    exact ⟨_, runOnce_ok h, rfl⟩

def nightly : ReplicationJob := ⟨"erp", "replica", .FULL, none⟩

def nightlyRun : Execution := ⟨0, ⟨"acme", .REPLICATE, "nightly"⟩, false, 1, 3, .idle⟩

def oneTable : Answers where
  getJob := some nightly
  getSource := fun _ => some "POSTGRES"
  handshake := .ok ()
  createSchema := fun _ => .ok ()
  discoverSchemas := .ok ["public"]
  discoverTables := fun _ => .ok [⟨"orders", none⟩]
  copy := fun _ _ => .ok ⟨2, 0⟩
  record := .ok ()

end DataFabric.ReplicationRuns
