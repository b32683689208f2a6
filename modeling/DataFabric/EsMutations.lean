import DataFabric.TransitionRuns
import DataFabric.SearchIndices

set_option autoImplicit false

/-!
# The queue of search index mutations

The tables of the hub, `es_mutation_jobs` and the documents of Elasticsearch, where every statement
and every request of the mutation workers is a step of its own.
-/
namespace DataFabric.EsMutations
open TransitionRuns JsValues SearchIndices

inductive Action | INSERT | UPDATE | DELETE
  deriving DecidableEq, Repr

inductive JobStatus | PENDING | RUNNING | COMPLETED | FAILED
  deriving DecidableEq, Repr

/-- A row as `RETURNING *` gives it, and which row of the hub that is. -/
structure Row where
  key : ℕ
  value : JsValue
  deriving DecidableEq, Repr

structure Mutation where
  tenantId : String
  schemaName : String
  tableName : String
  action : Action
  rows : List Row
  deriving DecidableEq, Repr

structure Job where
  mutation : Mutation
  status : JobStatus
  attempts : ℕ
  maxAttempts : ℕ
  /-- In microseconds. -/
  runAt : ℕ
  createdAt : ℕ
  deriving DecidableEq, Repr

inductive DocId
  | given (id : String)
  | generated (n : ℕ)
  deriving DecidableEq, Repr

structure Doc where
  index : String
  id : DocId
  row : ℕ
  source : JsValue
  deriving DecidableEq, Repr

structure Claimed where
  id : ℕ
  job : Job
  deriving DecidableEq, Repr

inductive Stage
  /-- Its transaction holds the rows it has selected. -/
  | selecting (queue : List Claimed)
  | ready (queue : List Claimed)
  /-- The job is marked `RUNNING`, and some of its rows are not sent yet. -/
  | processing (c : Claimed) (left : List Row) (queue : List Claimed)
  | failing (c : Claimed) (queue : List Claimed)
  deriving DecidableEq, Repr

structure World where
  clock : ℕ
  /-- The mutations the hub has committed. -/
  log : List Mutation
  /-- Those of them that `enqueueMutation` has still to insert a job for. -/
  owed : List Mutation
  jobs : List Job
  ticks : List Stage
  docs : List Doc
  /-- How many ids Elasticsearch has made up. -/
  generated : ℕ
  deriving DecidableEq, Repr

inductive Event
  | wait (us : ℕ)
  | mutate (m : Mutation)
  | enqueue (owed : ℕ)
  /-- The request ends between its commit and its job. -/
  | lose (owed : ℕ)
  | select (picked : List ℕ)
  | commit (x : ℕ)
  | start (x : ℕ)
  /-- The next `DELETE` request, which fails without notice. -/
  | remove (x : ℕ) (applied : Bool)
  /-- The `_bulk` request, with what it did for each row, and whether it is answered with a success. -/
  | bulk (x : ℕ) (items : List Bool) (accepted : Bool)
  | complete (x : ℕ)
  | fail (x : ℕ)
  | defer (x : ℕ)
  | crash (x : ℕ)
  deriving DecidableEq, Repr

def docId (row : JsValue) : Option String :=
  let id := if (row.get "id").truthy then row.get "id" else row.get "item_id"
  if id.truthy then some id.text else none

def Mutation.index (m : Mutation) : String := workerIndex m.tenantId m.schemaName m.tableName

def Mutation.document (m : Mutation) (r : Row) : String × Option String := (m.index, docId r.value)

def Mutation.touches (m : Mutation) (key : ℕ) : Bool := m.rows.any fun r => r.key = key

def Mutation.meets (m n : Mutation) : Bool := m.rows.any fun r => n.touches r.key

def Mutation.result (m : Mutation) (key : ℕ) : List JsValue :=
  if m.action = .DELETE then [] else (m.rows.filter (·.key = key)).map (·.value)

def expected (log : List Mutation) (key : ℕ) : List JsValue :=
  ((log.filter (·.touches key)).getLast?).elim [] (·.result key)

def removeDoc (docs : List Doc) (index : String) (id : DocId) : List Doc :=
  docs.filter fun d => !(d.index = index && d.id = id)

def putDoc (docs : List Doc) (d : Doc) : List Doc := removeDoc docs d.index d.id ++ [d]

def removeRow (m : Mutation) (docs : List Doc) (r : Row) : List Doc :=
  match docId r.value with
  | some id => removeDoc docs m.index (.given id)
  | none => docs

def indexRow (m : Mutation) (es : List Doc × ℕ) (r : Row) : List Doc × ℕ :=
  match docId r.value with
  | some id => (putDoc es.1 ⟨m.index, .given id, r.key, r.value⟩, es.2)
  | none => (es.1 ++ [⟨m.index, .generated es.2, r.key, r.value⟩], es.2 + 1)

def bulkIndex (m : Mutation) : List Doc × ℕ → List (Row × Bool) → List Doc × ℕ
  | es, [] => es
  | es, (r, applied) :: items => bulkIndex m (if applied then indexRow m es r else es) items

def docsOf (docs : List Doc) (key : ℕ) : List JsValue := (docs.filter (·.row = key)).map (·.source)

def newJob (clock : ℕ) (m : Mutation) : Job where
  mutation := m
  status := .PENDING
  attempts := 0
  maxAttempts := 8
  runAt := clock
  createdAt := clock

def Mutation.enqueued (m : Mutation) : Bool := m.rows ≠ [] || m.action = .DELETE

def Stage.queue : Stage → List Claimed
  | selecting queue | ready queue | processing _ _ queue | failing _ queue => queue

def Stage.current : Stage → Option Claimed
  | processing c _ _ | failing c _ => some c
  | _ => none

def Stage.claims (st : Stage) : List Claimed := st.current.toList ++ st.queue

def Stage.held (st : Stage) : List ℕ := st.claims.map (·.id)

def Stage.locks (st : Stage) (i : ℕ) : Bool :=
  match st with
  | selecting queue => queue.any (·.id = i)
  | _ => false

def locked (s : World) (i : ℕ) : Bool := s.ticks.any (·.locks i)

def due (s : World) (j : Job) : Bool := j.status = .PENDING && j.runAt ≤ s.clock

def eligible (s : World) (i : ℕ) : Bool := (s.jobs[i]?).any (due s) && !locked s i

def createdAt (s : World) (i : ℕ) : ℕ := (s.jobs[i]?).elim 0 (·.createdAt)

/-- `ORDER BY created_at ASC FOR UPDATE SKIP LOCKED LIMIT 20` -/
structure Picks (s : World) (picked : List ℕ) : Prop where
  nodup : picked.Nodup
  eligible : ∀ i ∈ picked, eligible s i = true
  sorted : picked.Pairwise fun i k => createdAt s i ≤ createdAt s k
  limit : picked.length ≤ 20
  oldest : ∀ k < s.jobs.length, EsMutations.eligible s k = true → k ∉ picked →
    picked.length = 20 ∧ ∀ i ∈ picked, createdAt s i ≤ createdAt s k

instance (s : World) (picked : List ℕ) : Decidable (Picks s picked) :=
  decidable_of_iff (picked.Nodup ∧ (∀ i ∈ picked, eligible s i = true) ∧
      (picked.Pairwise fun i k => createdAt s i ≤ createdAt s k) ∧ picked.length ≤ 20 ∧
      ∀ k < s.jobs.length, eligible s k = true → k ∉ picked →
        picked.length = 20 ∧ ∀ i ∈ picked, createdAt s i ≤ createdAt s k)
    ⟨fun ⟨a, b, c, d, e⟩ => ⟨a, b, c, d, e⟩, fun ⟨a, b, c, d, e⟩ => ⟨a, b, c, d, e⟩⟩

def claim (s : World) (picked : List ℕ) : List Claimed :=
  picked.filterMap fun i => (s.jobs[i]?).map (⟨i, ·⟩)

def setStage (s : World) (x : ℕ) (st : Stage) : World := { s with ticks := s.ticks.set x st }

def setJob (s : World) (i : ℕ) (f : Job → Job) : World := { s with jobs := s.jobs.modify i f }

def Job.mark (status : JobStatus) (j : Job) : Job := { j with status }

def Claimed.terminal (c : Claimed) : Bool := c.job.maxAttempts ≤ c.job.attempts + 1

/-- What `defer` writes, from the row as the tick has read it; the backoff is 20 seconds. -/
def deferred (clock : ℕ) (c : Claimed) (j : Job) : Job :=
  { j with
    status := if c.terminal then .FAILED else .PENDING
    attempts := c.job.attempts + 1
    runAt := if c.terminal then j.runAt else clock + 20000000 }

def step (s : World) : Event → Option World
  | .wait us => some { s with clock := s.clock + us }
  | .mutate m =>
    -- a statement changes a row once
    if (m.rows.map (·.key)).Nodup then
      some { s with log := s.log ++ [m], owed := if m.enqueued then s.owed ++ [m] else s.owed }
    else none
  | .enqueue x => (s.owed[x]?).map fun m =>
      { s with owed := s.owed.eraseIdx x, jobs := s.jobs ++ [newJob s.clock m] }
  | .lose x => (s.owed[x]?).map fun _ => { s with owed := s.owed.eraseIdx x }
  | .select picked =>
    if Picks s picked then some { s with ticks := s.ticks ++ [.selecting (claim s picked)] } else none
  | .commit x => match s.ticks[x]? with
    | some (.selecting queue) => some (setStage s x (.ready queue))
    | _ => none
  | .start x => match s.ticks[x]? with
    | some (.ready (c :: queue)) =>
      if locked s c.id then none
      else some (setStage (setJob s c.id (.mark .RUNNING)) x (.processing c c.job.mutation.rows queue))
    | _ => none
  | .remove x applied => match s.ticks[x]? with
    | some (.processing c (r :: left) queue) =>
      if c.job.mutation.action = .DELETE then
        let docs := if applied then removeRow c.job.mutation s.docs r else s.docs
        some (setStage { s with docs } x (.processing c left queue))
      else none
    | _ => none
  | .bulk x items accepted => match s.ticks[x]? with
    | some (.processing c left queue) =>
      if c.job.mutation.action ≠ .DELETE ∧ left ≠ [] ∧ items.length = left.length then
        let es := bulkIndex c.job.mutation (s.docs, s.generated) (left.zip items)
        some (setStage { s with docs := es.1, generated := es.2 } x
          (if accepted then .processing c [] queue else .failing c queue))
      else none
    | _ => none
  | .complete x => match s.ticks[x]? with
    | some (.processing c [] queue) =>
      if locked s c.id then none else some (setStage (setJob s c.id (.mark .COMPLETED)) x (.ready queue))
    | _ => none
  | .fail x => match s.ticks[x]? with
    | some (.processing c _ queue) => some (setStage s x (.failing c queue))
    | _ => none
  | .defer x => match s.ticks[x]? with
    | some (.failing c queue) =>
      if locked s c.id then none
      else some (setStage (setJob s c.id (deferred s.clock c)) x (.ready queue))
    | _ => none
  | .crash x => (s.ticks[x]?).map fun _ => setStage s x (.ready [])

def initial : World := ⟨0, [], [], [], [], [], 0⟩

def Event.tick : Event → Option ℕ
  | .commit x | .start x | .remove x _ | .bulk x _ _ | .complete x | .fail x | .defer x | .crash x => some x
  | _ => none

def Processes (s : World) (x i : ℕ) : Prop :=
  ∃ st c, s.ticks[x]? = some st ∧ st.current = some c ∧ c.id = i

def Exclusive (s : World) : Prop := ∀ x y i, Processes s x i → Processes s y i → x = y

/-- Every running job is in the hands of a tick that can put an end to it. -/
def Releases (s : World) : Prop :=
  ∀ i j, s.jobs[i]? = some j → j.status = .RUNNING → ∃ x, Processes s x i ∧
    ∃ es s', (∀ e ∈ es, e.tick = some x) ∧ run step s es = some s' ∧
      ∀ j', s'.jobs[i]? = some j' → j'.status ≠ .RUNNING

def Settled (s : World) : Prop := s.owed = [] ∧ ∀ j ∈ s.jobs, j.status = .COMPLETED

instance (s : World) : Decidable (Settled s) :=
  inferInstanceAs (Decidable (s.owed = [] ∧ ∀ j ∈ s.jobs, j.status = .COMPLETED))

/-- A row has the one document its last mutation has left it, or none. -/
def Converged (s : World) : Prop := ∀ key, docsOf s.docs key = expected s.log key

def Correct (s : World) : Prop := Exclusive s ∧ Releases s ∧ (Settled s → Converged s)

/-- The rows of all mutations have ids, and a document is one row's. -/
def Recognised (log : List Mutation) : Prop :=
  ∀ m ∈ log, ∀ r ∈ m.rows, docId r.value ≠ none ∧
    ∀ n ∈ log, ∀ q ∈ n.rows, r.key = q.key ↔ m.document r = n.document q

def busy (s : World) (i : ℕ) : Bool := s.ticks.any fun st => st.held.contains i

def backsOff (s : World) (i : ℕ) : Bool := (s.jobs[i]?).any fun j => j.status = .PENDING && !due s j

def related (s : World) (i k : ℕ) : Bool :=
  (s.jobs[i]?).any fun j => (s.jobs[k]?).any fun l => j.mutation.meets l.mutation

/-- The deferred job comes back, and the tick goes on with a job of one of its rows. -/
def Stage.overtaken : Stage → Bool
  | failing c queue => !c.terminal && queue.any fun d => c.job.mutation.meets d.job.mutation
  | _ => false

def Orderly (s : World) : Event → Prop
  | .mutate m => (∀ n ∈ s.owed, n.meets m = false) ∧ Recognised (s.log ++ [m])
  | .enqueue x => ∀ m ∈ s.owed[x]?, ∀ j ∈ s.jobs, j.status ≠ .COMPLETED → j.mutation.meets m = true →
      j.createdAt < s.clock
  | .lose _ => False
  | .select picked => ∀ i ∈ picked, ∀ k < s.jobs.length, k = i ∨ related s k i = true →
      busy s k = false ∧ backsOff s k = false
  | .remove _ applied => applied = true
  | .bulk _ items accepted => accepted = true → ∀ item ∈ items, item = true
  | .defer x => ∀ st ∈ s.ticks[x]?, st.overtaken = false
  | .crash x => ∀ st ∈ s.ticks[x]?, st.current = none
  | _ => True

instance (log : List Mutation) : Decidable (Recognised log) := by
  unfold Recognised
  infer_instance

instance (s : World) (e : Event) : Decidable (Orderly s e) := by
  cases e <;> unfold Orderly <;> infer_instance

end DataFabric.EsMutations
