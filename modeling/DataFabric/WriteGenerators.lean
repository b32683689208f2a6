import DataFabric.FabricSequences
import DataFabric.TransitionRuns

set_option autoImplicit false

/-!
# Write generators over the pooled sessions of the hub

A function rule sets the `search_path` of a session that the pool hands to the next caller as it was left.
-/
namespace DataFabric.WriteGenerators
open CharText JsValues FabricSequences TransitionRuns

abbrev Path := List String

def ident (v : JsValue) : String := String.ofList (v.text.toList.filter isWord)

inductive Query
  | generateUuid
  | createSchema (name : String) (opts : NextvalOptions)
  | createTable (name : String) (opts : NextvalOptions)
  | allocate (name : String) (opts : NextvalOptions)

/-- `SELECT fn(args) AS v`, after `SET search_path` where a schema is named. -/
structure FunctionCall where
  fn : String
  args : List JsValue
  schemaName : Option String

inductive Task
  | query (q : Query)
  | function (f : FunctionCall)

inductive Phase
  /-- asks the pool for a session -/
  | waiting (task : Task)
  | setting (s : ℕ) (f : FunctionCall)
  | running (s : ℕ) (task : Task)
  | releasing (s : ℕ) (task : Task) (reply : Except String JsValue)
  | settled (result : Except String JsValue)

inductive Holding | idle | held | closed
  deriving DecidableEq

/-- A connection of the pool; `acquired` is the path it had when it was last handed out. -/
structure Session where
  path : Path
  acquired : Path
  holding : Holding

structure World where
  sessions : List Session
  calls : List Phase
  /-- `FabricSequenceService.ensured` -/
  ensured : Bool

/-- What the database answers; a function may itself leave another path. -/
inductive Reply
  | ok (value : JsValue) (left : Option Path)
  | error (message : String) (broken : Bool)

inductive Event
  | resolve (tenantId : String) (rule fallbackSchema : JsValue)
  /-- the pool opens a session for the call -/
  | opens (c : ℕ)
  /-- the pool hands an idle session to the call -/
  | takes (c s : ℕ)
  | timesOut (c : ℕ) (message : String)
  | answers (c : ℕ) (reply : Reply)
  | releases (c : ℕ)
  /-- an idle session is closed -/
  | expires (s : ℕ)

def finiteNumber : JsValue → Option ℚ
  | .num q => some q
  | _ => none

def optionsOf (rule : JsValue) : NextvalOptions where
  start := finiteNumber (rule.get "start")
  increment := finiteNumber (rule.get "increment")
  count := none

def nextvalPhase (name : String) (opts : NextvalOptions) : Phase :=
  if sequenceNameRe name then .waiting (.query (.allocate name opts))
  else .settled (.error "Invalid sequence name: must be a plain identifier")

def logicalSchema (rule fallbackSchema : JsValue) : JsValue :=
  if (rule.get "schema").truthy then rule.get "schema" else fallbackSchema

def functionCall (tenantId : String) (rule fallbackSchema : JsValue) : FunctionCall where
  fn := ident (rule.get "function")
  args := (rule.get "args").elements
  schemaName :=
    if (logicalSchema rule fallbackSchema).truthy then
      some ("tenant_" ++ ident (.str tenantId) ++ "_" ++ ident (logicalSchema rule fallbackSchema))
    else none

def resolve (ensured : Bool) (tenantId : String) (rule fallbackSchema : JsValue) : Phase :=
  if !(rule.isObj || rule.isArray) then .settled (.error "generator rule must be an object")
  else if rule.get "strategy" = .str "UUID_V7" || rule.get "uuid" = .bool true then
    .waiting (.query .generateUuid)
  else if (rule.get "sequence").truthy then
    if ensured then nextvalPhase (rule.get "sequence").text (optionsOf rule)
    else .waiting (.query (.createSchema (rule.get "sequence").text (optionsOf rule)))
  else if (rule.get "function").truthy then .waiting (.function (functionCall tenantId rule fallbackSchema))
  else .settled (.error "generator rule must specify one of: strategy | sequence | function")

section

variable (randomUUID : ℕ → String)

def next (c : ℕ) : Task → Except String JsValue → Phase
  | .query .generateUuid, .error _ => .settled (.ok (.str (randomUUID c)))
  | .query (.createSchema name opts), .ok _ => .waiting (.query (.createTable name opts))
  | .query (.createTable name opts), .ok _ => nextvalPhase name opts
  | _, reply => .settled reply

def ensures : Task → Except String JsValue → Bool
  | .query (.createTable _ _), .ok _ => true
  | _, _ => false

end

def schemaPath (schemaName : String) : Path := [String.ofList (schemaName.toList.take 63), "public"]

/-- The first statement on the session that a call was given. -/
def begun (s : ℕ) : Task → Phase
  | .function f => if f.schemaName.isSome then .setting s f else .running s (.function f)
  | task => .running s task

def setPhase (w : World) (c : ℕ) (p : Phase) : World := { w with calls := w.calls.set c p }

def setSession (w : World) (s : ℕ) (f : Session → Session) : World := { w with sessions := w.sessions.modify s f }

def live (w : World) : ℕ := w.sessions.countP fun s => s.holding ≠ .closed

section

variable (defaultPath : Path) (poolMax : ℕ) (randomUUID : ℕ → String)

/-- The path after a statement; a failed one is rolled back. -/
def pathAfter (path : Path) : Phase → Reply → Path
  | .setting _ f, .ok _ _ => f.schemaName.elim path schemaPath
  | .running _ (.function _), .ok _ left => left.getD path
  | _, _ => path

def replyOf : Reply → Except String JsValue
  | .ok value _ => .ok value
  | .error message _ => .error message

def breaks : Reply → Bool
  | .ok _ _ => false
  | .error _ broken => broken

/-- Where a call goes when its statement is answered: `SET` is followed by the call, all else by the release. -/
def answered : Phase → Reply → Option (ℕ × Phase)
  | .setting s f, .ok _ _ => some (s, .running s (.function f))
  | .setting s f, .error message _ => some (s, .releasing s (.function f) (.error message))
  | .running s task, reply => some (s, .releasing s task (replyOf reply))
  | _, _ => none

/-- `pool.query` destroys the session of a failed statement, `client.release()` one that is broken. -/
def returned (task : Task) (reply : Except String JsValue) (session : Session) : Session :=
  match task, reply with
  | .query _, .error _ => { session with holding := .closed }
  | _, _ => { session with holding := if session.holding = .closed then .closed else .idle }

def step (w : World) : Event → Option World
  | .resolve tenantId rule fallbackSchema =>
    some { w with calls := w.calls ++ [resolve w.ensured tenantId rule fallbackSchema] }
  | .opens c =>
    match w.calls[c]? with
    | some (.waiting task) =>
      if live w < poolMax then
        some (setPhase { w with sessions := w.sessions ++ [⟨defaultPath, defaultPath, .held⟩] } c
          (begun w.sessions.length task))
      else none
    | _ => none
  | .takes c s =>
    match w.calls[c]?, w.sessions[s]? with
    | some (.waiting task), some ⟨_, _, .idle⟩ =>
      some (setPhase (setSession w s fun x => ⟨x.path, x.path, .held⟩) c (begun s task))
    | _, _ => none
  | .timesOut c message =>
    match w.calls[c]? with
    | some (.waiting task) => some (setPhase w c (next randomUUID c task (.error message)))
    | _ => none
  | .answers c reply =>
    (w.calls[c]?).bind fun p => (answered p reply).map fun q =>
      setPhase (setSession w q.1 fun x =>
        ⟨pathAfter x.path p reply, x.acquired, if breaks reply then .closed else x.holding⟩) c q.2
  | .releases c =>
    match w.calls[c]? with
    | some (.releasing s task reply) =>
      some (setPhase { setSession w s (returned task reply) with ensured := w.ensured || ensures task reply } c
        (next randomUUID c task reply))
    | _ => none
  | .expires s =>
    match w.sessions[s]? with
    | some ⟨_, _, .idle⟩ => some (setSession w s fun x => { x with holding := .closed })
    | _ => none

def sessionOf : Phase → Option ℕ
  | .setting s _ | .running s _ | .releasing s _ _ => some s
  | _ => none

def unchanging (w : World) : Event → Bool
  | .answers c reply => (w.calls[c]?).all fun p => (sessionOf p).all fun s =>
      (w.sessions[s]?).all fun x => pathAfter x.path p reply = x.path
  | _ => true

/-- A session goes back with the path it was handed out with. -/
def ReleasesUnchanged (w : World) (e : Event) : Prop :=
  ∀ c s task reply x, e = .releases c → w.calls[c]? = some (.releasing s task reply) →
    w.sessions[s]? = some x → x.path = x.acquired

/-- Where an unqualified function is found; unquoted names are folded. -/
def resolvedIn (defines : String → String → Bool) (path : Path) (fn : String) : Option String :=
  (if "pg_catalog" ∈ path then path else "pg_catalog" :: path).find? fun schema =>
    defines schema (String.ofList (fn.toList.map Char.toLower))

/-- A rule without a schema finds its function where a new session would. -/
def ResolvesByDefault (defines : String → String → Bool) (w : World) (e : Event) : Prop :=
  ∀ c reply s f x, e = .answers c reply → w.calls[c]? = some (.running s (.function f)) → f.schemaName = none →
    w.sessions[s]? = some x → resolvedIn defines x.path f.fn = resolvedIn defines defaultPath f.fn

def Unmoved (w : World) : Prop := ∀ x ∈ w.sessions, x.path = defaultPath ∧ x.acquired = defaultPath

def start (ensured : Bool) : World := ⟨[], [], ensured⟩

variable {defaultPath poolMax randomUUID} {w w' : World} {e : Event}

theorem unmoved_setSession {s : ℕ} {f : Session → Session} (unmoved : Unmoved defaultPath w)
    (kept : ∀ x, w.sessions[s]? = some x → x.path = defaultPath → x.acquired = defaultPath →
      (f x).path = defaultPath ∧ (f x).acquired = defaultPath) :
    Unmoved defaultPath (setSession w s f) := by
  intro x inside
  rcases List.mem_iff_getElem?.mp inside with ⟨k, found⟩
  unfold setSession at found
  rw [List.getElem?_modify] at found
  rcases Option.map_eq_some_iff.mp found with ⟨y, old, rfl⟩
  have before := unmoved y (List.mem_of_getElem? old)
  by_cases same : s = k
  · rw [if_pos same]
    exact kept y (same ▸ old) before.1 before.2
  · rw [if_neg same]
    exact before

theorem returned_paths (task : Task) (reply : Except String JsValue) (x : Session) :
    (returned task reply x).path = x.path ∧ (returned task reply x).acquired = x.acquired := by
  unfold returned
  split <;> exact ⟨rfl, rfl⟩

theorem answered_session {p : Phase} {reply : Reply} {q : ℕ × Phase} (h : answered p reply = some q) :
    sessionOf p = some q.1 := by
  unfold answered at h
  split at h <;> cases h <;> rfl

theorem unmoved_step (unmoved : Unmoved defaultPath w) (kept : unchanging w e = true)
    (stepped : step defaultPath poolMax randomUUID w e = some w') : Unmoved defaultPath w' := by
  cases e with
  | resolve tenantId rule fallbackSchema =>
    cases stepped
    exact unmoved
  | opens c =>
    simp only [step] at stepped
    split at stepped
    · split at stepped
      · cases stepped
        intro x inside
        rcases List.mem_append.mp inside with old | new
        · exact unmoved x old
        · rw [List.mem_singleton.mp new]
          exact ⟨rfl, rfl⟩
      · cases stepped
    · cases stepped
  | takes c s =>
    simp only [step] at stepped
    split at stepped
    · cases stepped
      apply unmoved_setSession unmoved
      intro x _ path _
      exact ⟨path, path⟩
    · cases stepped
  | timesOut c message =>
    simp only [step] at stepped
    split at stepped
    · cases stepped
      exact unmoved
    · cases stepped
  | answers c reply =>
    rcases Option.bind_eq_some_iff.mp stepped with ⟨p, called, answer⟩
    rcases Option.map_eq_some_iff.mp answer with ⟨q, moved, rfl⟩
    apply unmoved_setSession unmoved
    intro x held path acquired
    simp only [unchanging, called, answered_session moved, held, Option.all_some, decide_eq_true_eq] at kept
    exact ⟨kept.trans path, acquired⟩
  | releases c =>
    simp only [step] at stepped
    split at stepped
    · rename_i s task reply _
      cases stepped
      apply unmoved_setSession unmoved
      intro x _ path acquired
      rw [(returned_paths task reply x).1, (returned_paths task reply x).2]
      exact ⟨path, acquired⟩
    · cases stepped
  | expires s =>
    simp only [step] at stepped
    split at stepped
    · cases stepped
      apply unmoved_setSession unmoved
      intro x _ path acquired
      exact ⟨path, acquired⟩
    · cases stepped

theorem unmoved_run {ensured : Bool} {es : List Event}
    (ran : run (step defaultPath poolMax randomUUID) (start ensured) es = some w)
    (kept : Throughout (step defaultPath poolMax randomUUID) (fun w e => unchanging w e = true) (start ensured) es) :
    Unmoved defaultPath w := by
  apply run_preserves_under ran kept
  · intro x inside
    cases inside
  · intro e _ w w' unmoved allowed stepped
    exact unmoved_step unmoved allowed stepped

end

/-- While no statement moves a path, every session goes back as it was handed out, and a rule without a schema
never finds its function in a schema that an earlier caller named. -/
theorem sessions_unchanged (defaultPath : Path) (poolMax : ℕ) (randomUUID : ℕ → String)
    (defines : String → String → Bool) (ensured : Bool) (es : List Event)
    (kept : Throughout (step defaultPath poolMax randomUUID) (fun w e => unchanging w e = true) (start ensured) es) :
    Throughout (step defaultPath poolMax randomUUID)
      (fun w e => ReleasesUnchanged w e ∧ ResolvesByDefault defaultPath defines w e) (start ensured) es := by
  intro before e after w split reached
  have unmoved : Unmoved defaultPath w := by
    apply unmoved_run reached
    intro before' e' after' w' split' reached'
    refine kept before' e' (after' ++ e :: after) w' ?_ reached'
    rw [split, split', List.append_assoc, List.cons_append]
  constructor
  · intro c s task reply x _ _ held
    have both := unmoved x (List.mem_of_getElem? held)
    exact both.1.trans both.2.symm
  · intro c reply s f x _ _ _ held
    rw [(unmoved x (List.mem_of_getElem? held)).1]

def acmeRule : JsValue := .obj [("function", .str "next_id"), ("schema", .str "sales")]

def globexRule : JsValue := .obj [("function", .str "next_id")]

def publicPath : Path := ["$user", "public"]

def shared : List Event :=
  [.resolve "acme" acmeRule .undefined, .opens 0, .answers 0 (.ok .undefined none), .answers 0 (.ok (.num 7) none),
    .releases 0, .resolve "globex" globexRule .undefined, .takes 1 0, .answers 1 (.ok (.num 8) none)]

/-- Both tenants have the function, and so has the public schema. -/
def everywhere (schema fn : String) : Bool :=
  ["tenant_acme_sales", "tenant_globex_sales", "public"].contains schema && fn = "next_id"

def openStep : World → Event → Option World := step publicPath 50 fun _ => "uuid"

theorem globex_resolves_in_acme :
    (run openStep (start false) shared).isSome = true ∧
    ¬ Throughout openStep ReleasesUnchanged (start false) shared ∧
    ¬ Throughout openStep (ResolvesByDefault publicPath everywhere) (start false) shared ∧
    ∃ w s f x, run openStep (start false) (shared.take 7) = some w ∧
      w.calls[1]? = some (.running s (.function f)) ∧ f.schemaName = none ∧ w.sessions[s]? = some x ∧
      resolvedIn everywhere x.path f.fn = some "tenant_acme_sales" := by
  refine ⟨by decide, ?_, ?_, ?_⟩
  · intro unchanged
    have back := unchanged (shared.take 4) (.releases 0) (shared.drop 5) _ rfl rfl 0 _ _ _ _ rfl rfl rfl
    exact absurd back (by decide)
  · intro default
    have same := default (shared.take 7) (.answers 1 (.ok (.num 8) none)) [] _ rfl rfl 1 _ _ _ _ rfl rfl rfl rfl
    exact absurd same (by decide)
  · exact ⟨_, _, _, _, rfl, rfl, rfl, rfl, by decide⟩

/-- Rules without a schema, one of them refused by the database. -/
def unqualified : List Event :=
  [.resolve "acme" globexRule .undefined, .opens 0, .answers 0 (.error "no such function" false), .releases 0,
    .resolve "globex" globexRule .undefined, .takes 1 0, .answers 1 (.ok (.num 8) none), .releases 1]

theorem unqualified_unchanged :
    (run openStep (start false) unqualified).isSome = true ∧
    Throughout openStep (fun w e => ReleasesUnchanged w e ∧ ResolvesByDefault publicPath everywhere w e)
      (start false) unqualified := by
  refine ⟨by decide, sessions_unchanged publicPath 50 (fun _ => "uuid") everywhere false unqualified ?_⟩
  apply throughout_of_checks
  decide

end DataFabric.WriteGenerators
