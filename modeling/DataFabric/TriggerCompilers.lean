import DataFabric.TriggerDefinitions

set_option autoImplicit false

/-!
# The two trigger compilers

Statements are kept as data: a generated function with its body, and the trigger
that executes it. A delimiter of the body can only come from a text of the
definition, the words of the compilers between two texts hold no `$`.
-/
namespace DataFabric.TriggerCompilers
open CharText JsValues TenantIdentifiers ExceptRules AstGuard TriggerDefinitions

inductive Timing
  | before | after | insteadOf
  deriving DecidableEq, Repr

inductive Operation
  | insert | update | delete | truncate
  deriving DecidableEq, Repr

inductive Level
  | row | statement
  deriving DecidableEq, Repr

inductive Test
  | compare (left operator right : String)
  | isNull (operand : String)
  | isNotNull (operand : String)
  deriving DecidableEq, Repr

inductive RowCondition
  | true_
  | test (t : Test)
  | all (cs : List RowCondition)
  | any (cs : List RowCondition)

structure Qualified where
  schema : String
  name : String
  deriving DecidableEq, Repr

structure RunAt where
  column : Option String
  interval : Option (ℕ × String)
  deriving DecidableEq, Repr

structure EnqueuedJob where
  triggerName : String
  event : String
  actionType : String
  tableName : String
  schemaName : String
  execute : String
  schedule : Option String
  runAt : RunAt
  maxAttempts : ℕ
  deriving DecidableEq, Repr

inductive Main
  /-- `IF (when) THEN RAISE EXCEPTION` -/
  | raise (when_ : RowCondition) (message : String)
  | enqueue (job : EnqueuedJob)
  | perform (function : Qualified) (args : List String)
  | statement (sql : String)

inductive Returns
  /-- `RETURN NEW` -/
  | new
  /-- `RETURN COALESCE(NEW, OLD)` -/
  | newOrOld
  deriving DecidableEq, Repr

structure Body where
  /-- when a `CLEANUP_TRIGGER` job is inserted first -/
  autoDrop : Option RowCondition
  main : Main
  returns : Returns
  securityDefiner : Bool

structure NativeTrigger where
  schema : String
  table : String
  name : String
  timing : Timing
  operations : List Operation
  level : Level
  /-- the `WHEN` clause -/
  when_ : Option RowCondition
  executes : Qualified

/-- A trigger function of its own, unless an existing one is executed, and the trigger. -/
structure CompiledTrigger where
  function : Option (Qualified × Body)
  trigger : NativeTrigger

inductive Statement
  /-- `CREATE OR REPLACE FUNCTION` -/
  | createFunction (name : Qualified) (body : Body)
  /-- `DROP TRIGGER IF EXISTS` -/
  | dropTrigger (schema table name : String)
  | createTrigger (t : NativeTrigger)

def CompiledTrigger.statements (c : CompiledTrigger) : List Statement :=
  (match c.function with
    | some (name, body) => [.createFunction name body]
    | none => []) ++
  [.dropTrigger c.trigger.schema c.trigger.table c.trigger.name, .createTrigger c.trigger]

def escaped (s : String) : String :=
  String.ofList ((s.toList.filter (· ≠ '\x00')).flatMap fun c => if c = '\'' then ['\'', '\''] else [c])

def literal (s : String) : String := "'" ++ s ++ "'"

def keywords : List String :=
  ["NOW()", "CURRENT_TIMESTAMP", "TG_OP", "TG_TABLE_NAME", "TG_WHEN", "TRUE", "FALSE", "NULL"]

def opMap : List (String × String) :=
  [("GT", ">"), ("LT", "<"), ("EQ", "="), ("GTE", ">="), ("LTE", "<="), ("NEQ", "<>"), ("NE", "<>"),
    (">", ">"), ("<", "<"), ("=", "="), (">=", ">="), ("<=", "<="), ("!=", "<>"), ("<>", "<>")]

def colRef (s : String) : Option (String × String) :=
  let row := String.ofList (s.toList.take 3)
  match s.toList.drop 3 with
  | '.' :: c :: cs =>
    if asciiLower row ∈ ["new", "old"] ∧ isWordStart c ∧ cs.all isWord then
      some (upperCase row, String.ofList (c :: cs))
    else none
  | _ => none

def numeric (s : String) : Bool :=
  let digits (cs : List Char) := cs ≠ [] && cs.all Char.isDigit
  let unsigned (cs : List Char) :=
    digits cs || (digits (cs.takeWhile Char.isDigit) &&
      match cs.dropWhile Char.isDigit with
      | '.' :: frac => digits frac
      | _ => false)
  match s.toList with
  | '-' :: cs => unsigned cs
  | cs => unsigned cs

def quotedLiteral (s : String) : Bool :=
  match s.toList with
  | '\'' :: cs => cs.getLast? = some '\'' && !cs.dropLast.contains '\''
  | _ => false

def operatorOf (c : Comparison) : String := upperCase (orText (either c.operator c.op) "EQ")

/-- `Math.floor(Number(v))`; the validator lets only whole numbers through. -/
def floorOf : JsValue → ℤ
  | .num q => q.num / q.den
  | _ => 0

/-- `Math.min(20, Math.max(1, Math.floor(Number(schedule?.maxAttempts || 5)) || 5))` -/
def maxAttempts (schedule : JsValue) : ℕ :=
  let given := floorOf (either (schedule.get "maxAttempts") (.num 5))
  min 20 (max 1 (if given = 0 then 5 else given)).toNat

def delayOf (schedule : JsValue) : ℕ :=
  (floorOf (coalesce (schedule.get "after") (coalesce (schedule.get "every") (.num 0)))).toNat

def unitOf (schedule : JsValue) : String :=
  let unit := upperCase (orText (schedule.get "unit") "MINUTE")
  if unit ∈ scheduleUnits then unit else "MINUTE"

def intervalOf (after : ℕ) (schedule : JsValue) : Option (ℕ × String) :=
  if 0 < after then some (after, unitOf schedule) else none

def isRelative (schedule : JsValue) : Bool := schedule.truthy && word (schedule.get "type") = "RELATIVE"

def scheduleJson (schedule : JsValue) : Option String :=
  if schedule.truthy then some (escaped (stringify schedule)) else none

mutual

def RowCondition.texts : RowCondition → List String
  | .true_ => []
  | .test (.compare l _ r) => [l, r]
  | .test (.isNull e) | .test (.isNotNull e) => [e]
  | .all cs | .any cs => RowCondition.allTexts cs

def RowCondition.allTexts : List RowCondition → List String
  | [] => []
  | c :: cs => RowCondition.texts c ++ RowCondition.allTexts cs

end

mutual

def RowCondition.sql : RowCondition → String
  | .true_ => "TRUE"
  | .test (.compare l op r) => l ++ " " ++ op ++ " " ++ r
  | .test (.isNull e) => e ++ " IS NULL"
  | .test (.isNotNull e) => e ++ " IS NOT NULL"
  | .all cs => "(" ++ " AND ".intercalate (RowCondition.sqls cs) ++ ")"
  | .any cs => "(" ++ " OR ".intercalate (RowCondition.sqls cs) ++ ")"

def RowCondition.sqls : List RowCondition → List String
  | [] => []
  | c :: cs => RowCondition.sql c :: RowCondition.sqls cs

end

def Main.texts : Main → List String
  | .raise c message => c.texts ++ [message]
  | .enqueue j => [j.triggerName, j.event, j.actionType, j.tableName, j.schemaName, j.execute] ++ j.schedule.toList
  | .perform f args => [f.schema, f.name] ++ args
  | .statement sql => [sql]

def Body.texts (b : Body) : List String :=
  (b.autoDrop.elim [] RowCondition.texts) ++ b.main.texts

def Body.mentions (b : Body) (delimiter : String) : Bool := b.texts.any (containsText delimiter)

def unexpected {α : Type} (message : String) : Except FabricError α := .error (.unexpected message)

structure CompileCtx where
  schemaName : String
  tableName : String
  tenantId : Option String := none
  allowFreeSql : Bool := false
  assertSafeWebhookUrl : UrlGuard

def guardUrl (guard : UrlGuard) (v : JsValue) : Except FabricError Unit :=
  match guard v with
  | .ok _ => .ok ()
  | .error e => fail e.code e.message

def message (m : JsValue) (fallback : String) : String :=
  String.ofList ((escaped (orText m fallback)).toList.flatMap fun c => if c = '%' then ['%', '%'] else [c])

def outside (schema tenantId : String) : Bool := !belongsToTenant schema tenantId

namespace TriggerActionCompiler

def ident (v : JsValue) : Except FabricError String :=
  if v.isNullish || v = .str "" then .ok "" else assertIdent v "identifier"

def qualify (name : JsValue) (ctx : CompileCtx) : Except FabricError Qualified := do
  let raw := trim (orText name "")
  if containsChar '.' raw then
    match split '.' raw with
    | [schema, name] => do
      let schema ← assertIdent (.str schema) "schema"
      if ctx.tenantId.all (outside schema) then
        unexpected ("Qualified name \"" ++ slice 60 raw ++ "\" is outside the workspace")
      else do
        let name ← assertIdent (.str name) "name"
        .ok ⟨schema, name⟩
    | _ => unexpected ("Invalid qualified name \"" ++ slice 40 raw ++ "\"")
  else do
    let schema ← assertIdent (.str ctx.schemaName) "schema"
    let name ← assertIdent (.str raw) "name"
    .ok ⟨schema, name⟩

def exprText (s : String) : String :=
  match colRef s with
  | some (row, column) => row ++ "." ++ quoted column
  | none =>
    if numeric s then s
    else if upperCase s ∈ keywords then upperCase s
    else if quotedLiteral s then s
    else literal (String.ofList (s.toList.flatMap fun c => if c = '\'' then ['\'', '\''] else [c]))

def expr : JsValue → String
  | .undefined | .null => "NULL"
  | .num q => JsValue.numberText q
  | .bool b => if b then "TRUE" else "FALSE"
  | v => exprText (trim v.text)

/-- A bare column name where the row of a statement is meant. -/
def operand (v : JsValue) (isTableFilter : Bool) : Except FabricError String :=
  match v with
  | .str s =>
    let name := trim s
    if isTableFilter && ((name.toList.head?.any isWordStart && name.toList.all isWord) &&
        upperCase s ∉ keywords) then
      quoteIdent (.str name) "column"
    else .ok (expr v)
  | _ => .ok (expr v)

def comparison (c : Comparison) (isTableFilter : Bool) : Except FabricError RowCondition := do
  let op := operatorOf c
  let left ← operand (coalesce c.left c.column) isTableFilter
  if op = "IS_NULL" then .ok (.test (.isNull left))
  else if op = "IS_NOT_NULL" then .ok (.test (.isNotNull left))
  else match opMap.lookup op with
    | some sqlOp => .ok (.test (.compare left sqlOp (expr (coalesce c.right c.value))))
    | none => unexpected s!"Unsupported condition operator: {op}"

mutual

def condition : Condition → Bool → Except FabricError RowCondition
  | .scalar p, isTableFilter =>
    if (JsValue.prim p).truthy then comparison {} isTableFilter else .ok .true_
  | .list, isTableFilter => comparison {} isTableFilter
  | .all cs, isTableFilter => do .ok (.all (← conditions cs isTableFilter))
  | .any cs, isTableFilter => do .ok (.any (← conditions cs isTableFilter))
  | .compare c, isTableFilter => comparison c isTableFilter

def conditions : List Condition → Bool → Except FabricError (List RowCondition)
  | [], _ => .ok []
  | c :: cs, isTableFilter => do .ok ((← condition c isTableFilter) :: (← conditions cs isTableFilter))

end

def freeSql (sql : JsValue) (ctx : CompileCtx) : Except FabricError Main := do
  require ctx.allowFreeSql "FREE_SQL_NOT_ALLOWED"
    "FREE_SQL_NOT_ALLOWED: action.sql is free-form SQL, which is not allowed for this account"
  let raw := withoutSemicolons (trim sql.text)
  if raw = "" || containsChar ';' raw || containsChar '\x00' raw || hasDollarQuote raw ||
      containsText "--" raw || containsText "/*" raw then
    unexpected "action.sql must be a single statement without comments or dollar quoting"
  else .ok (.statement (raw ++ ";"))
where
  /-- `replace(/;+\s*$/, '')`, after `trim` -/
  withoutSemicolons (s : String) : String := String.ofList ((s.toList.reverse.dropWhile (· = ';')).reverse)

def target (q : Qualified) : String := quoted q.schema ++ "." ++ quoted q.name

def columnNames (v : JsValue) : Except FabricError (List String) :=
  (keys v).mapM fun k => quoteIdent (.str k) "column"

def insertAction (a : JsValue) (ctx : CompileCtx) : Except FabricError Main := do
  let into ← qualify (either (a.get "into") (a.get "table")) ctx
  if (keys (a.get "values")).isEmpty then unexpected "INSERT action requires values" else do
    let cols ← columnNames (a.get "values")
    .ok (.statement ("INSERT INTO " ++ target into ++ " (" ++ listed cols ++ ") VALUES (" ++
      listed ((entries (a.get "values")).map fun e => expr e.2) ++ ");"))

def updateAction (a : JsValue) (ctx : CompileCtx) : Except FabricError Main := do
  let table ← qualify (either (a.get "table") (a.get "into")) ctx
  if (keys (a.get "set")).isEmpty then unexpected "UPDATE action requires set"
  else if !(a.get "where").truthy then
    unexpected "UPDATE action requires where (refusing full-table update)"
  else do
    let cols ← columnNames (a.get "set")
    let filter ← condition (.ofJs (a.get "where")) true
    let set := (cols.zip (entries (a.get "set"))).map fun e => e.1 ++ " = " ++ expr e.2.2
    .ok (.statement ("UPDATE " ++ target table ++ " SET " ++ listed set ++ " WHERE " ++
      filter.sql ++ ";"))

def deleteAction (a : JsValue) (ctx : CompileCtx) : Except FabricError Main := do
  let table ← qualify (either (a.get "from") (a.get "table")) ctx
  if !(a.get "where").truthy then unexpected "DELETE action requires where (refusing full-table delete)"
  else do
    let filter ← condition (.ofJs (a.get "where")) true
    .ok (.statement ("DELETE FROM " ++ target table ++ " WHERE " ++ filter.sql ++ ";"))

def raise (when_ m : JsValue) : Except FabricError Main := do
  .ok (.raise (← condition (.ofJs when_) false) (message m "Trigger rule violation"))

def performAction (a : JsValue) (ctx : CompileCtx) : Except FabricError Main := do
  .ok (.perform (← qualify (either (a.get "function") (a.get "name")) ctx)
    ((a.get "args").elements.map expr))

def compileActionBody (a : JsValue) (ctx : CompileCtx) : Except FabricError Main :=
  if (a.get "sql").truthy then freeSql (a.get "sql") ctx
  else match word (a.get "type") with
    | "INSERT" => insertAction a ctx
    | "UPDATE" => updateAction a ctx
    | "DELETE" => deleteAction a ctx
    | "RAISE" | "EXCEPTION" => raise (a.get "when") (a.get "message")
    | "PERFORM" | "FUNCTION" => performAction a ctx
    | type => unexpected s!"Unsupported action type: {type}"

def runAtExpr (schedule : JsValue) : Except FabricError RunAt :=
  if isRelative schedule then do
    let column ← ident (either (schedule.get "column") (schedule.get "relativeColumn"))
    .ok ⟨if column = "" then none else some column, intervalOf (delayOf schedule) schedule⟩
  else .ok ⟨none, none⟩

def eventName (t : JsValue) : Except FabricError String :=
  (ident (either (t.get "event")
    (if (t.get "events").isArray then (t.get "events").elements.headD .undefined else .str "INSERT"))).map
      upperCase

def compileEnqueueBody (t : JsValue) (name : String) (ctx : CompileCtx) : Except FabricError Main := do
  let ex := t.get "execute"
  unlessNullish (ex.get "url") (guardUrl ctx.assertSafeWebhookUrl (ex.get "url"))
  unlessNullish ((ex.get "auth").get "tokenEndpoint")
    (guardUrl ctx.assertSafeWebhookUrl ((ex.get "auth").get "tokenEndpoint"))
  let schemaName ← assertIdent (.str ctx.schemaName) "schema"
  let tableName ← assertIdent (.str ctx.tableName) "table"
  let event ← eventName t
  let runAt ← runAtExpr (t.get "schedule")
  .ok (.enqueue
    { triggerName := name, event, actionType := word (ex.get "type"), tableName, schemaName
      execute := escaped (stringify ex), schedule := scheduleJson (t.get "schedule"), runAt
      maxAttempts := maxAttempts (t.get "schedule") })

/-- An existing function to execute, or a body, and whether it runs as its owner. -/
inductive Resolved
  | procedure (name : String)
  | body (main : Main) (securityDefiner : Bool)

def compileExecute (t : JsValue) (name : String) (ctx : CompileCtx) : Except FabricError Resolved :=
  let ex := t.get "execute"
  match word (ex.get "type") with
  | "AUDIT" => .ok (.procedure "audit_log_fn")
  | "FUNCTION" => do .ok (.body (.perform (← qualify (ex.get "name") ctx) []) false)
  | "EXCEPTION" => do .ok (.body (← raise (ex.get "when") (ex.get "message")) false)
  | "WEBHOOK" | "EMAIL" | "TELEGRAM" => do .ok (.body (← compileEnqueueBody t name ctx) true)
  | type => unexpected s!"Unsupported execute.type: {type}"

def resolve (t : JsValue) (name : String) (ctx : CompileCtx) : Except FabricError Resolved :=
  if (t.get "action").truthy then do .ok (.body (← compileActionBody (t.get "action") ctx) false)
  else if ((t.get "execute").get "type").truthy then compileExecute t name ctx
  else match either (t.get "procedure") (t.get "function") with
    | .str p =>
      if p = "" then unexpected s!"trigger {name}: needs one of action, execute, procedure, or function"
      else .ok (.procedure p)
    | v =>
      if v.truthy then unexpected "procedure.includes is not a function"
      else unexpected s!"trigger {name}: needs one of action, execute, procedure, or function"

def eventTimings : List (String × Timing) :=
  [("BEFORE", .before), ("AFTER", .after), ("INSTEAD OF", .insteadOf)]

def timingOfLabel (up : String) : Option Timing :=
  if startsWith up "BEFORE" then some .before
  else if startsWith up "AFTER" then some .after
  else if startsWith up "INSTEAD" then some .insteadOf
  else none

def timingFromEvent (event : JsValue) : Option Timing :=
  if event.truthy then timingOfLabel (upperCase event.text) else none

def timing (t : JsValue) : Timing :=
  match eventTimings.lookup (word (t.get "timing")) with
  | some timing => timing
  | none => (timingFromEvent (t.get "event")).getD .after

def operations : List (String × Operation) :=
  [("INSERT", .insert), ("UPDATE", .update), ("DELETE", .delete), ("TRUNCATE", .truncate)]

def operationOfLabel (up : String) : String :=
  match afterLast '_' up with
  | "" => "INSERT"
  | op => op

def recognised (evs : List String) : List Operation := evs.filterMap fun e => operations.lookup (upperCase e)

def normalizeEvents (t : JsValue) : List Operation :=
  let evs :=
    if (t.get "events").isArray then (t.get "events").elements.map JsValue.text
    else if (t.get "event").truthy then [operationOfLabel (upperCase (t.get "event").text)]
    else [orText (t.get "events") "INSERT"]
  match recognised evs with
  | [] => [.insert]
  | ops => ops

def level (t : JsValue) : Level :=
  let word := orText (either (t.get "execution") (either (t.get "forEach") (t.get "scope"))) "row"
  if asciiLower word = "statement" then .statement else .row

def procRef (p : String) (ctx : CompileCtx) : Except FabricError Qualified :=
  if containsChar '.' p then qualify (.str p) ctx
  else (assertIdent (.str p) "procedure").map fun p => ⟨"public", p⟩

/-- The function a trigger executes and, unless it exists already, its body. -/
def function (resolved : Resolved) (name : String) (ctx : CompileCtx) :
    Except FabricError (Qualified × Option Body) :=
  match resolved with
  | .procedure p => (procRef p ctx).map fun q => (q, none)
  | .body main securityDefiner => do
    let body : Body := ⟨none, main, .newOrOld, securityDefiner⟩
    if body.mentions "$DFTRG$" then unexpected "trigger body must not contain the $DFTRG$ delimiter" else do
      let schema ← assertIdent (.str ctx.schemaName) "schema"
      let fnName ← assertIdent (.str (name ++ "_fn")) "function"
      .ok (⟨schema, fnName⟩, some body)

def toSql (t : JsValue) (ctx : CompileCtx) : Except FabricError CompiledTrigger := do
  let name ← ident (t.get "name")
  if name = "" then unexpected "trigger name is required" else do
    let schema ← assertIdent (.str ctx.schemaName) "schema"
    let table ← assertIdent (.str ctx.tableName) "table"
    let resolved ← resolve t name ctx
    let (executes, body) ← function resolved name ctx
    .ok ⟨body.map fun b => (executes, b),
      ⟨schema, table, name, timing t, normalizeEvents t, level t, none, executes⟩⟩

end TriggerActionCompiler

namespace TriggerTranspiler

def valueText (s : String) : String :=
  match (colRef s).filter fun r => r.2.toList.length ≤ 63 with
  | some (row, column) => row ++ "." ++ quoted column
  | none =>
    if numeric s then s
    else if upperCase s ∈ keywords then upperCase s
    else if quotedLiteral s then (if containsChar '\x00' s then literal "" else s)
    else literal (escaped s)

def valueToSql : JsValue → String
  | .undefined | .null => "NULL"
  | .num q => JsValue.numberText q
  | .bool b => if b then "TRUE" else "FALSE"
  | v => valueText (trim v.text)

def comparison (c : Comparison) : Except FabricError RowCondition :=
  let op := operatorOf c
  if op = "IS_NULL" then .ok (.test (.isNull (valueToSql c.left)))
  else if op = "IS_NOT_NULL" then .ok (.test (.isNotNull (valueToSql c.left)))
  else match opMap.lookup op with
    | some sqlOp =>
      if c.left = .undefined ∨ c.right = .undefined then .ok .true_
      else .ok (.test (.compare (valueToSql c.left) sqlOp (valueToSql c.right)))
    | none => unexpected s!"Unsupported condition operator: {slice 20 op}"

def tooDeep (depth : ℕ) : Except FabricError Unit :=
  if 6 < depth then unexpected "Condition is nested too deeply" else .ok ()

mutual

def astToSql : Condition → ℕ → Except FabricError RowCondition
  | .scalar p, depth =>
    if !(JsValue.prim p).truthy then .ok .true_
    else do
      tooDeep depth
      match p with
      | .string _ =>
        unexpected "Free-form string conditions are not allowed; use \x7b left, operator, right \x7d"
      | _ => comparison {}
  | .list, depth => do
    tooDeep depth
    comparison {}
  | .all cs, depth => do
    tooDeep depth
    .ok (.all (← astsToSql cs (depth + 1)))
  | .any cs, depth => do
    tooDeep depth
    .ok (.any (← astsToSql cs (depth + 1)))
  | .compare c, depth => do
    tooDeep depth
    comparison c

def astsToSql : List Condition → ℕ → Except FabricError (List RowCondition)
  | [], _ => .ok []
  | c :: cs, depth => do .ok ((← astToSql c depth) :: (← astsToSql cs depth))

end

def anchorColumn (schedule : JsValue) : Except FabricError (Option String) :=
  let raw := either (schedule.get "column") (schedule.get "relativeColumn")
  if raw.truthy then (assertIdent raw "schedule column").map some else .ok none

def runAtExpr (schedule : JsValue) : Except FabricError RunAt :=
  if isRelative schedule then
    (anchorColumn schedule).map fun column =>
      ⟨column, intervalOf (min 1000000 (delayOf schedule)) schedule⟩
  else .ok ⟨none, none⟩

def enqueue (t : JsValue) (type schema table name : String) (ctx : CompileCtx) : Except FabricError Main := do
  let ex := t.get "execute"
  unlessNullish (ex.get "url") (guardUrl ctx.assertSafeWebhookUrl (ex.get "url"))
  let runAt ← runAtExpr (t.get "schedule")
  .ok (.enqueue
    { triggerName := name, event := escaped (t.get "event").text, actionType := type, tableName := table
      schemaName := schema, execute := escaped (stringify ex), schedule := scheduleJson (t.get "schedule")
      runAt, maxAttempts := maxAttempts (t.get "schedule") })

def functionName (v : JsValue) (schema : String) (ctx : CompileCtx) : Except FabricError Qualified :=
  let fn := orText v ""
  if containsChar '.' fn then
    match split '.' fn with
    | [fs, fname] => do
      let fs ← assertIdent (.str fs) "schema"
      if ctx.tenantId.all (outside fs) then unexpected "Qualified function names must be inside the workspace"
      else do
        let fname ← assertIdent (.str fname) "function"
        .ok ⟨fs, fname⟩
    | _ => unexpected "Qualified function names must be inside the workspace"
  else (assertIdent (.str fn) "function").map fun fname => ⟨schema, fname⟩

/-- The `execute` switch, whose words are compared as they stand. -/
def execution (t : JsValue) (schema table name : String) (ctx : CompileCtx) : Except FabricError Main :=
  let ex := t.get "execute"
  match ex.get "type" with
  | .str "EXCEPTION" => do
    .ok (.raise (← astToSql (.ofJs (ex.get "when")) 0) (message (ex.get "message") "Business Rule Violation"))
  | .str "WEBHOOK" => enqueue t "WEBHOOK" schema table name ctx
  | .str "AUDIT" => enqueue t "AUDIT" schema table name ctx
  | .str "EMAIL" => enqueue t "EMAIL" schema table name ctx
  | .str "TELEGRAM" => enqueue t "TELEGRAM" schema table name ctx
  | .str "FUNCTION" => do .ok (.perform (← functionName (ex.get "name") schema ctx) [])
  | type =>
    if ex.isNullish then unexpected "Cannot read properties of undefined (reading 'type')"
    else unexpected s!"Unsupported execute.type: {type.text}"

def autoDropOf (t : JsValue) : Except FabricError (Option RowCondition) :=
  if (t.get "autoDrop").truthy then (astToSql (.ofJs ((t.get "autoDrop").get "when")) 0).map some
  else .ok none

def generateFunctionBody (t : JsValue) (schema table name : String) (ctx : CompileCtx) :
    Except FabricError Body := do
  let autoDrop ← autoDropOf t
  let main ← execution t schema table name ctx
  .ok ⟨autoDrop, main, .new, false⟩

def eventRe : List (String × Timing × Operation) :=
  [("BEFORE_INSERT", .before, .insert), ("BEFORE_UPDATE", .before, .update),
    ("BEFORE_DELETE", .before, .delete), ("AFTER_INSERT", .after, .insert),
    ("AFTER_UPDATE", .after, .update), ("AFTER_DELETE", .after, .delete),
    ("INSTEAD_OF_INSERT", .insteadOf, .insert), ("INSTEAD_OF_UPDATE", .insteadOf, .update),
    ("INSTEAD_OF_DELETE", .insteadOf, .delete)]

def whenOf (t : JsValue) : Except FabricError (Option RowCondition) :=
  if (t.get "condition").truthy then (astToSql (.ofJs (t.get "condition")) 0).map some else .ok none

def toSql (t : JsValue) (ctx : CompileCtx) : Except FabricError CompiledTrigger := do
  let name ← assertIdent (t.get "name") "trigger name"
  let schema ← assertIdent (.str ctx.schemaName) "schema"
  let table ← assertIdent (.str ctx.tableName) "table"
  if ctx.tenantId.any (outside schema) then
    unexpected ("Trigger target schema \"" ++ schema ++ "\" is outside the workspace")
  else match eventRe.lookup (word (t.get "event")) with
    | none => unexpected "Invalid trigger event"
    | some (timing, op) => do
      let body ← generateFunctionBody t schema table name ctx
      if body.mentions "$DFTRGE$" || body.mentions "$$" then
        unexpected "Trigger body must not contain dollar-quote delimiters"
      else do
        let fnName ← assertIdent (.str (name ++ "_func")) "function name"
        let when_ ← whenOf t
        .ok ⟨some (⟨schema, fnName⟩, body),
          ⟨schema, table, name, timing, [op], .row, when_, ⟨schema, fnName⟩⟩⟩

end TriggerTranspiler

end DataFabric.TriggerCompilers
