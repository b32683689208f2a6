import DataFabric.AstGuard

set_option autoImplicit false

/-!
# The trigger definitions that are accepted

Conditions are read once into the shapes the validator and both compilers tell
apart. The URL guard rests on the platform's URL parser and stays a parameter.
-/
namespace DataFabric.TriggerDefinitions
open CharText JsValues TenantIdentifiers ExceptRules AstGuard

def orText (v : JsValue) (fallback : String) : String := if v.truthy then v.text else fallback

def word (v : JsValue) : String := upperCase (orText v "")

def coalesce (v w : JsValue) : JsValue := if v.isNullish then w else v

def either (v w : JsValue) : JsValue := if v.truthy then v else w

def keys : JsValue → List String
  | .obj fields => fields.map Prod.fst
  | _ => []

def entries : JsValue → List (String × JsValue)
  | .obj fields => fields
  | _ => []

def listed (words : List String) : String := ", ".intercalate words

def hexDigits (n : ℕ) : List Char := [Nat.digitChar (n / 16 % 16), Nat.digitChar (n % 16)]

def escapedChar (c : Char) : List Char :=
  if c = '"' ∨ c = '\\' then ['\\', c]
  else if c.toNat = 8 then ['\\', 'b']
  else if c.toNat = 9 then ['\\', 't']
  else if c.toNat = 10 then ['\\', 'n']
  else if c.toNat = 12 then ['\\', 'f']
  else if c.toNat = 13 then ['\\', 'r']
  else if c.toNat < 32 then ['\\', 'u', '0', '0'] ++ hexDigits c.toNat
  else [c]

def jsonString (s : String) : String := quoted (String.ofList (s.toList.flatMap escapedChar))

mutual

/-- `JSON.stringify(v)`; a field that is `undefined` is left out. -/
def stringify : JsValue → String
  | .undefined | .null => "null"
  | .bool b => if b then "true" else "false"
  | .num q => JsValue.numberText q
  | .str s => jsonString s
  | .arr vs => "[" ++ ",".intercalate (stringifyAll vs) ++ "]"
  | .obj fields => "\x7b" ++ ",".intercalate (stringifyFields fields) ++ "\x7d"

def stringifyAll : List JsValue → List String
  | [] => []
  | v :: vs => stringify v :: stringifyAll vs

def stringifyFields : List (String × JsValue) → List String
  | [] => []
  | (k, v) :: fields =>
    if v = .undefined then stringifyFields fields
    else (jsonString k ++ ":" ++ stringify v) :: stringifyFields fields

end

structure NetGuardError where
  code : String
  message : String
  deriving DecidableEq, Repr

/-- `assertSafeWebhookUrl` in the environment of one process. -/
abbrev UrlGuard := JsValue → Except NetGuardError Unit

structure TriggerValidationOptions where
  allowFreeSql : Bool := false
  tenantId : Option String := none
  assertSafeWebhookUrl : UrlGuard

/-- A comparison; `column` and `value` stand for `left` and `right` in one of the compilers. -/
structure Comparison where
  left : JsValue := .undefined
  right : JsValue := .undefined
  column : JsValue := .undefined
  value : JsValue := .undefined
  operator : JsValue := .undefined
  op : JsValue := .undefined
  deriving DecidableEq

/-- A condition node: not an object, a group whose `and` or `or` is an array, or a comparison. -/
inductive Condition
  | scalar (p : Primitive)
  | list
  | all (cs : List Condition)
  | any (cs : List Condition)
  | compare (c : Comparison)

namespace Condition

def comparison (fields : List (String × JsValue)) : Comparison :=
  let get := (JsValue.obj fields).get
  ⟨get "left", get "right", get "column", get "value", get "operator", get "op"⟩

/-- Which node an object is, given the fields of it that are arrays. -/
def ofGroups (fields : List (String × JsValue)) (groups : List (String × Option (List Condition))) :
    Condition :=
  match groups.lookup "and", groups.lookup "or" with
  | some (some cs), _ => all cs
  | _, some (some cs) => any cs
  | _, _ => compare (comparison fields)

mutual

def ofJs : JsValue → Condition
  | .prim p => scalar p
  | .arr _ => list
  | .obj fields => ofGroups fields (arraysOf fields)

def ofList : List JsValue → List Condition
  | [] => []
  | v :: vs => ofJs v :: ofList vs

def arraysOf : List (String × JsValue) → List (String × Option (List Condition))
  | [] => []
  | (k, .arr vs) :: fields => (k, some (ofList vs)) :: arraysOf fields
  | (k, .prim _) :: fields | (k, .obj _) :: fields => (k, none) :: arraysOf fields

end

end Condition

def require (ok : Bool) (code message : String) : Except FabricError Unit :=
  if ok then .ok () else .error (.invalidRequest code message)

def whenever (b : Bool) (check : Except FabricError Unit) : Except FabricError Unit :=
  if b then check else .ok ()

def fail {α : Type} (code message : String) : Except FabricError α :=
  .error (.invalidRequest code message)

def ident (v : JsValue) (what : String) : Except FabricError Unit :=
  match assertIdent v what with
  | .ok _ => .ok ()
  | .error (.identifier message) => fail "INVALID_IDENTIFIER" message
  | .error e => .error e

def qualified (v : JsValue) (what : String) (opts : TriggerValidationOptions) : Except FabricError Unit :=
  match v with
  | .str s =>
    if s = "" then fail "INVALID_IDENTIFIER" s!"{what} is required"
    else if !containsChar '.' s then ident v what
    else match split '.' s with
      | [schema, name] => do
        ident (.str schema) s!"{what} schema"
        ident (.str name) s!"{what} name"
        match opts.tenantId with
        | none => fail "CROSS_TENANT" s!"{what}: qualified names are not allowed here"
        | some t =>
          if belongsToTenant schema t then .ok ()
          else fail "CROSS_TENANT" (what ++ ": schema \"" ++ schema ++ "\" is outside your workspace")
      | _ => fail "INVALID_IDENTIFIER" s!"{what}: only schema.name is allowed"
  | _ => fail "INVALID_IDENTIFIER" s!"{what} is required"

def forbiddenKeys : List String := ["__proto__", "constructor", "prototype"]

def scanDepth (depth : ℕ) : Except FabricError Unit :=
  require (depth ≤ 12) "TOO_DEEP" "definition is nested too deeply"

mutual

def scan : JsValue → ℕ → Except FabricError Unit
  | .prim _, depth => scanDepth depth
  | .arr vs, depth => do
    scanDepth depth
    scanAll vs (depth + 1)
  | .obj fields, depth => do
    scanDepth depth
    scanFields fields (depth + 1)

def scanAll : List JsValue → ℕ → Except FabricError Unit
  | [], _ => .ok ()
  | v :: vs, depth => do
    scan v depth
    scanAll vs depth

def scanFields : List (String × JsValue) → ℕ → Except FabricError Unit
  | [], _ => .ok ()
  | (k, v) :: fields, depth => do
    require (k ∉ forbiddenKeys) "FORBIDDEN_KEY" ("key \"" ++ k ++ "\" is not allowed")
    scan v depth
    scanFields fields depth

end

def isText (v : JsValue) (max : ℕ) : Bool :=
  match v with
  | .str s => utf16Length s ≤ max && !containsChar '\x00' s
  | _ => false

def str (v : JsValue) (what : String) (max : ℕ) : Except FabricError Unit :=
  require (isText v max) "INVALID_VALUE" s!"{what} must be a string up to {max} characters"

def isIntIn (v : JsValue) (min max : ℕ) : Bool :=
  match v with
  | .num q => q.den = 1 && decide (min ≤ q ∧ q ≤ max)
  | _ => false

def intIn (v : JsValue) (what : String) (min max : ℕ) : Except FabricError Unit :=
  require (isIntIn v min max) "INVALID_VALUE" s!"{what} must be an integer between {min} and {max}"

def condOps : List String :=
  ["GT", "LT", "EQ", "GTE", "LTE", "NEQ", "NE", ">", "<", "=", ">=", "<=", "!=", "<>", "IS_NULL",
    "IS_NOT_NULL"]

def isScalar : JsValue → Bool
  | .prim _ => true
  | _ => false

def validateSide (v : JsValue) (what : String) : Except FabricError Unit := do
  require (isScalar v) "INVALID_CONDITION" s!"{what} must be a scalar"
  match v with
  | .str s => require (utf16Length s ≤ 200 && !containsChar '\x00' s) "INVALID_CONDITION" s!"{what} is too long"
  | _ => .ok ()

def validateComparison (c : Comparison) (what : String) : Except FabricError Unit := do
  let op := upperCase (coalesce c.operator (coalesce c.op (.str "EQ"))).text
  require (op ∈ condOps) "INVALID_CONDITION" (what ++ ": unsupported operator \"" ++ slice 20 op ++ "\"")
  validateSide c.left s!"{what}.left"
  validateSide c.right s!"{what}.right"

mutual

def validateCondition : Condition → String → ℕ → ℕ → Except FabricError ℕ
  | .scalar .undefined, _, _, n | .scalar .null, _, _, n => .ok n
  | .scalar (.string _), what, depth, n => do
    require (depth ≤ 6 && n < 50) "TOO_COMPLEX" s!"{what} is too complex"
    -- the legacy form is compiled as a quoted literal
    .ok (n + 1)
  | .scalar (.boolean _), what, depth, n | .scalar (.number _), what, depth, n
  | .list, what, depth, n => do
    require (depth ≤ 6 && n < 50) "TOO_COMPLEX" s!"{what} is too complex"
    fail "INVALID_CONDITION" s!"{what} must be an object"
  | .all cs, what, depth, n | .any cs, what, depth, n => do
    require (depth ≤ 6 && n < 50) "TOO_COMPLEX" s!"{what} is too complex"
    validateConditions cs what (depth + 1) (n + 1)
  | .compare c, what, depth, n => do
    require (depth ≤ 6 && n < 50) "TOO_COMPLEX" s!"{what} is too complex"
    validateComparison c what
    .ok (n + 1)

def validateConditions : List Condition → String → ℕ → ℕ → Except FabricError ℕ
  | [], _, _, n => .ok n
  | c :: cs, what, depth, n => do
    let n ← validateCondition c what depth n
    validateConditions cs what depth n

end

def checkCondition (v : JsValue) (what : String) : Except FabricError Unit :=
  (validateCondition (.ofJs v) what 0 0).map fun _ => ()

def executeTypes : List String := ["FUNCTION", "WEBHOOK", "EXCEPTION", "AUDIT", "EMAIL", "TELEGRAM"]

def methods : List String := ["GET", "POST", "PUT", "PATCH", "DELETE"]

def authTypes : List String := ["NONE", "BASIC", "BEARER", "OIDC"]

def executeKeys : List String :=
  ["type", "name", "url", "method", "payload", "params", "headers", "auth", "message", "when", "timeoutMs"]

def maxDefinitionBytes : ℕ := 64 * 1024

def maxPayloadBytes : ℕ := 32 * 1024

def onlyKeys (v : JsValue) (known : List String) (what : String) : Except FabricError Unit :=
  let unknown := (keys v).filter (· ∉ known)
  require unknown.isEmpty "UNKNOWN_KEYS" s!"{what}: unknown key(s): {listed (unknown.take 5)}"

/-- A word of a list in any letter case; an absent value passes. -/
def oneOf (v : JsValue) (words : List String) (code message : String) : Except FabricError Unit :=
  unlessNullish v (require (upperCase v.text ∈ words) code message)

def validateUrl (v : JsValue) (what : String) (opts : TriggerValidationOptions) : Except FabricError Unit :=
  match opts.assertSafeWebhookUrl v with
  | .ok _ => .ok ()
  | .error e => fail e.code s!"{what}: {e.message}"

def headerName (k : String) : Bool :=
  matchesWord headerChar headerChar 0 99 k
where
  headerChar (c : Char) : Bool := c.isAlphanum || "!#$%&'*+.^_`|~-".toList.contains c

def validateHeader (entry : String × JsValue) : Except FabricError Unit := do
  let (k, v) := entry
  require (headerName k) "INVALID_HEADERS" ("invalid header name \"" ++ slice 30 k ++ "\"")
  require (match v with
    | .str s => utf16Length s ≤ 4096 && !(['\r', '\n', '\x00'].any (containsChar · s))
    | _ => false) "INVALID_HEADERS" ("invalid value for header \"" ++ k ++ "\"")
  require (asciiLower k ∉ ["host", "content-length", "transfer-encoding", "connection"])
    "INVALID_HEADERS" ("header \"" ++ k ++ "\" cannot be set")

def validateHeaders (h : JsValue) : Except FabricError Unit := do
  require (h.isObj && (keys h).length ≤ 20) "INVALID_HEADERS"
    "execute.headers must be an object with at most 20 entries"
  (entries h).forM validateHeader

def validateAuth (auth : JsValue) (opts : TriggerValidationOptions) : Except FabricError Unit := do
  require auth.isObj "INVALID_AUTH" "execute.auth must be an object"
  require (upperCase (orText (auth.get "type") "NONE") ∈ authTypes) "INVALID_AUTH"
    "execute.auth.type must be NONE, BASIC, BEARER or OIDC"
  ["username", "password", "token", "clientId", "clientSecret", "scope", "audience"].forM fun k =>
    unlessNullish (auth.get k) (str (auth.get k) s!"execute.auth.{k}" 4096)
  unlessNullish (auth.get "tokenEndpoint")
    (validateUrl (auth.get "tokenEndpoint") "execute.auth.tokenEndpoint" opts)

def validateExecute (ex : JsValue) (opts : TriggerValidationOptions) : Except FabricError Unit := do
  require ex.isObj "INVALID_EXECUTE" "execute must be an object"
  let type := word (ex.get "type")
  require (type ∈ executeTypes) "INVALID_EXECUTE"
    s!"execute.type must be one of {listed executeTypes}"
  onlyKeys ex executeKeys "execute"
  whenever (type = "FUNCTION") (qualified (ex.get "name") "execute.name" opts)
  whenever (type = "EXCEPTION") do
    unlessNullish (ex.get "message") (str (ex.get "message") "execute.message" 500)
    checkCondition (ex.get "when") "execute.when"
  unlessNullish (ex.get "url") (validateUrl (ex.get "url") "execute.url" opts)
  oneOf (ex.get "method") methods "INVALID_METHOD"
    s!"execute.method must be one of {listed methods}"
  unlessNullish (ex.get "headers") (validateHeaders (ex.get "headers"))
  unlessNullish (ex.get "auth") (validateAuth (ex.get "auth") opts)
  ["payload", "params"].forM fun k =>
    unlessNullish (ex.get k) (require (utf16Length (stringify (ex.get k)) ≤ maxPayloadBytes) "TOO_LARGE"
      s!"execute.{k} is larger than {maxPayloadBytes / 1024} KB")
  unlessNullish (ex.get "timeoutMs") (intIn (ex.get "timeoutMs") "execute.timeoutMs" 100 60000)

def actionTypes : List String := ["INSERT", "UPDATE", "DELETE", "RAISE", "EXCEPTION", "PERFORM", "FUNCTION"]

def hasDollarQuote (s : String) : Bool :=
  s.toList.tails.any fun t =>
    match t with
    | '$' :: rest => (rest.dropWhile isWord).head? = some '$'
    | _ => false

def validateColumns (v : JsValue) (what : String) : Except FabricError Unit :=
  (keys v).forM fun k => ident (.str k) what

def validateWhere (w : JsValue) (action : String) : Except FabricError Unit := do
  require w.truthy "INVALID_ACTION" s!"{action} action requires where"
  checkCondition w "action.where"

def validateFreeSql (sql : JsValue) (opts : TriggerValidationOptions) : Except FabricError Unit := do
  require opts.allowFreeSql "FREE_SQL_NOT_ALLOWED"
    "FREE_SQL_NOT_ALLOWED: action.sql is free-form SQL, which is not allowed for this account (use a structured action, or ask a platform admin)"
  str sql "action.sql" 5000
  require (!hasDollarQuote sql.text) "INVALID_ACTION" "action.sql must not contain dollar-quote delimiters"

def validateStructuredAction (a : JsValue) (opts : TriggerValidationOptions) : Except FabricError Unit := do
  let type := word (a.get "type")
  require (type ∈ actionTypes) "INVALID_ACTION" s!"action.type must be one of {listed actionTypes}"
  if type = "INSERT" then do
    qualified (either (a.get "into") (a.get "table")) "action.into" opts
    require (a.get "values").isObj "INVALID_ACTION" "INSERT action needs values"
    let count := (keys (a.get "values")).length
    require (count ≠ 0 && count ≤ 100) "INVALID_ACTION" "INSERT action needs 1-100 values"
    validateColumns (a.get "values") "action.values column"
  else if type = "UPDATE" then do
    qualified (either (a.get "table") (a.get "into")) "action.table" opts
    let count := (keys (a.get "set")).length
    require ((a.get "set").isObj && count ≠ 0 && count ≤ 100) "INVALID_ACTION"
      "UPDATE action needs 1-100 set values"
    validateColumns (a.get "set") "action.set column"
    validateWhere (a.get "where") "UPDATE"
  else if type = "DELETE" then do
    qualified (either (a.get "from") (a.get "table")) "action.from" opts
    validateWhere (a.get "where") "DELETE"
  else if type = "RAISE" ∨ type = "EXCEPTION" then do
    unlessNullish (a.get "message") (str (a.get "message") "action.message" 500)
    checkCondition (a.get "when") "action.when"
  else do
    qualified (either (a.get "function") (a.get "name")) "action.function" opts
    unlessNullish (a.get "args") (require ((a.get "args").isArray && (a.get "args").elements.length ≤ 20)
      "INVALID_ACTION" "action.args must be an array of up to 20")

def validateAction (a : JsValue) (opts : TriggerValidationOptions) : Except FabricError Unit := do
  require a.isObj "INVALID_ACTION" "action must be an object"
  if (a.get "sql").isNullish then validateStructuredAction a opts
  else validateFreeSql (a.get "sql") opts

def scheduleUnits : List String := ["SECOND", "MINUTE", "HOUR", "DAY", "MONTH"]

def scheduleKeys : List String :=
  ["type", "cron", "every", "after", "unit", "column", "relativeColumn", "maxAttempts"]

def cronText (v : JsValue) : Bool :=
  match v with
  | .str s =>
    utf16Length s ≤ 100 && s ≠ "" &&
      s.toList.all fun c => c.isAlphanum || ['*', '/', ',', '-', '?', ' '].contains c
  | _ => false

def validateSchedule (s : JsValue) : Except FabricError Unit := do
  require s.isObj "INVALID_SCHEDULE" "schedule must be an object"
  let type := word (s.get "type")
  require (type ∈ ["FIXED", "RELATIVE", "CRON"]) "INVALID_SCHEDULE"
    "schedule.type must be FIXED, RELATIVE or CRON"
  unlessNullish (s.get "cron") (require (cronText (s.get "cron")) "INVALID_SCHEDULE"
    "schedule.cron is not a valid cron expression")
  require (type ≠ "CRON" || !(s.get "cron").isNullish) "INVALID_SCHEDULE"
    "schedule.cron is required for CRON schedules"
  unlessNullish (s.get "every") (intIn (s.get "every") "schedule.every" 1 1000000)
  unlessNullish (s.get "after") (intIn (s.get "after") "schedule.after" 0 1000000)
  unlessNullish (s.get "maxAttempts") (intIn (s.get "maxAttempts") "schedule.maxAttempts" 1 20)
  oneOf (s.get "unit") scheduleUnits "INVALID_SCHEDULE"
    s!"schedule.unit must be one of {listed scheduleUnits}"
  ["column", "relativeColumn"].forM fun k => unlessNullish (s.get k) (ident (s.get k) s!"schedule.{k}")
  onlyKeys s scheduleKeys "schedule"

def definitionKeys : List String :=
  ["name", "event", "events", "timing", "execution", "forEach", "scope", "condition", "execute", "action",
    "procedure", "function", "schedule", "autoDrop", "source", "kind", "description", "enabled", "status",
    "comment"]

def eventWords : List String := ["INSERT", "UPDATE", "DELETE", "TRUNCATE"]

/-- `/^(BEFORE|AFTER|INSTEAD_OF)_(INSERT|UPDATE|DELETE|TRUNCATE)$/` -/
def eventRe (s : String) : Bool :=
  ["BEFORE_", "AFTER_", "INSTEAD_OF_"].any fun timing => eventWords.any fun op => s = timing ++ op

def validateEvent (v : JsValue) : Except FabricError Unit :=
  let ev := upperCase v.text
  require (eventRe ev || ev ∈ eventWords || ev = "SCHEDULED") "INVALID_EVENT"
    "definition.event must look like AFTER_INSERT"

def validateEvents (v : JsValue) : Except FabricError Unit := do
  let list := if v.isArray then v.elements else [v]
  require (list.length ≠ 0 && list.length ≤ 4) "INVALID_EVENT"
    "definition.events must list 1-4 of INSERT, UPDATE, DELETE, TRUNCATE"
  list.forM fun e => require (upperCase e.text ∈ eventWords) "INVALID_EVENT"
    ("unsupported event \"" ++ slice 20 e.text ++ "\"")

def validateAutoDrop (v : JsValue) : Except FabricError Unit := do
  require v.isObj "INVALID_DEFINITION" "autoDrop must be an object"
  checkCondition (v.get "when") "autoDrop.when"
  unlessNullish (v.get "message") (str (v.get "message") "autoDrop.message" 500)

def validateTriggerDefinition (d : JsValue) (opts : TriggerValidationOptions) : Except FabricError Unit := do
  require d.isObj "INVALID_DEFINITION" "definition must be an object"
  scan d 0
  require (utf16Length (stringify d) ≤ maxDefinitionBytes) "TOO_LARGE"
    s!"definition is larger than {maxDefinitionBytes / 1024} KB"
  onlyKeys d definitionKeys "definition"
  unlessNullish (d.get "name") (ident (d.get "name") "trigger name")
  unlessNullish (d.get "event") (validateEvent (d.get "event"))
  unlessNullish (d.get "events") (validateEvents (d.get "events"))
  oneOf (d.get "timing") ["BEFORE", "AFTER", "INSTEAD OF", "INSTEAD_OF"] "INVALID_EVENT"
    "definition.timing must be BEFORE, AFTER or INSTEAD OF"
  ["execution", "forEach", "scope"].forM fun k =>
    unlessNullish (d.get k) (require (asciiLower (d.get k).text ∈ ["row", "statement"]) "INVALID_EVENT"
      s!"definition.{k} must be row or statement")
  unlessNullish (d.get "condition") (checkCondition (d.get "condition") "condition")
  unlessNullish (d.get "execute") (validateExecute (d.get "execute") opts)
  unlessNullish (d.get "action") (validateAction (d.get "action") opts)
  ["procedure", "function"].forM fun k =>
    unlessNullish (d.get k) (qualified (d.get k) s!"definition.{k}" opts)
  unlessNullish (d.get "schedule") (validateSchedule (d.get "schedule"))
  unlessNullish (d.get "autoDrop") (validateAutoDrop (d.get "autoDrop"))

def validateManifestTrigger (t : JsValue) (opts : TriggerValidationOptions) : Except FabricError Unit := do
  require t.isObj "INVALID_TRIGGER" "trigger must be an object"
  ident (t.get "name") "trigger name"
  require (["action", "execute", "procedure", "function"].any fun k => (t.get k).truthy) "INVALID_TRIGGER"
    ("trigger " ++ slice 40 (t.get "name").text ++ ": needs one of action, execute, procedure, or function")
  validateTriggerDefinition t opts

end DataFabric.TriggerDefinitions
