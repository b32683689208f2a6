import DataFabric.HubStatements
import Mathlib.Data.List.Nodup

set_option autoImplicit false

/-!
# What an API token's scopes let a request do

The scope check reads a request's path and a few fields of its body; the
router and the handlers read it again on their own.
-/
namespace DataFabric.ApiTokenScopes
open CharText JsValues HubStatements

inductive TokenScope
  | queryRead | dataRead | dataWrite | metadataRead | metadataWrite | triggersRead | triggersWrite
  deriving DecidableEq

def TokenScope.reads : TokenScope → Bool
  | queryRead | dataRead | metadataRead | triggersRead => true
  | dataWrite | metadataWrite | triggersWrite => false

def underPath (area path : String) : Bool :=
  path = "/api/" ++ area || startsWith path ("/api/" ++ area ++ "/")

def underArea (areas : List String) (path : String) : Bool := areas.any fun a => underPath a path

def queryAreas : List String := ["queries", "analytics", "saved-analytics", "query-logs"]

def isObjectLike (v : JsValue) : Bool := v.isObj || v.isArray

def firstPresent : List JsValue → JsValue
  | [] => .undefined
  | v :: vs => if v.isNullish then firstPresent vs else v

def declaredType (body : JsValue) : String :=
  if isObjectLike body then
    upperCase (firstPresent [(body.get "queryConfig").get "type", (body.get "config").get "type",
      body.get "type", .str "SELECT"]).text
  else "SELECT"

def isRead (method : String) : Bool := method = "GET" || method = "HEAD"

def requiredScope (method path : String) (body : JsValue) : Option TokenScope :=
  if underArea queryAreas path then
    if endsWith path "/refresh-view" then some .dataWrite
    else if declaredType body = "SELECT" || endsWith path "/transpile" then some .queryRead
    else some .dataWrite
  else if underPath "data" path then
    if isRead method || path = "/api/data/fetch" then some .dataRead else some .dataWrite
  else if underPath "metadata" path then
    if isRead method || path = "/api/metadata/diff" then some .metadataRead else some .metadataWrite
  else if underPath "triggers" path then
    if isRead method then some .triggersRead else some .triggersWrite
  else none

inductive Handler
  | executeEngineQuery | transpileQuery | getJobStatus
  | executeQuery | executeAsyncQuery | getEngineJobStatus | refreshView
  | listAnalytics | topAnalytics | getAnalytic | createAnalytic | deleteAnalytic | runAnalytic
  | listQueryLogs | getQueryLog
  | nextSequence | fetchData | callFunction | createData | updateData | deleteData
  | getSources | getSchemas | getTables | getResourceDetails | getColumns | getRelationships
  | getPreviewData | getTableDetails | getTemplate | exportMetadata | crawlTenant | syncSource
  | diffMetadata | applyMetadata | migrateMetadata | getMetadataHistory | rollbackMetadata
  | getDownstreamStatus | toggleDownstream
  | listTriggers | createTrigger | updateTrigger | deleteTrigger | deployTrigger | listTriggerLogs
  | listTriggerJobs | retryTriggerJob
  /-- Any handler of the routers that API tokens have no scope for. -/
  | sessionOnly
  deriving DecidableEq

/-- A registered route; a part is a word or, as `none`, a parameter. -/
structure Route where
  method : String
  parts : List (Option String)
  handler : Handler

def Route.serves (r : Route) (method : String) : Bool :=
  r.method = method || (r.method = "GET" && method = "HEAD")

def queryRoutes : List Route :=
  [⟨"POST", [some "engine"], .executeEngineQuery⟩, ⟨"POST", [some "transpile"], .transpileQuery⟩,
    ⟨"GET", [some "jobs", none], .getJobStatus⟩, ⟨"GET", [some "status", none], .getJobStatus⟩]

def analyticsRoutes : List Route :=
  [⟨"POST", [some "query"], .executeQuery⟩, ⟨"POST", [some "query-async"], .executeAsyncQuery⟩,
    ⟨"GET", [some "jobs", none], .getEngineJobStatus⟩,
    ⟨"GET", [some "query", some "status", none], .getEngineJobStatus⟩,
    ⟨"POST", [some "refresh-view"], .refreshView⟩]

def savedAnalyticsRoutes : List Route :=
  [⟨"GET", [], .listAnalytics⟩, ⟨"GET", [some "top"], .topAnalytics⟩, ⟨"POST", [], .createAnalytic⟩,
    ⟨"GET", [none], .getAnalytic⟩, ⟨"DELETE", [none], .deleteAnalytic⟩,
    ⟨"POST", [none, some "run"], .runAnalytic⟩]

def queryLogRoutes : List Route := [⟨"GET", [], .listQueryLogs⟩, ⟨"GET", [none], .getQueryLog⟩]

def dataRoutes : List Route :=
  [⟨"POST", [some "sequence"], .nextSequence⟩, ⟨"POST", [some "fetch"], .fetchData⟩,
    ⟨"POST", [some "call"], .callFunction⟩, ⟨"POST", [some "create"], .createData⟩,
    ⟨"POST", [some "update"], .updateData⟩, ⟨"POST", [some "delete"], .deleteData⟩]

def metadataRoutes : List Route :=
  [⟨"GET", [some "sources"], .getSources⟩, ⟨"GET", [some "schemas"], .getSchemas⟩,
    ⟨"GET", [some "tables"], .getTables⟩, ⟨"GET", [some "resource", none], .getResourceDetails⟩,
    ⟨"GET", [some "columns"], .getColumns⟩, ⟨"GET", [some "relationships"], .getRelationships⟩,
    ⟨"GET", [some "preview"], .getPreviewData⟩, ⟨"GET", [some "tables", none], .getTableDetails⟩,
    ⟨"GET", [some "template"], .getTemplate⟩, ⟨"GET", [some "export"], .exportMetadata⟩,
    ⟨"POST", [some "crawl"], .crawlTenant⟩, ⟨"POST", [some "sync"], .syncSource⟩,
    ⟨"POST", [some "diff"], .diffMetadata⟩, ⟨"POST", [some "apply"], .applyMetadata⟩,
    ⟨"POST", [some "migrate"], .migrateMetadata⟩, ⟨"GET", [some "history"], .getMetadataHistory⟩,
    ⟨"POST", [some "rollback", none], .rollbackMetadata⟩,
    ⟨"GET", [some "downstream"], .getDownstreamStatus⟩,
    ⟨"POST", [some "downstream", some "toggle"], .toggleDownstream⟩]

def triggerRoutes : List Route :=
  [⟨"GET", [], .listTriggers⟩, ⟨"POST", [], .createTrigger⟩, ⟨"PUT", [none], .updateTrigger⟩,
    ⟨"DELETE", [none], .deleteTrigger⟩, ⟨"POST", [none, some "deploy"], .deployTrigger⟩,
    ⟨"GET", [some "logs", some "list"], .listTriggerLogs⟩,
    ⟨"GET", [some "jobs", some "list"], .listTriggerJobs⟩,
    ⟨"POST", [some "jobs", none, some "retry"], .retryTriggerJob⟩]

structure Mount where
  area : String
  astOnly : Bool
  routes : List Route

def mounts : List Mount :=
  [⟨"queries", true, queryRoutes⟩, ⟨"metadata", false, metadataRoutes⟩,
    ⟨"analytics", true, analyticsRoutes⟩, ⟨"data", true, dataRoutes⟩,
    ⟨"triggers", false, triggerRoutes⟩, ⟨"saved-analytics", true, savedAnalyticsRoutes⟩,
    ⟨"query-logs", false, queryLogRoutes⟩]

/-- The parts of a path as loosely as a router may read them: escapes undone,
no letter case, no empty part. -/
def pathParts (path : String) : List String :=
  ((split '/' path).filter (· ≠ "")).map fun part =>
    asciiLower (String.ofList (percentDecode part.toList))

def matchesParts : List (Option String) → List String → Bool
  | [], [] => true
  | some w :: ps, s :: ss => s = w && matchesParts ps ss
  | none :: ps, _ :: ss => matchesParts ps ss
  | _, _ => false

/-- The handler and the `:id` parameter a method and a path are routed to. -/
abbrev Router := String → String → Option (Handler × String)

/-- What the code relies on the router for, in any spelling of a path it accepts. -/
structure Routes (route : Router) : Prop where
  mounted : ∀ {method path h id}, route method path = some (h, id) → h ≠ .sessionOnly →
    ∃ m ∈ mounts, ∃ r ∈ m.routes, r.handler = h ∧ r.serves method = true ∧
      matchesParts (some "api" :: some m.area :: r.parts) (pathParts path) = true
  elsewhere : ∀ {method path id}, route method path = some (.sessionOnly, id) →
    ∀ m ∈ mounts, ¬ ["api", m.area] <+: pathParts path

structure AnalyticVariable where
  name : String
  type : String
  required : Bool := false
  default : JsValue := .undefined

structure SavedAnalytic where
  mode : String := "AST"
  config : JsValue
  declared : List AnalyticVariable := []

/-- A value brought to the declared type; `number` is the language's `Number(v)`. -/
def coerce (number : JsValue → JsValue) (type : String) (v : JsValue) : JsValue :=
  if v.isNullish then v
  else if type = "number" then number v
  else if type = "boolean" then .bool (v ∈ [.bool true, .str "true", .num 1])
  else .str v.text

def resolveValue (number : JsValue → JsValue) (provided : JsValue) (v : AnalyticVariable) :
    Option JsValue :=
  let given := provided.get v.name
  let val := if given ∈ [.undefined, .str ""] then v.default else given
  if val.isNullish && v.required then none else some (coerce number v.type val)

def resolveValues (number : JsValue → JsValue) (provided : JsValue) :
    List AnalyticVariable → Option (List (String × JsValue))
  | [] => some []
  | v :: vs =>
    match resolveValue number provided v, resolveValues number provided vs with
    | some val, some rest => some (rest ++ [(v.name, val)])
    | _, _ => none

/-- Names that every object inherits, each bound to a function or an object. -/
def inheritedNames : List String :=
  ["constructor", "__defineGetter__", "__defineSetter__", "hasOwnProperty", "__lookupGetter__",
    "__lookupSetter__", "isPrototypeOf", "propertyIsEnumerable", "toString", "valueOf", "__proto__",
    "toLocaleString"]

/-- `name in values`, with the value; a later variable of one name wins. -/
def boundValue (values : List (String × JsValue)) (name : String) : Option JsValue :=
  match values.lookup name with
  | some v => some v
  | none => if name ∈ inheritedNames then some (.obj []) else none

/-- The token at the head of a text: two braces, a name, two braces. -/
def tokenAt (cs : List Char) : Option (String × List Char) :=
  match cs with
  | '{' :: '{' :: rest =>
    let rest := rest.dropWhile isSpace
    let name := rest.takeWhile isWord
    match name.head?, (rest.dropWhile isWord).dropWhile isSpace with
    | some c, '}' :: '}' :: after => if isWordStart c then some (String.ofList name, after) else none
    | _, _ => none
  | _ => none

/-- `replace(VAR_TOKEN, ..)`: a step consumes at least one character, so the length bounds them. -/
def bindTokens (values : List (String × JsValue)) : ℕ → List Char → List Char
  | 0, cs => cs
  | _, [] => []
  | n + 1, c :: cs =>
    match tokenAt (c :: cs) with
    | some (name, after) =>
      let replaced := match boundValue values name with
        | some v => v.text.toList
        | none => (c :: cs).take ((c :: cs).length - after.length)
      replaced ++ bindTokens values n after
    | none => c :: bindTokens values n cs

def bindText (values : List (String × JsValue)) (s : String) : JsValue :=
  match tokenAt s.toList with
  | some (name, []) =>
    (boundValue values name).getD (.str (String.ofList (bindTokens values s.toList.length s.toList)))
  | _ => .str (String.ofList (bindTokens values s.toList.length s.toList))

mutual

def bindAst (values : List (String × JsValue)) : JsValue → JsValue
  | .prim (.string s) => bindText values s
  | .prim p => .prim p
  | .arr vs => .arr (bindElements values vs)
  | .obj fields => .obj (bindFields values fields)

def bindElements (values : List (String × JsValue)) : List JsValue → List JsValue
  | [] => []
  | v :: vs => bindAst values v :: bindElements values vs

def bindFields (values : List (String × JsValue)) : List (String × JsValue) → List (String × JsValue)
  | [] => []
  | (k, v) :: fields => (k, bindAst values v) :: bindFields values fields

end

def mutatingTypes : List String :=
  ["INSERT", "UPDATE", "DELETE", "CALL", "CREATE_TABLE", "DROP_TABLE", "CREATE_INDEX", "CREATE_VIEW",
    "CREATE_SCHEMA", "CREATE_SEQUENCE", "ALTER_TABLE"]

def isMutating (config : JsValue) : Bool :=
  match config.get "type" with
  | .str t => t ∈ mutatingTypes
  | _ => false

def StatementBody.changes : StatementBody → Bool
  | .select _ _ _ | .selectCte _ _ _ | .empty => false
  | _ => true

/-- The fabric behind the routers, as far as a request's effect depends on it. -/
structure Deployment where
  route : Router
  /-- The tenant's saved analytics by id. -/
  analytics : String → Option SavedAnalytic
  number : JsValue → JsValue
  /-- Whether the engine goes through with a config: the catalog, the grants and the stores decide. -/
  executes : JsValue → Bool
  /-- Whether the query runs a function that writes: the call check passes over names behind a dot. -/
  calls : JsValue → Bool
  /-- Whether the service behind a writing handler goes through with a request. -/
  accepts : Handler → JsValue → Bool

structure Request where
  method : String
  path : String
  body : JsValue

def engineChanges (d : Deployment) (config : JsValue) : Bool :=
  (isMutating config || d.calls config) && d.executes config

def engineConfig (body : JsValue) : JsValue :=
  if (body.get "config").truthy then body.get "config" else body

def providedValues (body : JsValue) : JsValue :=
  if (body.get "variables").truthy then body.get "variables"
  else if body.truthy then body else .obj []

def runChanges (d : Deployment) (id : String) (body : JsValue) : Bool :=
  match d.analytics id with
  | none => false
  | some a =>
    match resolveValues d.number (providedValues body) a.declared with
    | none => false
    | some values =>
      a.mode ≠ "SQL" && engineChanges d (bindAst values (if a.config.truthy then a.config else .obj []))

def createAccepted (d : Deployment) (body : JsValue) : Bool :=
  (body.get "name").truthy && body.get "mode" ≠ .str "SQL" && body.get "sql" = .undefined &&
    (body.get "config").truthy && d.accepts .createAnalytic body

/-- Whether a handler changes data, schema, saved definitions or jobs. Usage
counters and log entries are not counted. -/
def handlerChanges (d : Deployment) (h : Handler) (id : String) (body : JsValue) : Bool :=
  match h with
  | .executeEngineQuery => engineChanges d (engineConfig body)
  | .executeQuery => (body.get "queryConfig").truthy && engineChanges d (body.get "queryConfig")
  -- the job is recorded before the engine sees the config
  | .executeAsyncQuery => (body.get "queryConfig").truthy
  | .refreshView => (body.get "viewName").truthy && d.accepts .refreshView body
  | .createAnalytic => createAccepted d body
  | .deleteAnalytic => (d.analytics id).isSome
  | .runAnalytic => runChanges d id body
  | .nextSequence => (body.get "name").truthy && d.accepts .nextSequence body
  | .callFunction | .createData | .updateData | .deleteData | .crawlTenant | .syncSource
  | .applyMetadata | .migrateMetadata | .rollbackMetadata | .toggleDownstream | .createTrigger
  | .updateTrigger | .deleteTrigger | .deployTrigger | .retryTriggerJob | .sessionOnly =>
    d.accepts h body
  | .transpileQuery | .getJobStatus | .getEngineJobStatus | .listAnalytics | .topAnalytics
  | .getAnalytic | .listQueryLogs | .getQueryLog | .fetchData | .getSources | .getSchemas | .getTables
  | .getResourceDetails | .getColumns | .getRelationships | .getPreviewData | .getTableDetails
  | .getTemplate | .exportMetadata | .diffMetadata | .getMetadataHistory | .getDownstreamStatus
  | .listTriggers | .listTriggerLogs | .listTriggerJobs => false

def forbiddenKeys : List String := ["sql", "rawsql", "nativesql", "rawquery", "native"]

def hasForbiddenKey : JsValue → Bool
  | .obj fields => fields.any fun f => asciiLower f.1 ∈ forbiddenKeys
  | _ => false

def isText : JsValue → Bool
  | .str _ => true
  | _ => false

def objectOrNone (v : JsValue) : JsValue := if isObjectLike v then v else .undefined

/-- The middleware lets a body pass that carries no SQL text. -/
def astOnly (body : JsValue) : Bool :=
  let cfg := objectOrNone (body.get "config")
  let qc := objectOrNone (body.get "queryConfig")
  !isObjectLike body ||
    !([body.get "query", cfg.get "query", qc.get "query"].any isText ||
      [body, cfg, body.get "query", cfg.get "query", qc, qc.get "query"].any hasForbiddenKey)

def behindAstOnly (h : Handler) : Bool :=
  mounts.any fun m => m.astOnly && m.routes.any fun r => r.handler = h

/-- What a request changes once the scope check has let it through. -/
def changes (d : Deployment) (req : Request) : Bool :=
  match d.route req.method req.path with
  | none => false
  | some (h, id) => (!behindAstOnly h || astOnly req.body) && handlerChanges d h id req.body

def admits (scopes : List TokenScope) (req : Request) : Bool :=
  match requiredScope req.method req.path req.body with
  | none => false
  | some scope => scope ∈ scopes

/-- A token that may only read gets no change out of the request. -/
def Bounded (d : Deployment) (req : Request) : Prop :=
  ∀ scopes : List TokenScope, (∀ s ∈ scopes, s.reads = true) → admits scopes req = true →
    changes d req = false

/-- The type of `queryConfig` is there and reads as a SELECT. -/
def namesSelect (body : JsValue) : Bool :=
  let type := (body.get "queryConfig").get "type"
  isObjectLike body && !type.isNullish && upperCase type.text = "SELECT"

/-- The writes of a handler of the query areas that the scope check takes for reads. -/
def unchecked (d : Deployment) (h : Handler) (id path : String) (body : JsValue) : Bool :=
  match h with
  | .executeEngineQuery =>
    (namesSelect body && isMutating (engineConfig body) ||
      declaredType body = "SELECT" && d.calls (engineConfig body)) && d.executes (engineConfig body)
  | .executeQuery =>
    declaredType body = "SELECT" && (body.get "queryConfig").truthy && d.calls (body.get "queryConfig") &&
      d.executes (body.get "queryConfig")
  | .executeAsyncQuery => declaredType body = "SELECT" && (body.get "queryConfig").truthy
  | .refreshView =>
    !endsWith path "/refresh-view" && declaredType body = "SELECT" && (body.get "viewName").truthy &&
      d.accepts .refreshView body
  | .createAnalytic => declaredType body = "SELECT" && createAccepted d body
  | .deleteAnalytic =>
    !endsWith path "/refresh-view" && (declaredType body = "SELECT" || endsWith path "/transpile") &&
      (d.analytics id).isSome
  | .runAnalytic => declaredType body = "SELECT" && runChanges d id body
  | _ => false

def Escalates (d : Deployment) (req : Request) : Prop :=
  underArea queryAreas req.path = true ∧ astOnly req.body = true ∧
    ∃ h id, d.route req.method req.path = some (h, id) ∧ unchecked d h id req.path req.body = true

theorem matchesParts_last {ps : List (Option String)} {ss : List String} {w : String}
    (h : matchesParts ps ss = true) (hlast : ps.getLast? = some (some w)) :
    ss.getLast? = some w := by
  induction ps generalizing ss with
  | nil => cases hlast
  | cons p ps ih =>
    cases ss with
    | nil => cases p <;> cases h
    | cons s ss =>
      have htail : matchesParts ps ss = true := by
        cases p with
        | none => exact h
        | some v => exact (Bool.and_eq_true_iff.mp h).2
      cases ps with
      | nil =>
        have hp : p = some w := Option.some.inj hlast
        subst hp
        cases ss with
        | nil =>
          have hs : s = w := of_decide_eq_true (Bool.and_eq_true_iff.mp h).1
          rw [hs]
          rfl
        | cons t ss => cases htail
      | cons q qs =>
        cases ss with
        | nil => cases q <;> cases htail
        | cons t ss =>
          have hrest : (t :: ss).getLast? = some w := ih htail hlast
          exact hrest

theorem pathParts_append (pre rest : List Char) :
    pathParts (String.ofList (pre ++ '/' :: rest)) =
      pathParts (String.ofList pre) ++ pathParts (String.ofList rest) := by
  simp only [pathParts, split, String.toList_ofList, splitChars_append_cons, List.map_append,
    List.filter_append]

theorem pathParts_last {path w : String} (h : endsWith path ("/" ++ w) = true)
    (hw : pathParts w = [w]) : (pathParts path).getLast? = some w := by
  obtain ⟨pre, hpre⟩ := (endsWith_iff _ _).mp h
  have hpath : path = String.ofList (pre ++ '/' :: w.toList) := by
    rw [← String.toList_inj, String.toList_ofList, ← hpre, String.toList_append]
    rfl
  rw [hpath, pathParts_append, String.ofList_toList, hw]
  simp

theorem pathParts_under {area path : String} (h : underPath area path = true)
    (harea : pathParts ("/api/" ++ area) = ["api", area]) :
    ["api", area] <+: pathParts path := by
  rcases Bool.or_eq_true_iff.mp h with hpath | hpath
  · rw [of_decide_eq_true hpath, harea]
  · obtain ⟨rest, hrest⟩ := (startsWith_iff _ _).mp hpath
    have hsplit : path = String.ofList (("/api/" ++ area).toList ++ '/' :: rest) := by
      rw [← String.toList_inj, String.toList_ofList, ← hrest]
      simp [String.toList_append]
    rw [hsplit, pathParts_append, String.ofList_toList, harea]
    exact List.prefix_append _ _

theorem mount_parts {m : Mount} (hm : m ∈ mounts) :
    pathParts ("/api/" ++ m.area) = ["api", m.area] := by
  revert m
  decide

theorem mount_area_inj {m n : Mount} (hm : m ∈ mounts) (hn : n ∈ mounts) (h : m.area = n.area) :
    m = n := by
  have hnodup : (mounts.map Mount.area).Nodup := by decide
  exact List.inj_on_of_nodup_map hnodup hm hn h

theorem matchesParts_head {a b : String} {ps : List (Option String)} {ss : List String}
    (h : matchesParts (some a :: some b :: ps) ss = true) : ∃ rest, ss = a :: b :: rest := by
  match ss with
  | [] => cases h
  | [s] => simp [matchesParts] at h
  | s :: t :: rest =>
    simp only [matchesParts, Bool.and_eq_true, decide_eq_true_eq] at h
    obtain ⟨rfl, rfl, _⟩ := h
    exact ⟨rest, rfl⟩

theorem routed_under {route : Router} (hroutes : Routes route) {m : Mount} (hm : m ∈ mounts)
    {method path id : String} {h : Handler} (hpath : underPath m.area path = true)
    (hroute : route method path = some (h, id)) :
    ∃ r ∈ m.routes, r.handler = h ∧ r.serves method = true ∧
      matchesParts (some "api" :: some m.area :: r.parts) (pathParts path) = true := by
  have hprefix := pathParts_under hpath (mount_parts hm)
  by_cases hs : h = .sessionOnly
  · subst hs
    exact absurd hprefix (hroutes.elsewhere hroute m hm)
  · obtain ⟨n, hn, r, hr, hhandler, hserves, hmatch⟩ := hroutes.mounted hroute hs
    have harea : m.area = n.area := by
      obtain ⟨rest, hrest⟩ := matchesParts_head hmatch
      rw [hrest, List.cons_prefix_cons, List.cons_prefix_cons] at hprefix
      exact hprefix.2.1
    obtain rfl := mount_area_inj hm hn harea
    exact ⟨r, hr, hhandler, hserves, hmatch⟩

def Handler.writes : Handler → Bool
  | .executeEngineQuery | .executeQuery | .executeAsyncQuery | .refreshView | .createAnalytic
  | .deleteAnalytic | .runAnalytic | .nextSequence | .callFunction | .createData | .updateData
  | .deleteData | .crawlTenant | .syncSource | .applyMetadata | .migrateMetadata | .rollbackMetadata
  | .toggleDownstream | .createTrigger | .updateTrigger | .deleteTrigger | .deployTrigger
  | .retryTriggerJob | .sessionOnly => true
  | _ => false

theorem handlerChanges_writes {d : Deployment} {h : Handler} {id : String} {body : JsValue}
    (hchanges : handlerChanges d h id body = true) : h.writes = true := by
  cases h <;> first | rfl | cases hchanges

theorem get_reads {r : Route} (hr : r ∈ dataRoutes ++ metadataRoutes ++ triggerRoutes)
    (hread : isRead r.method = true) : r.handler.writes = false := by
  revert r
  decide

theorem serves_read {r : Route} {method : String} (hserves : r.serves method = true)
    (hread : isRead method = true) : isRead r.method = true := by
  rcases Bool.or_eq_true_iff.mp hserves with hm | hm
  · rw [of_decide_eq_true hm]
    exact hread
  · have hget : r.method = "GET" := of_decide_eq_true (Bool.and_eq_true_iff.mp hm).1
    rw [hget]
    rfl

theorem fetch_reads {r : Route} (hr : r ∈ dataRoutes)
    (hmatch : matchesParts (some "api" :: some "data" :: r.parts) (pathParts "/api/data/fetch") = true) :
    r.handler.writes = false := by
  revert r
  decide

theorem diff_reads {r : Route} (hr : r ∈ metadataRoutes)
    (hmatch : matchesParts (some "api" :: some "metadata" :: r.parts)
      (pathParts "/api/metadata/diff") = true) : r.handler.writes = false := by
  revert r
  decide

theorem changes_outside {d : Deployment} (hroutes : Routes d.route) {req : Request} {s : TokenScope}
    (harea : underArea queryAreas req.path = false)
    (hscope : requiredScope req.method req.path req.body = some s) (hs : s.reads = true) :
    changes d req = false := by
  have key : ∀ h id, d.route req.method req.path = some (h, id) → h.writes = false := by
    intro h id hroute
    unfold requiredScope at hscope
    rw [harea] at hscope
    simp only [Bool.false_eq_true, if_false] at hscope
    split_ifs at hscope with hdata hread hmeta hread htrig hread
    · obtain ⟨r, hr, rfl, hserves, hmatch⟩ :=
        routed_under hroutes (m := ⟨"data", true, dataRoutes⟩) (by simp [mounts]) hdata hroute
      rcases Bool.or_eq_true_iff.mp hread with hread | hpath
      · exact get_reads (by simp [hr]) (serves_read hserves hread)
      · rw [of_decide_eq_true hpath] at hmatch
        exact fetch_reads hr hmatch
    · cases hscope
      cases hs
    · obtain ⟨r, hr, rfl, hserves, hmatch⟩ :=
        routed_under hroutes (m := ⟨"metadata", false, metadataRoutes⟩) (by simp [mounts]) hmeta hroute
      rcases Bool.or_eq_true_iff.mp hread with hread | hpath
      · exact get_reads (by simp [hr]) (serves_read hserves hread)
      · rw [of_decide_eq_true hpath] at hmatch
        exact diff_reads hr hmatch
    · cases hscope
      cases hs
    · obtain ⟨r, hr, rfl, hserves, _⟩ :=
        routed_under hroutes (m := ⟨"triggers", false, triggerRoutes⟩) (by simp [mounts]) htrig hroute
      exact get_reads (by simp [hr]) (serves_read hserves hread)
    · cases hscope
      cases hs
  unfold changes
  split
  · rfl
  · rename_i h id hroute
    have hwrites := key h id hroute
    cases hc : handlerChanges d h id req.body with
    | false => exact Bool.and_false _
    | true => rw [handlerChanges_writes hc] at hwrites; cases hwrites

def lastWord (parts : List (Option String)) : Option String := parts.getLast?.join

theorem endsWith_of_lastWord {ps : List (Option String)} {path v w : String}
    (hmatch : matchesParts ps (pathParts path) = true) (hv : lastWord ps = some v)
    (hw : pathParts w = [w]) (hne : v ≠ w) : endsWith path ("/" ++ w) = false := by
  have hlast : ps.getLast? = some (some v) := Option.join_eq_some_iff.mp hv
  have hpath := matchesParts_last hmatch hlast
  by_contra h
  rw [Bool.not_eq_false] at h
  rw [pathParts_last h hw] at hpath
  exact hne (Option.some.inj hpath).symm

theorem lastWord_query : ∀ m ∈ mounts, m.area ∈ queryAreas → ∀ r ∈ m.routes,
    r.handler.writes = true → r.handler ≠ .deleteAnalytic →
    lastWord (some "api" :: some m.area :: r.parts) ∈
      ["engine", "query", "query-async", "refresh-view", "saved-analytics", "run"].map some ∧
    (lastWord (some "api" :: some m.area :: r.parts) = some "refresh-view" →
      r.handler = .refreshView) := by
  decide

theorem behindAstOnly_query : ∀ m ∈ mounts, m.area ∈ queryAreas → ∀ r ∈ m.routes,
    r.handler.writes = true → behindAstOnly r.handler = true := by
  decide

theorem routed_query {route : Router} (hroutes : Routes route) {method path id : String}
    {h : Handler} (harea : underArea queryAreas path = true)
    (hroute : route method path = some (h, id)) :
    ∃ m ∈ mounts, m.area ∈ queryAreas ∧ ∃ r ∈ m.routes, r.handler = h ∧
      matchesParts (some "api" :: some m.area :: r.parts) (pathParts path) = true := by
  obtain ⟨a, ha, hpath⟩ := List.any_eq_true.mp harea
  have hmounts : ∀ a ∈ queryAreas, a ∈ mounts.map Mount.area := by decide
  obtain ⟨m, hm, rfl⟩ := List.mem_map.mp (hmounts a ha)
  obtain ⟨r, hr, hhandler, _, hmatch⟩ := routed_under hroutes hm hpath hroute
  exact ⟨m, hm, ha, r, hr, hhandler, hmatch⟩

theorem endsWith_query {route : Router} (hroutes : Routes route) {method path id : String}
    {h : Handler} (harea : underArea queryAreas path = true)
    (hroute : route method path = some (h, id)) (hwrites : h.writes = true)
    (hdelete : h ≠ .deleteAnalytic) :
    endsWith path "/transpile" = false ∧
      (h ≠ .refreshView → endsWith path "/refresh-view" = false) := by
  obtain ⟨m, hm, hq, r, hr, rfl, hmatch⟩ := routed_query hroutes harea hroute
  obtain ⟨hlast, hrefresh⟩ := lastWord_query m hm hq r hr hwrites hdelete
  obtain ⟨v, hv, hvlast⟩ := List.mem_map.mp hlast
  constructor
  · refine endsWith_of_lastWord (w := "transpile") hmatch hvlast.symm (by decide) ?_
    rintro rfl
    exact absurd hv (by decide)
  · intro hne
    refine endsWith_of_lastWord (w := "refresh-view") hmatch hvlast.symm (by decide) ?_
    rintro rfl
    exact hne (hrefresh hvlast.symm)

theorem isMutating_iff {config : JsValue} :
    isMutating config = true ↔ ∃ t ∈ mutatingTypes, config.get "type" = .str t := by
  unfold isMutating
  split
  case h_1 t ht => simp [ht]
  case h_2 hne =>
    constructor
    · intro h
      cases h
    · rintro ⟨t, _, ht⟩
      exact absurd ht (hne t)

theorem mutating_upperCase : ∀ t ∈ mutatingTypes, upperCase t ≠ "SELECT" := by decide

theorem get_of_falsy {v : JsValue} (h : v.truthy = false) (key : String) :
    v.get key = .undefined := by
  cases v with
  | prim p => rfl
  | arr vs => cases h
  | obj fields => cases h

theorem get_of_not_objectLike {v : JsValue} (h : isObjectLike v = false) (key : String) :
    v.get key = .undefined := by
  cases v with
  | prim p => rfl
  | arr vs => cases h
  | obj fields => cases h

theorem declaredType_of_objectLike {body : JsValue} (h : isObjectLike body = true) :
    declaredType body = upperCase (firstPresent [(body.get "queryConfig").get "type",
      (body.get "config").get "type", body.get "type", .str "SELECT"]).text := by
  rw [declaredType, if_pos h]

theorem declaredType_queryConfig {body : JsValue} (h : isMutating (body.get "queryConfig") = true) :
    declaredType body ≠ "SELECT" := by
  obtain ⟨t, ht, htype⟩ := isMutating_iff.mp h
  have hobj : isObjectLike body = true := by
    by_contra hobj
    rw [Bool.not_eq_true] at hobj
    rw [get_of_not_objectLike hobj] at htype
    cases htype
  rw [declaredType_of_objectLike hobj, htype]
  exact mutating_upperCase t ht

theorem declaredType_engine {body : JsValue} (h : isMutating (engineConfig body) = true) :
    declaredType body = "SELECT" ↔ namesSelect body = true := by
  obtain ⟨t, ht, htype⟩ := isMutating_iff.mp h
  have hobj : isObjectLike body = true := by
    by_contra hobj
    rw [Bool.not_eq_true] at hobj
    have hget := get_of_not_objectLike hobj
    rw [engineConfig, hget] at htype
    rw [if_neg (by decide), hget] at htype
    cases htype
  rw [declaredType_of_objectLike hobj]
  cases hnull : ((body.get "queryConfig").get "type").isNullish with
  | false => simp [firstPresent, namesSelect, hnull, hobj]
  | true =>
    -- what is left are the two places the engine reads its type from, in its order
    have hrest : firstPresent [(body.get "config").get "type", body.get "type", .str "SELECT"] =
        .str t := by
      unfold engineConfig at htype
      split_ifs at htype with hconfig
      · rw [htype]
        rfl
      · rw [get_of_falsy (Bool.not_eq_true _ ▸ hconfig), htype]
        rfl
    have hnot : upperCase t ≠ "SELECT" := mutating_upperCase t ht
    rw [firstPresent, if_pos hnull, hrest]
    simp [namesSelect, hnull, JsValue.text, JsValue.primText, hnot]

theorem unchecked_writes {d : Deployment} {h : Handler} {id path : String} {body : JsValue}
    (hu : unchecked d h id path body = true) : h.writes = true := by
  cases h <;> first | rfl | cases hu

theorem query_writers : ∀ m ∈ mounts, m.area ∈ queryAreas → ∀ r ∈ m.routes,
    r.handler.writes = true → r.handler ≠ .deleteAnalytic →
    r.handler ∈ [Handler.executeEngineQuery, .executeQuery, .executeAsyncQuery, .refreshView,
      .createAnalytic, .runAnalytic] := by
  decide

theorem unchecked_of_writer {d : Deployment} {h : Handler} {id path : String} {body : JsValue}
    (hh : h ∈ [Handler.executeEngineQuery, .executeQuery, .executeAsyncQuery, .refreshView,
      .createAnalytic, .runAnalytic])
    (hrefresh : h ≠ .refreshView → endsWith path "/refresh-view" = false) :
    (endsWith path "/refresh-view" = false ∧ declaredType body = "SELECT" ∧
      handlerChanges d h id body = true) ↔ unchecked d h id path body = true := by
  simp only [List.mem_cons, List.not_mem_nil, or_false] at hh
  rcases hh with rfl | rfl | rfl | rfl | rfl | rfl
  case inr.inr.inr.inl =>
    simp only [unchecked, handlerChanges, Bool.and_eq_true, Bool.not_eq_true', decide_eq_true_eq,
      and_assoc]
  all_goals
    rw [hrefresh (by decide)]
    simp only [unchecked, handlerChanges, Bool.and_eq_true, decide_eq_true_eq, true_and]
  case inl =>
    simp only [engineChanges, Bool.and_eq_true, Bool.or_eq_true, decide_eq_true_eq]
    constructor
    · rintro ⟨htype, hmut | hcalls, hexecutes⟩
      · exact ⟨.inl ⟨(declaredType_engine hmut).mp htype, hmut⟩, hexecutes⟩
      · exact ⟨.inr ⟨htype, hcalls⟩, hexecutes⟩
    · rintro ⟨⟨hselect, hmut⟩ | ⟨htype, hcalls⟩, hexecutes⟩
      · exact ⟨(declaredType_engine hmut).mpr hselect, .inl hmut, hexecutes⟩
      · exact ⟨htype, .inr hcalls, hexecutes⟩
  case inr.inl =>
    simp only [engineChanges, Bool.and_eq_true, Bool.or_eq_true]
    constructor
    · rintro ⟨htype, htruthy, hmut | hcalls, hexecutes⟩
      · exact absurd htype (declaredType_queryConfig hmut)
      · exact ⟨⟨⟨htype, htruthy⟩, hcalls⟩, hexecutes⟩
    · rintro ⟨⟨⟨htype, htruthy⟩, hcalls⟩, hexecutes⟩
      exact ⟨htype, htruthy, .inr hcalls, hexecutes⟩

theorem unchecked_iff {d : Deployment} (hroutes : Routes d.route) {req : Request} {h : Handler}
    {id : String} (harea : underArea queryAreas req.path = true)
    (hroute : d.route req.method req.path = some (h, id)) :
    (endsWith req.path "/refresh-view" = false ∧
      (declaredType req.body = "SELECT" ∨ endsWith req.path "/transpile" = true) ∧
      handlerChanges d h id req.body = true) ↔
    unchecked d h id req.path req.body = true := by
  by_cases hdelete : h = .deleteAnalytic
  · subst hdelete
    simp only [unchecked, handlerChanges, Bool.and_eq_true, Bool.not_eq_true', Bool.or_eq_true,
      decide_eq_true_eq, and_assoc]
  by_cases hwrites : h.writes = true
  · obtain ⟨htranspile, hrefresh⟩ := endsWith_query hroutes harea hroute hwrites hdelete
    obtain ⟨m, hm, hq, r, hr, rfl, _⟩ := routed_query hroutes harea hroute
    rw [htranspile]
    simp only [Bool.false_eq_true, or_false]
    exact unchecked_of_writer (query_writers m hm hq r hr hwrites hdelete) hrefresh
  · constructor
    · rintro ⟨_, _, hchanges⟩
      exact absurd (handlerChanges_writes hchanges) hwrites
    · intro hu
      exact absurd (unchecked_writes hu) hwrites

theorem requiredScope_query {method path : String} {body : JsValue}
    (harea : underArea queryAreas path = true) :
    (∃ s, requiredScope method path body = some s ∧ s.reads = true) ↔
      endsWith path "/refresh-view" = false ∧
        (declaredType body = "SELECT" ∨ endsWith path "/transpile" = true) := by
  unfold requiredScope
  rw [if_pos harea]
  split_ifs with hrefresh hread
  · simp [hrefresh, TokenScope.reads]
  · have hcases : declaredType body = "SELECT" ∨ endsWith path "/transpile" = true := by
      simpa using hread
    exact ⟨fun _ => ⟨Bool.not_eq_true _ ▸ hrefresh, hcases⟩, fun _ => ⟨.queryRead, rfl, rfl⟩⟩
  · have hcases : ¬ (declaredType body = "SELECT" ∨ endsWith path "/transpile" = true) := by
      simpa using hread
    constructor
    · rintro ⟨s, hs, hreads⟩
      cases hs
      cases hreads
    · rintro ⟨_, h⟩
      exact absurd h hcases

theorem changes_query {d : Deployment} (hroutes : Routes d.route) {req : Request}
    (harea : underArea queryAreas req.path = true) :
    changes d req = true ↔ astOnly req.body = true ∧ ∃ h id,
      d.route req.method req.path = some (h, id) ∧ handlerChanges d h id req.body = true := by
  unfold changes
  cases hroute : d.route req.method req.path with
  | none => simp
  | some p =>
    obtain ⟨h, id⟩ := p
    by_cases hchanges : handlerChanges d h id req.body = true
    · obtain ⟨m, hm, hq, r, hr, rfl, _⟩ := routed_query hroutes harea hroute
      have hguard := behindAstOnly_query m hm hq r hr (handlerChanges_writes hchanges)
      simp [hguard, hchanges]
    · simp [hchanges]

theorem bounded_iff_read {d : Deployment} {req : Request} :
    Bounded d req ↔ ¬ ((∃ s, requiredScope req.method req.path req.body = some s ∧ s.reads = true) ∧
      changes d req = true) := by
  constructor
  · rintro hbounded ⟨⟨s, hs, hreads⟩, hchanges⟩
    have hnone := hbounded [s] (by simpa using hreads) (by simp [admits, hs])
    rw [hchanges] at hnone
    cases hnone
  · intro hnot scopes hscopes hadmits
    unfold admits at hadmits
    split at hadmits
    · cases hadmits
    case h_2 s hs =>
      by_contra hchanges
      rw [Bool.not_eq_false] at hchanges
      exact hnot ⟨⟨s, hs, hscopes s (of_decide_eq_true hadmits)⟩, hchanges⟩

/-- The part of a path that stands for the route's parameter. -/
def paramOf : List (Option String) → List String → String
  | none :: _, s :: _ => s
  | some _ :: ps, _ :: ss => paramOf ps ss
  | _, _ => ""

/-- The first registered route that serves the method and spells the path. -/
def tableRouter : Router := fun method path =>
  let parts := pathParts path
  let routes := mounts.flatMap fun m => m.routes.map fun r => (some "api" :: some m.area :: r.parts, r)
  (routes.find? fun e => e.2.serves method && matchesParts e.1 parts).map fun e =>
    (e.2.handler, paramOf e.1 parts)

theorem tableRouter_mounted {method path id : String} {h : Handler}
    (hroute : tableRouter method path = some (h, id)) :
    ∃ m ∈ mounts, ∃ r ∈ m.routes, r.handler = h ∧ r.serves method = true ∧
      matchesParts (some "api" :: some m.area :: r.parts) (pathParts path) = true := by
  obtain ⟨e, he, heq⟩ := Option.map_eq_some_iff.mp hroute
  have hserved := List.find?_some he
  obtain ⟨m, hm, hmem⟩ := List.mem_flatMap.mp (List.mem_of_find?_eq_some he)
  obtain ⟨r, hr, rfl⟩ := List.mem_map.mp hmem
  obtain ⟨hserves, hmatch⟩ := Bool.and_eq_true_iff.mp hserved
  exact ⟨m, hm, r, hr, (Prod.mk.inj heq).1, hserves, hmatch⟩

theorem tableRouter_routes : Routes tableRouter where
  mounted hroute _ := tableRouter_mounted hroute
  elsewhere hroute := by
    obtain ⟨m, hm, r, hr, hhandler, _⟩ := tableRouter_mounted hroute
    have hnone : ∀ m ∈ mounts, ∀ r ∈ m.routes, r.handler ≠ .sessionOnly := by decide
    exact absurd hhandler (hnone m hm r hr)

def openFabric : Deployment where
  route := tableRouter
  analytics _ := none
  number v := v
  executes _ := true
  calls _ := false
  accepts _ _ := true

def deleteOrder : JsValue :=
  .obj [("type", .str "DELETE"), ("table", .str "orders"), ("filter", .obj [("id", .num 1)])]

end DataFabric.ApiTokenScopes
