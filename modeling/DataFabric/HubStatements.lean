import DataFabric.CatalogResolution
import DataFabric.SqlFragments

set_option autoImplicit false

/-!
# Statements for the hub

`generateSql` as far as a statement is more than its text: the relation it
names, the guarded fragments, and every value in its place. Placeholders and
inlined literals are two spellings of the same statement.
-/
namespace DataFabric.HubStatements
open CharText JsValues TenantIdentifiers TenantNamespaces CatalogResolution SqlFragments ExceptRules

structure WithRecursive where
  name : JsValue
  baseQuery : JsValue
  recursiveQuery : JsValue
  deriving DecidableEq

structure JoinConfig where
  type : JsValue := .undefined
  target : TargetRef
  on : JsValue := .undefined
  deriving DecidableEq

/-- One entry of `orderBy`, in the shape `field`/`dir` or `column`/`direction`. -/
structure OrderEntry where
  field : JsValue
  dir : JsValue := .undefined
  deriving DecidableEq

structure ColumnDef where
  name : JsValue
  type : JsValue
  constraints : JsValue := .undefined
  deriving DecidableEq

structure IndexDef where
  name : JsValue
  columns : List JsValue
  unique : Bool := false
  deriving DecidableEq

structure AlterDef where
  action : String
  columnName : JsValue
  columnType : JsValue := .undefined
  deriving DecidableEq

structure ViewDef where
  name : JsValue
  query : JsValue
  materialized : Bool := false
  deriving DecidableEq

structure SequenceDef where
  name : JsValue
  start : JsValue := .undefined
  increment : JsValue := .undefined
  deriving DecidableEq

/-- A flat request; an absent list is the empty one where the source treats both alike. -/
structure QueryConfig where
  type : String
  target : TargetRef
  withRecursive : Option WithRecursive := none
  select : List JsValue := []
  filter : List (String × JsValue) := []
  joins : List JoinConfig := []
  groupBy : Option (List JsValue) := none
  orderBy : List OrderEntry := []
  limit : JsValue := .undefined
  offset : JsValue := .undefined
  data : JsValue := .undefined
  columns : List ColumnDef := []
  indexDef : Option IndexDef := none
  alterDef : Option AlterDef := none
  viewDef : Option ViewDef := none
  sequenceDef : Option SequenceDef := none
  deriving DecidableEq

def objectEntries : JsValue → Option (List (String × JsValue))
  | .obj fields => some fields
  | .arr vs => some (vs.zipIdx.map fun (v, i) => (toString i, v))
  | .str s => some (s.toList.zipIdx.map fun (c, i) => (toString i, .str (String.ofList [c])))
  | .undefined | .null => none
  | .bool _ | .num _ => some []

inductive FilterTest
  | never
  | isNull
  | isNotNull
  | inList (vs : List JsValue)
  | compare (sqlOp : String) (value : JsValue)
  deriving DecidableEq

structure FilterClause where
  column : List String
  test : FilterTest
  deriving DecidableEq

/-- The operators of a filter map; `$like` has always matched without letter case. -/
def filterOps : List (String × String) :=
  [("$eq", "="), ("$gt", ">"), ("$gte", ">="), ("$lt", "<"), ("$lte", "<="), ("$ne", "!="),
    ("$like", "ILIKE"), ("$ilike", "ILIKE"), ("$in", "IN")]

/-- The first operator of a filter value, `$eq` on a plain value. -/
def filterOperator (valObj : JsValue) : String × JsValue :=
  match valObj with
  | .obj ((k, v) :: _) => if startsWith k "$" then (k, v) else ("$eq", valObj)
  | _ => ("$eq", valObj)

def filterTest (sqlOp : String) (op : String) (val : JsValue) : FilterTest :=
  match op, val with
  | "$in", .arr [] => .never
  | "$in", .arr vs => .inList vs
  | _, .null => if sqlOp = "=" then .isNull else if sqlOp = "!=" then .isNotNull else .compare sqlOp val
  | _, _ => .compare sqlOp val

def filterClause (entry : String × JsValue) : Except FabricError FilterClause :=
  let (key, valObj) := entry
  let column := (split '.' key).map (keepOnly isWord)
  let (op, val) := filterOperator valObj
  match filterOps.lookup op with
  | some sqlOp => .ok ⟨column, filterTest sqlOp op val⟩
  | none => .error (.invalidRequest "INVALID_OPERATOR"
      s!"Invalid filter operator \"{slice 20 op}\" on \"{slice 40 key}\"")

/-- A relation as a statement names it, each part before quoting. -/
structure RelationName where
  schema : String
  table : String
  deriving DecidableEq

structure JoinClause where
  joinType : String
  relation : RelationName
  on : Option String
  deriving DecidableEq

/-- What an INSERT puts in one place: the column default, the value, or its JSON text. -/
inductive InsertCell
  | default
  | value (v : JsValue)
  | jsonText (v : JsValue)
  deriving DecidableEq

inductive StatementBody
  | select (fields : List String) (relation : RelationName) (joins : List JoinClause)
  | selectCte (fields : List String) (name : String) (joins : List JoinClause)
  | insert (target : RelationName) (columns : List String) (rows : List (List InsertCell))
  | update (target : RelationName) (sets : List (String × InsertCell))
  | delete (target : RelationName)
  | createTable (target : RelationName) (columns : List (String × String × Option String))
  | dropTable (target : RelationName)
  | createIndex (unique : Bool) (name : String) (target : RelationName) (columns : List String)
  | createView (materialized : Bool) (relation : RelationName) (query : String)
  | createSchema (schema : String)
  | createSequence (relation : RelationName) (start increment : ℤ)
  | addColumn (target : RelationName) (column type : String)
  | dropColumn (target : RelationName) (column : String)
  | empty
  deriving DecidableEq

/-- The schema qualifier of the relation a statement works on. -/
def StatementBody.targetSchema : StatementBody → Option String
  | select _ r _ | insert r _ _ | update r _ | delete r | createTable r _ | dropTable r
  | createIndex _ _ r _ | createView _ r _ | createSequence r _ _ | addColumn r _ _
  | dropColumn r _ => some r.schema
  | createSchema s => some s
  | selectCte _ _ _ | empty => none

/-- A name the statement quotes; the text itself, when `quoteAnyIdent` takes it. -/
def quotedName (v : JsValue) : Except FabricError String :=
  match v with
  | .str s => (quoteAnyIdent s).map fun _ => s
  | _ => .error (.identifier "Invalid identifier")

/-- `tableRequired()`: the target, which these statements cannot do without. -/
def tableRequired (type schema table : String) : Except FabricError RelationName :=
  if table = "" then
    .error (.invalidRequest "INVALID_QUERY" s!"Invalid request: \"table\" is required for {type}")
  else (quoteAnyIdent table).map fun _ => ⟨schema, table⟩

def joinTypes : List String := ["INNER", "LEFT", "RIGHT", "FULL", "CROSS"]

def joinTypeOf (v : JsValue) : String := upperCase (if v.truthy then v.text else "INNER")

def joinClause (cat : Catalog) (override : Option String) (tenantId : String) (join : JoinConfig) :
    Except FabricError JoinClause := do
  let r ← resolveTarget cat override tenantId { join.target with schemaId := none }
  let named := (((present (some r.tableName)).or (present join.target.table)).or
    join.target.resource).getD "undefined"
  let joinType := joinTypeOf join.type
  if joinType ∉ joinTypes then .error (.sqlGuard "Invalid join.type")
  else
    let schema ← quotedName (.str r.schemaName)
    let table ← quotedName (.str (keepOnly isWord named))
    if joinType ≠ "CROSS" || join.on.truthy then
      let on ← assertSafeExpression join.on "join.on" { tenantId := some tenantId }
      .ok ⟨joinType, ⟨schema, table⟩, some on⟩
    else .ok ⟨joinType, ⟨schema, table⟩, none⟩

/-- The value of a column in a row: its JSON text where an array goes to a JSON column. -/
def cellOf (isJson : Bool) (v : JsValue) : InsertCell :=
  match v with
  | .arr _ => if isJson then .jsonText v else .value v
  | _ => .value v

/-- Which columns of a table are `json` or `jsonb` on the hub. -/
abbrev JsonColumns := String → String → String → Bool

def rowFields : JsValue → Option (List (String × JsValue))
  | .obj fields => some fields
  | _ => none

def insertRows (data : JsValue) : List (List (String × JsValue)) :=
  (match data with
    | .arr vs => vs
    | v => [v]).filterMap rowFields

def insertBody (json : JsonColumns) (schema table : String) (data : JsValue) :
    Except FabricError StatementBody := do
  let rows := insertRows data
  if rows = [] then
    .error (.invalidRequest "INVALID_DATA"
      "Invalid request: \"data\" must be an object or a non-empty array of objects")
  else
    let columns := (rows.flatMap fun r => r.map Prod.fst).eraseDups
    if columns = [] then
      .error (.invalidRequest "INVALID_DATA" "Invalid request: \"data\" has no columns")
    else
      let target ← tableRequired "INSERT" schema table
      let names ← columns.mapM fun c => quotedName (.str c)
      .ok (.insert target names (rows.map fun r => columns.map fun c =>
        match r.lookup c with
        | none => .default
        | some v => cellOf (json schema table c) v))

def updateBody (json : JsonColumns) (schema table : String) (data : JsValue) :
    Except FabricError StatementBody := do
  match objectEntries data with
  | none => .error (.unexpected "Cannot convert undefined or null to object")
  | some entries =>
    let sets ← entries.mapM fun (c, v) => do
      let name ← quotedName (.str c)
      .ok (name, cellOf (json schema table c) v)
    let target ← tableRequired "UPDATE" schema table
    .ok (.update target sets)

def columnConstraints (c : ColumnDef) (guard : GuardOptions) : Except FabricError (Option String) :=
  if c.constraints.truthy then
    (assertSafeExpression c.constraints "column constraints" guard).map some
  else .ok none

def columnClause (tenantId : String) (c : ColumnDef) :
    Except FabricError (String × String × Option String) := do
  let guard : GuardOptions := { tenantId := some tenantId }
  let type ← assertSafeExpression c.type "column type" guard
  let constraints ← columnConstraints c guard
  let name ← quotedName c.name
  .ok (name, type, constraints)

/-- The error of reading a property of an absent definition. -/
def missingDefinition : FabricError := .unexpected "Cannot read properties of undefined"

def sequenceInt (v : JsValue) (what : String) : Except FabricError ℤ :=
  if v = .undefined then .ok 1 else safeInt v what (-1000000000) 1000000000

def selectFields (tenantId : String) (select : List JsValue) : Except FabricError (List String) :=
  if select = [] then .ok ["*"] else select.mapM fun f => fieldToSql f "select" (some tenantId)

def selectsCte (config : QueryConfig) : Bool :=
  match config.withRecursive, config.target.table with
  | some w, some t => w.name = .str t
  | _, _ => false

def selectBody (cat : Catalog) (override : Option String) (tenantId schema table : String)
    (config : QueryConfig) : Except FabricError StatementBody := do
  let fields ← selectFields tenantId config.select
  let name ← quotedName (.str table)
  let joins ← config.joins.mapM (joinClause cat override tenantId)
  .ok (if selectsCte config then .selectCte fields name joins else .select fields ⟨schema, name⟩ joins)

def statementBody (json : JsonColumns) (cat : Catalog) (override : Option String)
    (tenantId schema table : String) (config : QueryConfig) : Except FabricError StatementBody :=
  match config.type with
  | "SELECT" => selectBody cat override tenantId schema table config
  | "INSERT" => insertBody json schema table config.data
  | "UPDATE" => updateBody json schema table config.data
  | "DELETE" => do
    let target ← tableRequired "DELETE" schema table
    .ok (.delete target)
  | "CREATE_TABLE" => do
    let columns ← config.columns.mapM (columnClause tenantId)
    let target ← tableRequired "CREATE_TABLE" schema table
    .ok (.createTable target columns)
  | "DROP_TABLE" => do
    let target ← tableRequired "DROP_TABLE" schema table
    .ok (.dropTable target)
  | "CREATE_INDEX" =>
    match config.indexDef with
    | none => .error missingDefinition
    | some idx => do
      let name ← quotedName idx.name
      let target ← tableRequired "CREATE_INDEX" schema table
      let columns ← idx.columns.mapM fun c => fieldToSql c "index column" (some tenantId)
      .ok (.createIndex idx.unique name target columns)
  | "CREATE_VIEW" =>
    match config.viewDef with
    | none => .error missingDefinition
    | some view => do
      let name ← quotedName view.name
      let query ← assertSafeSelectQuery view.query tenantId "view.query"
      .ok (.createView view.materialized ⟨schema, name⟩ query)
  | "CREATE_SCHEMA" => .ok (.createSchema schema)
  | "CREATE_SEQUENCE" =>
    match config.sequenceDef with
    | none => .error missingDefinition
    | some seq => do
      let name ← quotedName seq.name
      let start ← sequenceInt seq.start "sequence start"
      let increment ← sequenceInt seq.increment "sequence increment"
      .ok (.createSequence ⟨schema, name⟩ start increment)
  | "ALTER_TABLE" =>
    match config.alterDef with
    | none => .error missingDefinition
    | some alter =>
      if alter.action = "ADD_COLUMN" then do
        let target ← tableRequired "ALTER_TABLE" schema table
        let column ← quotedName alter.columnName
        let type ← assertSafeExpression alter.columnType "column type" { tenantId := some tenantId }
        .ok (.addColumn target column type)
      else if alter.action = "DROP_COLUMN" then do
        let target ← tableRequired "ALTER_TABLE" schema table
        let column ← quotedName alter.columnName
        .ok (.dropColumn target column)
      else .ok .empty
  | _ => .ok .empty

def pageInt (v : JsValue) (what : String) : Except FabricError (Option ℤ) :=
  if v.truthy then (safeInt v what 0 1000000000).map some else .ok none

def cteClause (tenantId : String) (w : WithRecursive) :
    Except FabricError (String × String × String) := do
  let name ← assertIdent w.name "withRecursive.name"
  let base ← assertSafeSelectQuery w.baseQuery tenantId "withRecursive.baseQuery"
  let recursive ← assertSafeSelectQuery w.recursiveQuery tenantId "withRecursive.recursiveQuery"
  .ok (name, base, recursive)

def orderClause (tenantId : String) (o : OrderEntry) : Except FabricError (String × Bool) := do
  let field ← fieldToSql o.field "orderBy" (some tenantId)
  .ok (field, o.dir = .str "DESC")

/-- `resolved.tableName || String(table || '').replace(...)` -/
def statementTable (r : ResolvedTarget) (ref : TargetRef) : String :=
  if r.tableName = "" then keepOnly isWord ((present ref.table).getD "") else r.tableName

/-- `safeTable`: built for every statement, so an unquotable name always throws. -/
def quotedTable (table : String) : Except FabricError String :=
  if table = "" then .ok "" else quoteAnyIdent table

def statementCte (tenantId : String) (w : Option WithRecursive) :
    Except FabricError (Option (String × String × String)) :=
  match w with
  | none => .ok none
  | some w => (cteClause tenantId w).map some

/-- The common WHERE clause of the statements that take one. -/
def statementFilter (config : QueryConfig) : Except FabricError (List FilterClause) :=
  if config.type ∈ ["SELECT", "UPDATE", "DELETE"] then config.filter.mapM filterClause else .ok []

def groupFields (tenantId : String) (groupBy : Option (List JsValue)) :
    Except FabricError (Option (List String)) :=
  match groupBy with
  | none => .ok none
  | some gs => (gs.mapM fun g => fieldToSql g "groupBy" (some tenantId)).map some

structure StatementTail where
  groupBy : Option (List String) := none
  orderBy : List (String × Bool) := []
  limit : Option ℤ := none
  offset : Option ℤ := none
  deriving DecidableEq

def statementTail (tenantId : String) (config : QueryConfig) : Except FabricError StatementTail :=
  if config.type = "SELECT" then do
    let groupBy ← groupFields tenantId config.groupBy
    let orderBy ← (config.orderBy.filter (·.field.truthy)).mapM (orderClause tenantId)
    let limit ← pageInt config.limit "limit"
    let offset ← pageInt config.offset "offset"
    .ok ⟨groupBy, orderBy, limit, offset⟩
  else .ok {}

structure HubStatement where
  cte : Option (String × String × String)
  body : StatementBody
  filter : List FilterClause
  tail : StatementTail
  deriving DecidableEq

def HubStatement.targetSchema (s : HubStatement) : Option String := s.body.targetSchema

def generateSql (json : JsonColumns) (cat : Catalog) (override : Option String) (tenantId : String)
    (config : QueryConfig) : Except FabricError HubStatement :=
  if tenantId = "" then
    .error (.unexpected "Internal Error: Tenant identity missing in SQL generation")
  else do
    let cleanTenant ← assertTenantIdSafe tenantId
    let resolved ← resolveTarget cat override tenantId config.target
    let table := statementTable resolved config.target
    let schema ← quotedName (.str resolved.schemaName)
    let _ ← quotedTable table
    let cte ← statementCte cleanTenant config.withRecursive
    let body ← statementBody json cat override cleanTenant schema table config
    let filter ← statementFilter config
    let tail ← statementTail cleanTenant config
    .ok ⟨cte, body, filter, tail⟩

theorem quotedName_ok {v : JsValue} {s : String} (h : quotedName v = .ok s) :
    v = .str s ∧ quotable s = true := by
  unfold quotedName at h
  split at h
  · obtain ⟨q, hq, rfl⟩ := map_ok h
    exact ⟨rfl, (quoteAnyIdent_ok_iff.mp hq).1⟩
  · cases h

theorem tableRequired_ok {type schema table : String} {r : RelationName}
    (h : tableRequired type schema table = .ok r) : r = ⟨schema, table⟩ := by
  unfold tableRequired at h
  split at h
  · cases h
  · obtain ⟨_, _, rfl⟩ := map_ok h
    rfl

theorem selectBody_target {cat : Catalog} {override : Option String}
    {tenantId schema table s : String} {config : QueryConfig} {body : StatementBody}
    (h : selectBody cat override tenantId schema table config = .ok body)
    (hs : body.targetSchema = some s) : s = schema := by
  unfold selectBody at h
  obtain ⟨fields, _, h⟩ := bind_ok h
  obtain ⟨name, _, h⟩ := bind_ok h
  obtain ⟨joins, _, h⟩ := bind_ok h
  obtain rfl := Except.ok.inj h
  split at hs
  · cases hs
  · exact (Option.some.inj hs).symm

theorem insertBody_target {json : JsonColumns} {schema table s : String} {data : JsValue}
    {body : StatementBody} (h : insertBody json schema table data = .ok body)
    (hs : body.targetSchema = some s) : s = schema := by
  unfold insertBody at h
  dsimp only at h
  split_ifs at h
  obtain ⟨target, htarget, h⟩ := bind_ok h
  obtain ⟨names, _, h⟩ := bind_ok h
  obtain rfl := Except.ok.inj h
  obtain rfl := tableRequired_ok htarget
  exact (Option.some.inj hs).symm

theorem updateBody_target {json : JsonColumns} {schema table s : String} {data : JsValue}
    {body : StatementBody} (h : updateBody json schema table data = .ok body)
    (hs : body.targetSchema = some s) : s = schema := by
  unfold updateBody at h
  split at h
  · cases h
  · obtain ⟨sets, _, h⟩ := bind_ok h
    obtain ⟨target, htarget, h⟩ := bind_ok h
    obtain rfl := Except.ok.inj h
    obtain rfl := tableRequired_ok htarget
    exact (Option.some.inj hs).symm

theorem statementBody_target {json : JsonColumns} {cat : Catalog} {override : Option String}
    {tenantId schema table s : String} {config : QueryConfig} {body : StatementBody}
    (h : statementBody json cat override tenantId schema table config = .ok body)
    (hs : body.targetSchema = some s) : s = schema := by
  unfold statementBody at h
  split at h
  case h_1 => exact selectBody_target h hs
  case h_2 => exact insertBody_target h hs
  case h_3 => exact updateBody_target h hs
  case h_4 | h_6 =>
    obtain ⟨target, htarget, h⟩ := bind_ok h
    obtain rfl := Except.ok.inj h
    obtain rfl := tableRequired_ok htarget
    exact (Option.some.inj hs).symm
  case h_5 =>
    obtain ⟨columns, _, h⟩ := bind_ok h
    obtain ⟨target, htarget, h⟩ := bind_ok h
    obtain rfl := Except.ok.inj h
    obtain rfl := tableRequired_ok htarget
    exact (Option.some.inj hs).symm
  case h_7 =>
    split at h
    · cases h
    · obtain ⟨name, _, h⟩ := bind_ok h
      obtain ⟨target, htarget, h⟩ := bind_ok h
      obtain ⟨columns, _, h⟩ := bind_ok h
      obtain rfl := Except.ok.inj h
      obtain rfl := tableRequired_ok htarget
      exact (Option.some.inj hs).symm
  case h_8 =>
    split at h
    · cases h
    · obtain ⟨name, _, h⟩ := bind_ok h
      obtain ⟨query, _, h⟩ := bind_ok h
      obtain rfl := Except.ok.inj h
      exact (Option.some.inj hs).symm
  case h_9 =>
    obtain rfl := Except.ok.inj h
    exact (Option.some.inj hs).symm
  case h_10 =>
    split at h
    · cases h
    · obtain ⟨name, _, h⟩ := bind_ok h
      obtain ⟨start, _, h⟩ := bind_ok h
      obtain ⟨increment, _, h⟩ := bind_ok h
      obtain rfl := Except.ok.inj h
      exact (Option.some.inj hs).symm
  case h_11 =>
    split at h
    · cases h
    · split_ifs at h
      · obtain ⟨target, htarget, h⟩ := bind_ok h
        obtain ⟨column, _, h⟩ := bind_ok h
        obtain ⟨type, _, h⟩ := bind_ok h
        obtain rfl := Except.ok.inj h
        obtain rfl := tableRequired_ok htarget
        exact (Option.some.inj hs).symm
      · obtain ⟨target, htarget, h⟩ := bind_ok h
        obtain ⟨column, _, h⟩ := bind_ok h
        obtain rfl := Except.ok.inj h
        obtain rfl := tableRequired_ok htarget
        exact (Option.some.inj hs).symm
      · obtain rfl := Except.ok.inj h
        cases hs
  case h_12 =>
    obtain rfl := Except.ok.inj h
    cases hs

end DataFabric.HubStatements
