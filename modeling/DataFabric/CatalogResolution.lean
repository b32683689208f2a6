import DataFabric.ExceptRules
import DataFabric.TenantNamespaces

set_option autoImplicit false

/-!
# Resolving the target of a request

The metadata catalog and the four ways a request finds its physical table:
by table id, by schema id, by name, and by convention when no row is found.
-/
namespace DataFabric.CatalogResolution
open CharText JsValues TenantIdentifiers TenantNamespaces ExceptRules

structure DataSource where
  id : String
  tenantId : String
  name : String
  type : String
  config : JsValue := .obj []
  deriving DecidableEq

/-- A row of `catalog_schemas`; a hub-local schema has no source. -/
structure CatalogSchema where
  id : String
  sourceId : Option String
  name : String
  physicalName : Option String
  deriving DecidableEq

structure CatalogTable where
  id : String
  schemaId : String
  name : String
  physicalName : Option String
  resourceType : String
  deriving DecidableEq

/-- The catalog, each table in the order its rows come back. -/
structure Catalog where
  sources : List DataSource
  schemas : List CatalogSchema
  tables : List CatalogTable
  deriving DecidableEq

def remoteFirst {α : Type*} (remote : α → Bool) (rows : List α) : Option α :=
  (rows.filter remote ++ rows.filter fun r => !remote r).head?

structure CatalogRow where
  source : DataSource
  schema : CatalogSchema
  table : CatalogTable
  deriving DecidableEq

def joinedRows (cat : Catalog) : List CatalogRow :=
  cat.tables.flatMap fun table =>
    (cat.schemas.filter fun schema => table.schemaId = schema.id).flatMap fun schema =>
      (cat.sources.filter fun source => schema.sourceId = some source.id).map fun source =>
        ⟨source, schema, table⟩

/-- `[0-9a-f]{8}-[0-9a-f]{4}-[0-9a-f]{4}-[0-9a-f]{4}-[0-9a-f]{12}`, letter case ignored. -/
def isUuid (s : String) : Bool :=
  (split '-' s).map (fun p => p.toList.length) = [8, 4, 4, 4, 12] &&
    (split '-' s).all fun p =>
      p.toList.all fun c => c.isDigit || ('a' ≤ c.toLower && c.toLower ≤ 'f')

/-- `catalogSchemaScope`: schemas of the tenant's sources, and source-less ones under its prefix. -/
def inCatalogScope (cat : Catalog) (tenantId : String) (schema : CatalogSchema) : Bool :=
  match schema.sourceId with
  | some sid => cat.sources.any fun ds => ds.id = sid && ds.tenantId = tenantId
  | none =>
    match schema.physicalName with
    | some p => p = tenantBase tenantId || startsWith p (tenantBase tenantId ++ "_")
    | none => false

structure TargetRef where
  tableId : Option String := none
  schemaId : Option String := none
  source : Option String := none
  schema : Option String := none
  table : Option String := none
  resource : Option String := none
  deriving DecidableEq

/-- An optional text as `||` reads it: the empty one counts as absent. -/
def present (s : Option String) : Option String := s.filter (· ≠ "")

/-- `(cfg.table || cfg.resource || '')` reduced to word characters. -/
def TargetRef.tableName (ref : TargetRef) : String :=
  keepOnly isWord (((present ref.table).or (present ref.resource)).getD "")

/-- The first of the successive lookups by name that finds a row. -/
def lookupByName (cat : Catalog) (tenantId schemaName tableName : String) (ref : TargetRef) :
    Option CatalogRow :=
  let named := (joinedRows cat).filter fun r => r.source.tenantId = tenantId && r.table.name = tableName
  let remote := fun r : CatalogRow => decide (r.source.type ≠ "POSTGRES")
  let asAsked := named.filter fun r =>
    (match present ref.source with
      | some s => decide (r.source.name = s)
      | none => true) &&
    (match present ref.schema with
      | some s => decide (r.schema.name = s)
      | none => true)
  let inSchema := named.filter fun r => r.schema.physicalName = some schemaName
  ((remoteFirst remote asAsked).or
    (if (present ref.schema).isSome then remoteFirst remote inSchema else none)).or
    (remoteFirst remote named)

/-- Where a request goes; the route is absent on the path by table id. -/
structure ResolvedTarget where
  schemaName : String
  tableName : String
  /-- engine, source name and source configuration -/
  route : Option (String × String × JsValue)
  deriving DecidableEq

def localSource : String := "Fabric_Hub_Postgres"

/-- The route of a catalog row: a materialized view lives on the hub. -/
def rowRoute (r : CatalogRow) : String × String × JsValue :=
  if r.table.resourceType = "MATERIALIZED_VIEW" then ("POSTGRES", localSource, r.source.config)
  else (upperCase r.source.type, r.source.name, r.source.config)

/-- The route without a row: the hub, or the source the environment names. -/
def fallbackRoute (cat : Catalog) (override : Option String) : String × String × JsValue :=
  match present override with
  | none => ("POSTGRES", localSource, .obj [])
  | some name =>
    match cat.sources.find? (·.name = name) with
    | none => ("POSTGRES", localSource, .obj [])
    | some ds => (upperCase ds.type, ds.name, ds.config)

/-- The row a table id names, when it lies in the tenant's scope. -/
def tableById (cat : Catalog) (tenantId tableId : String) : Option (CatalogSchema × CatalogTable) :=
  (cat.tables.flatMap fun ct =>
    (cat.schemas.filter fun cs => ct.schemaId = cs.id).map fun cs => (cs, ct)).find? fun (cs, ct) =>
      asciiLower ct.id = asciiLower tableId && inCatalogScope cat tenantId cs

def schemaById (cat : Catalog) (tenantId schemaId : String) : Option CatalogSchema :=
  cat.schemas.find? fun cs => asciiLower cs.id = asciiLower schemaId && inCatalogScope cat tenantId cs

/-- The path by table id: the catalog name goes through `hubSchemaFor`. -/
def resolveById (cat : Catalog) (tenantId tableId : String) : Except FabricError ResolvedTarget :=
  if isUuid tableId then
    match tableById cat tenantId tableId with
    | none => .error (.notFound "Resource not found")
    | some (cs, ct) => do
      let schemaName ← hubSchemaFor tenantId (cs.physicalName.getD "")
      .ok ⟨schemaName, keepOnly isWord (afterLast '.' (ct.physicalName.getD "")), none⟩
  else .error (.notFound "Resource not found")

/-- The schema before the lookup by name: the one a schema id names, or the convention. -/
def startingSchema (cat : Catalog) (tenantId : String) (ref : TargetRef) (byConvention : String) :
    Except FabricError String :=
  match present ref.schemaId with
  | none => .ok byConvention
  | some sid =>
    if isUuid sid then
      match schemaById cat tenantId sid with
      | none => .error (.notFound "Schema not found")
      | some cs => hubSchemaFor tenantId (cs.physicalName.getD "")
    else .error (.notFound "Schema not found")

/-- The path by name: a found row replaces schema and table by its own physical names. -/
def resolveByName (cat : Catalog) (override : Option String) (tenantId schemaName : String)
    (ref : TargetRef) : ResolvedTarget :=
  if ref.tableName = "" then ⟨schemaName, "", some ("POSTGRES", localSource, .obj [])⟩
  else
    match lookupByName cat tenantId schemaName ref.tableName ref with
    | none => ⟨schemaName, ref.tableName, some (fallbackRoute cat override)⟩
    | some row =>
      ⟨(present row.schema.physicalName).getD schemaName,
        (present row.table.physicalName).getD ref.tableName, some (rowRoute row)⟩

def resolveTarget (cat : Catalog) (override : Option String) (tenantId : String) (ref : TargetRef) :
    Except FabricError ResolvedTarget := do
  let byConvention ← toTenantSchemaName tenantId ref.schema
  match present ref.tableId with
  | some tableId => resolveById cat tenantId tableId
  | none =>
    let schemaName ← startingSchema cat tenantId ref byConvention
    .ok (resolveByName cat override tenantId schemaName ref)

end DataFabric.CatalogResolution
