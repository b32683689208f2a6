import DataFabric.Manifests

set_option autoImplicit false

/-!
# The hub's catalog under the statements of an apply

The objects of the hub that the differ reads and the compiled statements change.
-/
namespace DataFabric.HubCatalog
open ColumnTypes Manifests

structure LiveColumn where
  name : String
  type : CatalogType
  default : Option String
  generated : Option String
  unique : Bool
  notNull : Bool
  deriving DecidableEq, Repr

structure LiveTable where
  columns : List LiveColumn
  /-- Its CHECK and EXCLUDE constraints. -/
  constraints : List ConstraintDefinition
  rowSecurity : Bool
  policies : List PolicyDefinition
  triggers : List TriggerDefinition
  deriving DecidableEq, Repr

/-- The members of `pg_class`; `other` are indexes and the sequences behind columns. -/
inductive RelationBody
  | table (t : LiveTable)
  | view (query : String)
  | materializedView (query : String)
  | sequence (options : SequenceDefinition)
  | other
  deriving DecidableEq, Repr

structure Relation where
  schema : String
  name : String
  body : RelationBody
  deriving DecidableEq, Repr

structure LiveEnum where
  schema : String
  name : String
  labels : List String
  deriving DecidableEq, Repr

structure LiveFunction where
  schema : String
  definition : FunctionDefinition
  deriving DecidableEq, Repr

/-- The single-column key `columns` of the referenced table. -/
structure ForeignKey where
  column : String
  refSchema : String
  refTable : String
  refColumn : String
  deriving DecidableEq, Repr

structure Constraint where
  name : String
  schema : String
  table : String
  foreignKey : Option ForeignKey
  deriving DecidableEq, Repr

structure Hub where
  schemas : List String
  relations : List Relation
  enums : List LiveEnum
  functions : List LiveFunction
  constraints : List Constraint
  deriving DecidableEq, Repr

def Relation.at_ (r : Relation) (schema name : String) : Bool := r.schema = schema && r.name = name

def RelationBody.table? : RelationBody → Option LiveTable
  | .table t => some t
  | _ => none

def RelationBody.isView : RelationBody → Bool
  | .view _ | .materializedView _ => true
  | _ => false

def RelationBody.isSequence : RelationBody → Bool
  | .sequence _ => true
  | _ => false

def Hub.taken (h : Hub) (schema name : String) : Bool := h.relations.any (·.at_ schema name)

def Hub.table? (h : Hub) (schema name : String) : Option LiveTable :=
  h.relations.findSome? fun r => if r.at_ schema name then r.body.table? else none

def Hub.tableAt (h : Hub) (S name : String) : Bool := (h.table? S name).isSome

def Hub.viewAt (h : Hub) (S name : String) : Bool :=
  h.relations.any fun r => r.at_ S name && r.body.isView

def Hub.sequenceAt (h : Hub) (S name : String) : Bool :=
  h.relations.any fun r => r.at_ S name && r.body.isSequence

def Hub.functionAt (h : Hub) (S name : String) : Bool :=
  h.functions.any fun f => f.schema = S && f.definition.name = name

def Hub.enum? (h : Hub) (S name : String) : Option LiveEnum :=
  h.enums.find? fun e => e.schema = S && e.name = name

def Hub.typeAt (h : Hub) (S name : String) : Bool :=
  (h.enum? S name).isSome || h.tableAt S name || h.viewAt S name

def Hub.liveTables (h : Hub) (S : String) : List String :=
  h.relations.filterMap fun r => if r.schema = S ∧ r.body.table?.isSome then some r.name else none

def LiveTable.column? (t : LiveTable) (name : String) : Option LiveColumn :=
  t.columns.find? (·.name = name)

structure ColumnSpec where
  name : String
  type : SqlType
  default : Option String
  generated : Option String
  identity : Bool
  primaryKey : Bool
  unique : Bool
  notNull : Bool
  collation : Option String
  deriving DecidableEq, Repr

structure TableSpec where
  name : String
  columns : List ColumnSpec
  primaryKey : Option (List String)
  constraints : List ConstraintDefinition
  partitionBy : Option (String × String)
  deriving DecidableEq, Repr

structure BridgeColumn where
  name : String
  type : String
  references : Option (String × String × String)
  deriving DecidableEq, Repr

inductive Statement
  | createSchema (schema : String)
  | createEnum (schema name : String) (values : List String)
  | addEnumValue (schema name value : String)
  | createSequence (schema : String) (options : SequenceDefinition)
  /-- A line that starts with `--`. -/
  | remark (text : String)
  | createFunction (schema : String) (definition : FunctionDefinition)
  | createTable (schema : String) (spec : TableSpec)
  | createIndex (schema index table : String) (method : String) (columns : List String)
  | enableRowSecurity (schema table : String)
  | createPolicy (schema table : String) (policy : PolicyDefinition)
  | grant (schema table : String) (grant : TableGrants.Grant)
  | createTrigger (schema table : String) (trigger : TriggerDefinition)
  | addColumn (schema table : String) (spec : ColumnSpec)
  | dropDefault (schema table column : String)
  | alterType (schema table column : String) (type : SqlType)
  | setDefault (schema table column value : String)
  | createView (schema name query : String)
  /-- `DROP MATERIALIZED VIEW IF EXISTS .. CASCADE` and `CREATE MATERIALIZED VIEW`. -/
  | recreateMaterializedView (schema name query : String)
  | createBridge (schema name : String) (fromColumn toColumn : BridgeColumn)
  /-- `IF NOT EXISTS (SELECT 1 FROM pg_constraint WHERE conname = ..) THEN ALTER TABLE .. ADD`. -/
  | addForeignKey (constraint schema table : String) (key : ForeignKey)
  deriving DecidableEq, Repr

/-- What is PostgreSQL's own: which statements it refuses, and the names it chooses for the indexes
and sequences that come with a table and for the constraints a statement leaves unnamed. -/
structure Postgres where
  accepts : Hub → Statement → Bool
  attendants : Hub → Statement → List String
  constraintNames : Hub → Statement → List String
  referenceName : Hub → String → String → String → String

def Hub.mapTable (h : Hub) (schema name : String) (f : LiveTable → LiveTable) : Hub :=
  { h with relations := h.relations.map fun r =>
      if r.at_ schema name then match r.body with
        | .table t => { r with body := .table (f t) }
        | _ => r
      else r }

def Hub.addRelations (h : Hub) (rs : List Relation) : Hub := { h with relations := h.relations ++ rs }

def Hub.addConstraints (h : Hub) (cs : List Constraint) : Hub :=
  { h with constraints := h.constraints ++ cs }

def Hub.putView (h : Hub) (schema name : String) (body : RelationBody) : Hub :=
  { h with relations :=
      (h.relations.filter fun r => ¬ (r.at_ schema name ∧ r.body.isView)) ++ [⟨schema, name, body⟩] }

def others (schema : String) (names : List String) : List Relation :=
  names.map fun name => ⟨schema, name, .other⟩

def unreferenced (schema table : String) (names : List String) : List Constraint :=
  names.map fun name => ⟨name, schema, table, none⟩

def LiveTable.mapColumn (t : LiveTable) (column : String) (f : LiveColumn → LiveColumn) : LiveTable :=
  { t with columns := t.columns.map fun c => if c.name = column then f c else c }

def LiveTable.addColumn (t : LiveTable) (column : LiveColumn) : LiveTable :=
  if (t.column? column.name).isSome then t else { t with columns := t.columns ++ [column] }

/-- A type that does not exist is refused, and so is an identity that is no integer. -/
def ColumnSpec.create (spec : ColumnSpec) : Option LiveColumn :=
  ((catalogRow spec.type).filter fun row => !spec.identity ∨ row.udtName ∈ ["int2", "int4", "int8"]).map
    fun row =>
      { name := spec.name
        type := row
        default := spec.default
        generated := spec.generated
        unique := spec.unique
        notNull := spec.notNull }

theorem ColumnSpec.create_ok {spec : ColumnSpec} {column : LiveColumn} (h : spec.create = some column) :
    column.name = spec.name ∧ catalogRow spec.type = some column.type ∧
      (spec.identity = true → column.type.udtName ∈ ["int2", "int4", "int8"]) := by
  rw [ColumnSpec.create, Option.map_eq_some_iff] at h
  obtain ⟨row, hrow, rfl⟩ := h
  rw [Option.filter_eq_some_iff] at hrow
  obtain ⟨hrow, hidentity⟩ := hrow
  refine ⟨rfl, hrow, fun hid => ?_⟩
  rw [hid] at hidentity
  simpa using hidentity

def TableSpec.create (spec : TableSpec) : Option LiveTable :=
  (spec.columns.mapM ColumnSpec.create).map fun columns => ⟨columns, spec.constraints, false, [], []⟩

def BridgeColumn.create (c : BridgeColumn) : Option LiveColumn :=
  (catalogRow (.named c.type)).map fun row => ⟨c.name, row, none, none, false, true⟩

def BridgeColumn.constraints (pg : Postgres) (h : Hub) (schema table : String) (c : BridgeColumn) :
    List Constraint :=
  match c.references with
  | some (refSchema, refTable, refColumn) =>
    [⟨pg.referenceName h schema table c.name, schema, table,
      some ⟨c.name, refSchema, refTable, refColumn⟩⟩]
  | none => []

variable (pg : Postgres)

def effect (h : Hub) (s : Statement) : Option Hub :=
  match s with
  | .createSchema schema =>
    some (if schema ∈ h.schemas then h else { h with schemas := h.schemas ++ [schema] })
  | .createEnum schema name values => some { h with enums := h.enums ++ [⟨schema, name, values⟩] }
  | .addEnumValue schema name value => some
    { h with enums := h.enums.map fun e =>
        if e.schema = schema ∧ e.name = name ∧ value ∉ e.labels then
          { e with labels := e.labels ++ [value] }
        else e }
  | .createSequence schema options => some
    (if h.taken schema options.name then h
    else h.addRelations [⟨schema, options.name, .sequence options⟩])
  | .remark _ | .grant _ _ _ => some h
  | .createFunction schema definition => some
    { h with functions :=
        (h.functions.filter fun f => ¬ (f.schema = schema ∧ f.definition.name = definition.name)) ++
          [⟨schema, definition⟩] }
  | .createTable schema spec =>
    if h.taken schema spec.name then some h
    else spec.create.map fun t =>
      (h.addRelations (⟨schema, spec.name, .table t⟩ :: others schema (pg.attendants h s))).addConstraints
        (unreferenced schema spec.name (spec.constraints.map (·.name) ++ pg.constraintNames h s))
  | .createIndex schema index _ _ _ => some
    (if h.taken schema index then h else h.addRelations (others schema [index]))
  | .enableRowSecurity schema table => some
    (h.mapTable schema table fun t => { t with rowSecurity := true })
  | .createPolicy schema table policy => some
    (h.mapTable schema table fun t =>
      { t with policies := (t.policies.filter (·.name ≠ policy.name)) ++ [policy] })
  | .createTrigger schema table trigger => some
    (h.mapTable schema table fun t =>
      { t with triggers := (t.triggers.filter (·.name ≠ trigger.name)) ++ [trigger] })
  | .addColumn schema table spec =>
    spec.create.map fun column =>
      ((h.mapTable schema table (·.addColumn column)).addRelations
        (others schema (pg.attendants h s))).addConstraints
        (unreferenced schema table (pg.constraintNames h s))
  | .dropDefault schema table column => some
    (h.mapTable schema table (·.mapColumn column fun c => { c with default := none }))
  | .alterType schema table column type =>
    (catalogRow type).map fun row =>
      h.mapTable schema table (·.mapColumn column fun c => { c with type := row })
  | .setDefault schema table column value => some
    (h.mapTable schema table (·.mapColumn column fun c => { c with default := some value }))
  | .createView schema name query => some (h.putView schema name (.view query))
  | .recreateMaterializedView schema name query => some
    (h.putView schema name (.materializedView query))
  | .createBridge schema name fromColumn toColumn =>
    if h.taken schema name then some h
    else fromColumn.create.bind fun fromLive => toColumn.create.map fun toLive =>
      (h.addRelations (⟨schema, name, .table ⟨[fromLive, toLive], [], false, [], []⟩⟩ ::
        others schema (pg.attendants h s))).addConstraints
        (fromColumn.constraints pg h schema name ++ toColumn.constraints pg h schema name ++
          unreferenced schema name (pg.constraintNames h s))
  | .addForeignKey constraint schema table key => some
    (if h.constraints.any (·.name = constraint) then h
    else h.addConstraints [⟨constraint, schema, table, some key⟩])

def exec (h : Hub) (s : Statement) : Option Hub := if pg.accepts h s then effect pg h s else none

/-- It accepts every statement and adds nothing to what the statements name. -/
def lenient : Postgres where
  accepts _ _ := true
  attendants _ _ := []
  constraintNames _ _ := []
  referenceName _ _ table column := table ++ "_" ++ column ++ "_fkey"

def emptyHub : Hub := ⟨[], [], [], [], []⟩

def plainColumn (name type : String) : ColumnDefinition where
  name := name
  type := type
  length := none
  primaryKey := false
  unique := false
  default := none
  strategy := none
  generated := none
  nullable := none
  index := none
  ref := none
  collation := none

end DataFabric.HubCatalog
