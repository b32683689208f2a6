import DataFabric.HubCatalog
import DataFabric.TransitionRuns
import Mathlib.Data.List.Nodup

set_option autoImplicit false

/-!
# Planning and applying a manifest on the hub

The differ for schemas that lie on the hub, the compiler of its changes, and an apply of a manifest all of whose
schemas do; of one that targets another source as a whole the hub does not get the relationships.
-/
namespace DataFabric.ManifestPlans
open CharText HubReplicas ColumnTypes Manifests HubCatalog TransitionRuns

inductive Change
  | createSchema (schema : String)
  | createEnum (schema : String) (e : EnumDefinition)
  | addEnumValue (schema name value : String)
  | createSequence (schema : String) (s : SequenceDefinition)
  | createFunction (schema : String) (f : FunctionDefinition)
  | createTable (schema : String) (t : TableDefinition)
  | addColumn (schema table : String) (c : ColumnDefinition)
  | alterColumnType (schema table : String) (c : ColumnDefinition)
  | createView (schema : String) (v : ViewDefinition)
  | quarantineTable (schema table : String)
  | provisionRelationship (schema : String) (r : RelationshipDefinition)
  deriving DecidableEq, Repr

def Change.highRisk : Change → Bool
  | .quarantineTable _ _ => true
  | _ => false

def diffEnum (h : Hub) (S schema : String) (e : EnumDefinition) : List Change :=
  if h.typeAt S e.name then
    let existingLabels := (h.enum? S e.name).elim [] (·.labels)
    (e.values.filter (!existingLabels.contains ·)).map (.addEnumValue schema e.name)
  else [.createEnum schema e]

def diffSequence (h : Hub) (S schema : String) (s : SequenceDefinition) : List Change :=
  if h.sequenceAt S s.name then [] else [.createSequence schema s]

def diffColumn (t : LiveTable) (schema table : String) (c : ColumnDefinition) : List Change :=
  match t.column? c.name with
  | none => [.addColumn schema table c]
  | some existing =>
    if typeChanged (normalizeCatalogType existing.type) (normalizeDeclaredType c.type c.length) then
      [.alterColumnType schema table c]
    else []

def diffTable (h : Hub) (S schema : String) (t : TableDefinition) : List Change :=
  match h.table? S t.name with
  | none => [.createTable schema t]
  | some live => t.columns.flatMap (diffColumn live schema t.name)

def diffView (h : Hub) (S schema : String) (v : ViewDefinition) : List Change :=
  if h.viewAt S v.name then [] else [.createView schema v]

def diffFunction (h : Hub) (S schema : String) (f : FunctionDefinition) : List Change :=
  if h.functionAt S f.name then [] else [.createFunction schema f]

def processResourceDiff (h : Hub) (S schema : String) : ResourceDefinition → List Change
  | .enum e => diffEnum h S schema e
  | .sequence s => diffSequence h S schema s
  | .table t => diffTable h S schema t
  | .view v => diffView h S schema v
  | .function f => diffFunction h S schema f

def order : ResourceDefinition → ℕ
  | .enum _ => 1
  | .sequence _ => 2
  | .function _ => 3
  | .table _ => 4
  | .view v => if v.materialized then 6 else 5

/-- The sort is stable, so it lines up the resources of each rank as they stand. -/
def sortResources (resources : List ResourceDefinition) : List ResourceDefinition :=
  (List.range 7).flatMap fun k => resources.filter (order · = k)

def detectRetiredResources (h : Hub) (S : String) (s : SchemaDefinition) : List Change :=
  ((h.liveTables S).filter fun live =>
    live ∉ s.tables.map (·.name) && !startsWith live "__deleted").map (.quarantineTable s.name)

/-- A name that cannot be mapped into the workspace's namespace is refused. -/
def physicalName (tenantId schema : String) : Option String :=
  (physicalSchemaName tenantId (.str schema)).toOption

def schemaChanges (h : Hub) (S : String) (s : SchemaDefinition) : List Change :=
  (if S ∈ h.schemas then [] else [.createSchema s.name]) ++
    (sortResources s.resources).flatMap (processResourceDiff h S s.name) ++
    detectRetiredResources h S s

def compareSchema (h : Hub) (tenantId : String) (s : SchemaDefinition) : Option (List Change) :=
  (physicalName tenantId s.name).map fun S => schemaChanges h S s

def relationshipChanges (m : MetadataManifest) : List Change :=
  m.relationships.map (.provisionRelationship ((m.schemas.head?.map (·.name)).getD "default"))

def compare (h : Hub) (tenantId : String) (m : MetadataManifest) : Option (List Change) :=
  (m.schemas.mapM (compareSchema h tenantId)).map fun perSchema =>
    perSchema.flatten ++ relationshipChanges m

def enumRef (c : ColumnDefinition) : Option String :=
  if isEnumPlaceholder c.type then c.ref.filter (· ≠ "") else none

def mappedTypeOf (enumNames : List String) (c : ColumnDefinition) : Option String :=
  if c.type ∈ enumNames ∨ (enumRef c).isSome then some c.type else normalizeType c.type

/-- A column without a strategy; `sized` are the names a length applies to. -/
def plainType (S : String) (enumNames sized : List String) (c : ColumnDefinition) (mapped : String) :
    SqlType :=
  match enumRef c with
  | some ref => .enum S ref
  | none =>
    if c.type ∈ enumNames then .enum S c.type
    else match positive c.length with
      | some n => if upperCase c.type ∈ sized then .varchar n else .named mapped
      | none => .named mapped

def createdType (S : String) (enumNames : List String) (c : ColumnDefinition) : Option SqlType :=
  (mappedTypeOf enumNames c).map fun mapped =>
    match c.strategy with
    | some .IDENTITY_ALWAYS => .named mapped
    | some .UUID_V7 => .named "UUID"
    | some .LEGACY_SERIAL => .named "SERIAL"
    | _ => plainType S enumNames ["STRING"] c mapped

def alteredType (S : String) (enumNames : List String) (c : ColumnDefinition) : Option SqlType :=
  (mappedTypeOf enumNames c).map (plainType S enumNames ["STRING", "VARCHAR"] c)

def declaredDefault (c : ColumnDefinition) : Option String := c.default.filter (· ≠ "")

def strategyDefault (c : ColumnDefinition) : Option String :=
  if c.strategy = some .UUID_V7 then some "gen_random_uuid()" else none

def hasDefault (c : ColumnDefinition) : Bool :=
  c.strategy = some .UUID_V7 || c.strategy = some .LEGACY_SERIAL

def createColumn (S : String) (enumNames : List String) (t : TableDefinition)
    (c : ColumnDefinition) : Option ColumnSpec :=
  (createdType S enumNames c).map fun type =>
    { name := c.name
      type := type
      default := if hasDefault c || c.strategy = some .FUNCTIONAL then strategyDefault c
        else declaredDefault c
      generated := c.generated
      identity := c.strategy = some .IDENTITY_ALWAYS
      primaryKey := c.primaryKey && t.identity.isNone
      unique := c.unique
      notNull := c.nullable = some false
      collation := c.collation }

/-- A column of `ADD_COLUMN`: neither a key, a collation nor a generation. -/
def addedColumn (S : String) (enumNames : List String) (c : ColumnDefinition) : Option ColumnSpec :=
  (createdType S enumNames c).map fun type =>
    { name := c.name
      type := type
      default := declaredDefault c <|> strategyDefault c
      generated := none
      identity := c.strategy = some .IDENTITY_ALWAYS
      primaryKey := false
      unique := c.unique
      notNull := c.nullable = some false
      collation := none }

section Compiler

-- in hexadecimal
variable (md5 : String → String)

/-- A name longer than 63 characters is shortened with a hash. -/
def derivedName (parts : List String) : String :=
  let base := "_".intercalate parts
  if base.toList.length ≤ 63 then base
  else String.ofList (base.toList.take 50) ++ "_" ++ String.ofList ((md5 base).toList.take 10)

/-- The index of a column, and the function and trigger of a `FUNCTIONAL` default. -/
def columnDetails (S table : String) (c : ColumnDefinition) : List Statement :=
  (c.index.elim [] fun method =>
    [.createIndex S (derivedName md5 ["idx", table, c.name]) table method [c.name]]) ++
  if c.strategy = some .FUNCTIONAL then (declaredDefault c).elim [] fun expression =>
    [.createFunction S ⟨derivedName md5 ["fn_func", table, c.name], false, [], some "TRIGGER", expression⟩,
      .createTrigger S table ⟨derivedName md5 ["trg_func", table, c.name], expression⟩]
  else []

def tableSpec (S : String) (enumNames : List String) (t : TableDefinition) : Option TableSpec :=
  (t.columns.mapM (createColumn S enumNames t)).map fun columns =>
    { name := t.name
      columns := columns
      primaryKey := t.identity
      constraints := t.constraints.filter (·.type ≠ .FOREIGN_KEY)
      partitionBy := t.partitionBy }

def tableDetails (S : String) (t : TableDefinition) : List Statement :=
  t.columns.flatMap (columnDetails md5 S t.name) ++
  (if t.enableRls then .enableRowSecurity S t.name :: t.policies.map (.createPolicy S t.name) else []) ++
  t.grants.map (.grant S t.name) ++ t.triggers.map (.createTrigger S t.name)

def viewStatements (S : String) (v : ViewDefinition) : List Statement :=
  if v.materialized then
    .recreateMaterializedView S v.name v.query ::
      v.indexes.map fun columns =>
        .createIndex S (derivedName md5 ("idx_mv" :: v.name :: columns)) v.name "BTREE" columns
  else if v.isVirtual then [.remark v.name]
  else [.createView S v.name v.query]

def isLocal (r : RelationshipDefinition) : Bool := r.from_.source.isNone && r.to_.source.isNone

/-- `fk_<name>`; the names of relationships are too short for a hash. -/
def fkName (r : RelationshipDefinition) : String := derivedName md5 ["fk", r.name]

def bridgeColumn (S : String) (m : MetadataManifest) (e : RelationshipSide) (references : Bool) :
    Option BridgeColumn :=
  (normalizeType (m.findColumnType e.resource e.field)).map fun type =>
    ⟨e.resource ++ "_" ++ e.field, type, if references then some (S, e.resource, e.field) else none⟩

def relationshipStatements (S : String) (m : MetadataManifest) (r : RelationshipDefinition) :
    Option (List Statement) :=
  match r.cardinality, r.bridge with
  | .many_many, some bridge =>
    (bridgeColumn S m r.from_ (isLocal r)).bind fun fromColumn =>
      (bridgeColumn S m r.to_ (isLocal r)).map fun toColumn =>
        .createBridge S bridge fromColumn toColumn ::
          if isLocal r then []
          else
            [.addForeignKey (derivedName md5 ["fk", r.name, "from"]) S bridge
              ⟨fromColumn.name, S, r.from_.resource, r.from_.field⟩, .remark r.name]
  | .many_many, none => some []
  | .one_one, _ | .one_many, _ =>
    if isLocal r then
      some [.addForeignKey (fkName md5 r) S r.to_.resource
        ⟨r.to_.field, S, r.from_.resource, r.from_.field⟩]
    else some [.remark r.name]

def enumNamesOf (m : MetadataManifest) (schema : String) : List String :=
  (m.schemas.find? (·.name = schema)).elim [] (·.enumNames)

def toSql (S : String) (m : MetadataManifest) : Change → Option (List Statement)
  | .createSchema _ => some [.createSchema S]
  | .createEnum _ e => some [.createEnum S e.name e.values]
  | .addEnumValue _ name value => some [.addEnumValue S name value]
  | .createSequence _ s => some [if s.procedural then .remark s.name else .createSequence S s]
  | .createFunction _ f => some [.createFunction S f]
  | .createTable schema t =>
    (tableSpec S (enumNamesOf m schema) t).map fun spec => .createTable S spec :: tableDetails md5 S t
  | .addColumn schema table c =>
    (addedColumn S (enumNamesOf m schema) c).map fun spec => [.addColumn S table spec]
  | .alterColumnType schema table c =>
    (alteredType S (enumNamesOf m schema) c).map fun type =>
      .dropDefault S table c.name :: .alterType S table c.name type ::
        (declaredDefault c).elim [] fun value => [.setDefault S table c.name value]
  | .createView _ v => some (viewStatements md5 S v)
  | .quarantineTable _ _ => some []
  | .provisionRelationship _ r => relationshipStatements md5 S m r

def Change.schema : Change → String
  | .createSchema schema | .createEnum schema _ | .addEnumValue schema _ _ | .createSequence schema _
  | .createFunction schema _ | .createTable schema _ | .addColumn schema _ _
  | .alterColumnType schema _ _ | .createView schema _ | .quarantineTable schema _
  | .provisionRelationship schema _ => schema

def compileChange (tenantId : String) (m : MetadataManifest) (c : Change) : Option (List Statement) :=
  (physicalName tenantId c.schema).bind fun S => toSql md5 S m c

def hubName : String := "Fabric_Hub_Postgres"

def onHub (targetSource : Option String) : Bool := targetSource.getD hubName = hubName

def targetsHub (m : MetadataManifest) : Prop := ∀ s ∈ m.schemas, onHub (s.targetSource <|> m.targetSource)

/-- The hub runs the changes of its schemas, and those of relationships when the manifest as a whole
targets it. -/
def runsOnHub (m : MetadataManifest) : Change → Bool
  | .provisionRelationship _ _ => onHub m.targetSource
  | _ => true

def hubStatements (tenantId : String) (m : MetadataManifest) (changes : List Change) :
    Option (List Statement) :=
  ((changes.filter (runsOnHub m)).mapM (compileChange md5 tenantId m)).map List.flatten

def forcedSchemas (force : Bool) (m : MetadataManifest) (plan : List Change) : List Change :=
  if force then
    ((m.schemas.filter fun s => Change.createSchema s.name ∉ plan).map fun s =>
      Change.createSchema s.name).reverse
  else []

def applyStatements (h : Hub) (tenantId : String) (m : MetadataManifest) (force : Bool) :
    Option (List Statement) :=
  if validateManifestDocument m = [] then
    (compare h tenantId m).bind fun plan =>
      if plan.any Change.highRisk && !force then none
      else hubStatements md5 tenantId m (forcedSchemas force m plan ++ plan)
  else none

def apply (pg : Postgres) (h : Hub) (tenantId : String) (m : MetadataManifest) (force : Bool) :
    Option Hub :=
  (applyStatements md5 h tenantId m force).bind (run (exec pg) h)

end Compiler

end DataFabric.ManifestPlans
