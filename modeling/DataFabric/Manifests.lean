import DataFabric.ColumnTypes
import DataFabric.ManifestIssues
import DataFabric.TableGrants

set_option autoImplicit false

/-! # Manifests: what a workspace declares, and what its validator asks of it -/
namespace DataFabric.Manifests
open CharText TenantIdentifiers HubReplicas ManifestIssues ColumnTypes

structure EnumDefinition where
  name : String
  values : List String
  deriving DecidableEq, Repr

structure SequenceDefinition where
  name : String
  start : Option ℤ
  increment : Option ℤ
  minValue : Option ℤ
  maxValue : Option ℤ
  cache : Option ℤ
  /-- `strategy: 'PROCEDURAL'` -/
  procedural : Bool
  deriving DecidableEq, Repr

inductive ConstraintType | CHECK | EXCLUDE | FOREIGN_KEY
  deriving DecidableEq, Repr

structure ConstraintDefinition where
  name : String
  type : ConstraintType
  expression : Option String
  using_ : Option String
  columns : List (String × String)
  deriving DecidableEq, Repr

structure PolicyDefinition where
  name : String
  roles : List String
  using_ : String
  deriving DecidableEq, Repr

/-- A mask of the fabric's own: for every role when none is named. -/
structure FabricMask where
  column : String
  roles : Option (List String)
  strategy : String
  deriving DecidableEq, Repr

/-- The fabric's own policy: `rowFilter` are the clauses as they stand in the manifest. -/
structure AccessPolicyDefinition where
  name : String
  roles : List String
  rowFilter : List String
  masking : List FabricMask
  deriving DecidableEq, Repr

structure MaskingDefinition where
  column : String
  roles : List String
  expression : Option String
  deriving DecidableEq, Repr

structure TriggerDefinition where
  name : String
  definition : String
  deriving DecidableEq, Repr

deriving instance DecidableEq, Repr for TableGrants.Grant

structure TableDefinition where
  name : String
  columns : List ColumnDefinition
  /-- The columns of `identity`. -/
  identity : Option (List String)
  constraints : List ConstraintDefinition
  partitionBy : Option (String × String)
  enableRls : Bool
  policies : List PolicyDefinition
  grants : List TableGrants.Grant
  accessPolicies : List AccessPolicyDefinition
  masking : List MaskingDefinition
  triggers : List TriggerDefinition
  deriving DecidableEq, Repr

structure ViewDefinition where
  name : String
  /-- The query as the AST stands in the manifest. -/
  query : String
  materialized : Bool
  /-- `federationStrategy: 'VIRTUAL'` -/
  isVirtual : Bool
  indexes : List (List String)
  deriving DecidableEq, Repr

structure FunctionDefinition where
  name : String
  procedure : Bool
  arguments : List (String × String)
  returnType : Option String
  body : String
  deriving DecidableEq, Repr

inductive ResourceDefinition
  | enum (e : EnumDefinition)
  | sequence (s : SequenceDefinition)
  | table (t : TableDefinition)
  | view (v : ViewDefinition)
  | function (f : FunctionDefinition)
  deriving DecidableEq, Repr

def ResourceDefinition.name : ResourceDefinition → String
  | .enum e => e.name
  | .sequence s => s.name
  | .table t => t.name
  | .view v => v.name
  | .function f => f.name

structure SchemaDefinition where
  name : String
  targetSource : Option String
  resources : List ResourceDefinition
  deriving DecidableEq, Repr

inductive Cardinality | one_one | one_many | many_many
  deriving DecidableEq, Repr

structure RelationshipSide where
  source : Option String
  resource : String
  field : String
  deriving DecidableEq, Repr

structure RelationshipDefinition where
  name : String
  cardinality : Cardinality
  bridge : Option String
  from_ : RelationshipSide
  to_ : RelationshipSide
  deriving DecidableEq, Repr

structure MetadataManifest where
  targetSource : Option String
  extensions : List String
  schemas : List SchemaDefinition
  relationships : List RelationshipDefinition
  deriving DecidableEq, Repr

def SchemaDefinition.enumNames (s : SchemaDefinition) : List String :=
  s.resources.filterMap fun
    | .enum e => some e.name
    | _ => none

def SchemaDefinition.tables (s : SchemaDefinition) : List TableDefinition :=
  s.resources.filterMap fun
    | .table t => some t
    | _ => none

/-- `findColumnType`: the first schema with such a table and such a column in it decides. -/
def MetadataManifest.findColumnType (m : MetadataManifest) (resource column : String) : String :=
  (m.schemas.findSome? fun s =>
    (s.tables.find? (·.name = resource)).bind fun t =>
      (t.columns.find? (·.name = column)).map (·.type)).getD "UUID"

def issue (p : Bool) (code path message : String) : List ManifestIssue :=
  if p then [⟨code, path, message⟩] else []

def duplicates {α : Type*} (key : α → String) (report : α → ManifestIssue) :
    List String → List α → List ManifestIssue
  | _, [] => []
  | seen, x :: xs =>
    (if key x ∈ seen then [report x] else []) ++ duplicates key report (key x :: seen) xs

def columnType (enumNames : List String) (type path : String) : List ManifestIssue :=
  if acceptedType enumNames type then []
  else if trim type = "" ∨ 64 < utf16Length type then
    [⟨"INVALID_COLUMN_TYPE", path, s!"{path}: type must be a non-empty string up to 64 chars"⟩]
  else [⟨"INVALID_COLUMN_TYPE", path, s!"{path}: unsupported type \"{printable type 60}\""⟩]

def validateColumn (enumNames : List String) (c : ColumnDefinition) (p : String) :
    List ManifestIssue :=
  ident c.name "column name" s!"{p}.name" ++
  (if isEnumPlaceholder c.type then
    issue (!c.ref.any (enumNames.contains ·)) "UNKNOWN_ENUM" s!"{p}.ref"
      "ENUM column must reference an enum declared in the same schema"
  else columnType enumNames c.type s!"{p}.type") ++
  (c.ref.elim [] fun ref => ident ref "enum reference" s!"{p}.ref") ++
  issue (c.length.any fun n => n = 0 || 1000000 < n) "INVALID_LENGTH" s!"{p}.length"
    "length must be a positive integer"

def validateTable (enumNames : List String) (t : TableDefinition) (p : String) :
    List ManifestIssue :=
  issue t.columns.isEmpty "INVALID_TABLE" s!"{p}.columns" "a table needs at least one column" ++
  t.columns.zipIdx.flatMap (fun (c, i) => validateColumn enumNames c s!"{p}.columns[{i}]") ++
  duplicates (·.1.name)
    (fun (c, i) => ⟨"DUPLICATE_NAME", s!"{p}.columns[{i}].name", s!"duplicate column \"{c.name}\""⟩)
    [] t.columns.zipIdx

/-- The name space of a resource: tables and views share one. -/
def ResourceDefinition.space : ResourceDefinition → String
  | .enum _ => "ENUM"
  | .sequence _ => "SEQUENCE"
  | .table _ | .view _ => "REL"
  | .function _ => "FN"

def ResourceDefinition.what : ResourceDefinition → String
  | .enum _ => "enum"
  | .sequence _ => "sequence"
  | .table _ => "table"
  | .view v => if v.materialized then "materialized_view" else "view"
  | .function f => if f.procedure then "procedure" else "function"

def validateResource (enumNames : List String) (r : ResourceDefinition) (p : String) :
    List ManifestIssue :=
  ident r.name s!"{r.what} name" s!"{p}.name" ++
  match r with
  | .table t => validateTable enumNames t p
  | _ => []

def validateSchema (s : SchemaDefinition) (p : String) : List ManifestIssue :=
  ident s.name "schema name" s!"{p}.name" ++
  s.resources.zipIdx.flatMap
    (fun (r, j) => validateResource s.enumNames r s!"{p}.resources[{j}]") ++
  duplicates (fun (r, _) => r.space ++ ":" ++ r.name)
    (fun (r, j) => ⟨"DUPLICATE_NAME", s!"{p}.resources[{j}].name",
      s!"duplicate {r.what} \"{r.name}\" in schema"⟩)
    [] s.resources.zipIdx

def validateSide (e : RelationshipSide) (p : String) : List ManifestIssue :=
  ident e.resource "relationship resource" s!"{p}.resource" ++
  ident e.field "relationship field" s!"{p}.field"

def validateRelationship (r : RelationshipDefinition) (p : String) : List ManifestIssue :=
  ident r.name "relationship name" s!"{p}.name" ++
  issue (identRe r.name && 50 < r.name.toList.length) "INVALID_IDENTIFIER" s!"{p}.name"
    s!"relationship name: relationship name is longer than 50 characters (got \"{printable r.name 40}\")" ++
  (r.bridge.elim [] fun bridge => ident bridge "bridge table" s!"{p}.bridge") ++
  issue (r.cardinality = .many_many && r.bridge.isNone) "INVALID_RELATIONSHIP" s!"{p}.bridge"
    "M:N relationships need a bridge table" ++
  validateSide r.from_ s!"{p}.from" ++ validateSide r.to_ s!"{p}.to"

/-- `validateManifestDocument`: a manifest with an issue is refused. -/
def validateManifestDocument (m : MetadataManifest) : List ManifestIssue :=
  issue m.schemas.isEmpty "INVALID_SCHEMAS" "schemas" "At least one schema required" ++
  m.schemas.zipIdx.flatMap (fun (s, i) => validateSchema s s!"schemas[{i}]") ++
  duplicates (asciiLower ·.1.name)
    (fun (s, i) => ⟨"DUPLICATE_NAME", s!"schemas[{i}].name", s!"duplicate schema \"{s.name}\""⟩)
    [] m.schemas.zipIdx ++
  m.relationships.zipIdx.flatMap (fun (r, i) => validateRelationship r s!"relationships[{i}]")

theorem duplicates_nil {α : Type*} {key : α → String} {report : α → ManifestIssue}
    {seen : List String} {xs : List α} (h : duplicates key report seen xs = []) :
    (∀ x ∈ xs, key x ∉ seen) ∧ (xs.map key).Nodup := by
  induction xs generalizing seen with
  | nil => exact ⟨by simp, List.nodup_nil⟩
  | cons x xs ih =>
    rw [duplicates, List.append_eq_nil_iff] at h
    obtain ⟨hseen, hnodup⟩ := ih h.2
    have hx : key x ∉ seen := by
      intro hmem
      rw [if_pos hmem] at h
      cases h.1
    refine ⟨?_, ?_⟩
    · intro y hy
      rcases List.mem_cons.mp hy with rfl | hy
      · exact hx
      · exact fun hmem => hseen y hy (List.mem_cons_of_mem _ hmem)
    · rw [List.map_cons, List.nodup_cons]
      refine ⟨fun hmem => ?_, hnodup⟩
      obtain ⟨y, hy, hkey⟩ := List.mem_map.mp hmem
      exact hseen y hy (hkey ▸ List.mem_cons_self)

theorem eq_of_key {α : Type*} (key : α → String) {report : α × ℕ → ManifestIssue} {xs : List α}
    (h : duplicates (fun entry => key entry.1) report [] xs.zipIdx = []) {x y : α} (hx : x ∈ xs)
    (hy : y ∈ xs) (hkey : key x = key y) : x = y := by
  have hnodup := (duplicates_nil h).2
  rw [show (fun entry : α × ℕ => key entry.1) = key ∘ Prod.fst from rfl, ← List.map_map,
    List.zipIdx_map_fst] at hnodup
  exact List.inj_on_of_nodup_map hnodup hx hy hkey

theorem zipIdx_nil {α : Type*} {f : α × ℕ → List ManifestIssue} {xs : List α}
    (h : xs.zipIdx.flatMap f = []) {x : α} (hx : x ∈ xs) : ∃ i, f (x, i) = [] := by
  obtain ⟨i, hi⟩ := List.mem_iff_getElem?.mp hx
  exact ⟨i, List.flatMap_eq_nil_iff.mp h _ (List.mk_mem_zipIdx_iff_getElem?.mpr hi)⟩

theorem mem_tables {s : SchemaDefinition} {t : TableDefinition} :
    t ∈ s.tables ↔ .table t ∈ s.resources := by
  unfold SchemaDefinition.tables
  rw [List.mem_filterMap]
  constructor
  · rintro ⟨r, hr, hsome⟩
    cases r <;> cases hsome
    exact hr
  · intro h
    exact ⟨_, h, rfl⟩

section Accepted

variable {m : MetadataManifest} (h : validateManifestDocument m = [])
include h

theorem schema_eq {s s' : SchemaDefinition} (hs : s ∈ m.schemas) (hs' : s' ∈ m.schemas)
    (hname : s.name = s'.name) : s = s' := by
  rw [validateManifestDocument, List.append_eq_nil_iff, List.append_eq_nil_iff] at h
  exact eq_of_key (fun s : SchemaDefinition => asciiLower s.name) h.1.2 hs hs' (by rw [hname])

theorem schema_accepted {s : SchemaDefinition} (hs : s ∈ m.schemas) :
    ∃ p, validateSchema s p = [] := by
  rw [validateManifestDocument, List.append_eq_nil_iff, List.append_eq_nil_iff,
    List.append_eq_nil_iff] at h
  obtain ⟨i, hi⟩ := zipIdx_nil h.1.1.2 hs
  exact ⟨_, hi⟩

theorem resource_eq {s : SchemaDefinition} (hs : s ∈ m.schemas) {r r' : ResourceDefinition}
    (hr : r ∈ s.resources) (hr' : r' ∈ s.resources) (hspace : r.space = r'.space)
    (hname : r.name = r'.name) : r = r' := by
  obtain ⟨p, hp⟩ := schema_accepted h hs
  rw [validateSchema, List.append_eq_nil_iff] at hp
  exact eq_of_key (fun r => r.space ++ ":" ++ r.name) hp.2 hr hr' (by rw [hspace, hname])

theorem resource_accepted {s : SchemaDefinition} (hs : s ∈ m.schemas) {r : ResourceDefinition}
    (hr : r ∈ s.resources) : ∃ p, validateResource s.enumNames r p = [] := by
  obtain ⟨p, hp⟩ := schema_accepted h hs
  rw [validateSchema, List.append_eq_nil_iff, List.append_eq_nil_iff] at hp
  obtain ⟨i, hi⟩ := zipIdx_nil hp.1.2 hr
  exact ⟨_, hi⟩

theorem table_accepted {s : SchemaDefinition} (hs : s ∈ m.schemas) {t : TableDefinition}
    (ht : t ∈ s.tables) : ∃ p, validateTable s.enumNames t p = [] := by
  obtain ⟨p, hp⟩ := resource_accepted h hs (mem_tables.mp ht)
  rw [validateResource, List.append_eq_nil_iff] at hp
  exact ⟨p, hp.2⟩

theorem table_eq {s : SchemaDefinition} (hs : s ∈ m.schemas) {t t' : TableDefinition}
    (ht : t ∈ s.tables) (ht' : t' ∈ s.tables) (hname : t.name = t'.name) : t = t' :=
  ResourceDefinition.table.inj
    (resource_eq h hs (mem_tables.mp ht) (mem_tables.mp ht') rfl hname)

theorem column_eq {s : SchemaDefinition} (hs : s ∈ m.schemas) {t : TableDefinition}
    (ht : t ∈ s.tables) {c c' : ColumnDefinition} (hc : c ∈ t.columns) (hc' : c' ∈ t.columns)
    (hname : c.name = c'.name) : c = c' := by
  obtain ⟨p, hp⟩ := table_accepted h hs ht
  rw [validateTable, List.append_eq_nil_iff] at hp
  exact eq_of_key ColumnDefinition.name hp.2 hc hc' hname

theorem column_ref {s : SchemaDefinition} (hs : s ∈ m.schemas) {t : TableDefinition}
    (ht : t ∈ s.tables) {c : ColumnDefinition} (hc : c ∈ t.columns)
    (hplaceholder : isEnumPlaceholder c.type = true) :
    ∃ ref, c.ref = some ref ∧ ref ∈ s.enumNames ∧ ref ≠ "" := by
  obtain ⟨p, hp⟩ := table_accepted h hs ht
  rw [validateTable, List.append_eq_nil_iff, List.append_eq_nil_iff] at hp
  obtain ⟨i, hi⟩ := zipIdx_nil hp.1.2 hc
  simp only [validateColumn, List.append_eq_nil_iff, if_pos hplaceholder] at hi
  cases href : c.ref with
  | none =>
    rw [href] at hi
    cases hi.1.1.2
  | some ref =>
    rw [href] at hi
    refine ⟨ref, rfl, ?_, ?_⟩
    · have hissue := hi.1.1.2
      by_contra hmem
      simp [issue, hmem] at hissue
    · rintro rfl
      cases hi.1.2

end Accepted

end DataFabric.Manifests
