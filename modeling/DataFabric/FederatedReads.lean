import DataFabric.AccessPolicies
import DataFabric.FederatedJoins

set_option autoImplicit false

/-!
# The read paths of a query

Every row a query combines keeps the leg rows it is made of, so that what
reaches the caller can be traced to the path it was read by. Checks that only
refuse a query, warnings and traces are left out, and so are the projection of
joined rows and the aggregates, whose rows are rows of no table. A view, a
recursive level and the base of a window enter as `derived`.
-/
namespace DataFabric.FederatedReads
open CharText JsValues OrderedRecords KeyedJoins AstGuard CanonicalFilters AccessPolicies
open FederatedJoins

def localSource : String := "Fabric_Hub_Postgres"

structure TableRef where
  source : String
  resource : String
  deriving DecidableEq

/-- What `connFingerprint` reads of a configuration, empty where a field is missing. -/
structure ConnectionConfig where
  connection : String := ""
  host : String := ""
  port : String := ""
  database : String := ""
  deriving DecidableEq

structure ResolvedLeg where
  source : String
  resource : String
  engine : String
  syncType : String
  reachableInPg : Bool
  physicalSchema : String
  physicalTable : String
  config : ConnectionConfig := {}
  deriving DecidableEq

def orElse (a b : String) : String := if a = "" then b else a

def useLocal (leg : ResolvedLeg) : Bool :=
  leg.source = localSource || leg.syncType = "SYNC" || leg.syncType = "CDC"

inductive ReadPath
  | hub | single | driving | bind | broadcast | setOpLeg | colocatedSql | colocatedMongo | clientStream
  deriving DecidableEq, Repr

/-- A leg row: as the source holds it, as the source returned it and as it is handed on. -/
structure Delivered where
  path : ReadPath
  leg : ResolvedLeg
  raw : Row
  fetched : Row
  row : Row

structure TaggedRow where
  values : JoinedRow
  parts : List Delivered

inductive Failure
  | gate (e : GateError)
  | notFound
  | connector
  | unsupported

structure SortKey where
  column : String
  descending : Bool
  deriving DecidableEq

inductive SelectItem
  | all
  | column (name : String)
  | aliased (column aliasName : String)
  deriving DecidableEq

structure Scan where
  table : TableRef
  aliasName : String := ""
  select : List SelectItem := []
  wheres : List WhereEntry := []
  orderBy : List SortKey := []
  limit : Option ℕ := none
  offset : Option ℕ := none

inductive JoinKind
  | inner | left | right | full | other
  deriving DecidableEq

structure OnClause where
  left : String
  operator : JsValue := .undefined
  right : String

structure JoinEntry where
  table : TableRef
  aliasName : String
  kind : JoinKind
  on : OnClause

inductive SetOp
  | union | intersect | except
  deriving DecidableEq

inductive Ast
  | scan (s : Scan)
  | join (s : Scan) (first : JoinEntry) (rest : List JoinEntry)
  | setOp (op : SetOp) (legs : List Scan) (orderBy : List SortKey) (limit offset : Option ℕ)
  | derived (inner : Ast) (limit : Option ℕ)

/-- A request of a client, that asks for a stream or for the whole result. -/
structure Request where
  ast : Ast
  stream : Bool

/-- The rules and the caller; `testMode` is `NODE_ENV === 'test'`. -/
structure Setup where
  gates : Gates
  session : SessionCtx
  testMode : Bool

/-- The catalog, the sources and the language's comparisons. A sort is any order the rows are
read in, so that it stands for the partitions of a set operation too. -/
structure Fabric where
  tenantSchema : String
  resolveLeg : TableRef → Except Failure ResolvedLeg
  contents : ResolvedLeg → List Row
  online : ResolvedLeg → Bool
  coerce : ResolvedLeg → Row → Row
  meets : Meets
  sourceSort : List SortKey → List Row → List Row
  sourceSort_perm : ∀ ks rows, (sourceSort ks rows).Perm rows
  fabricSort : List SortKey → List TaggedRow → List TaggedRow
  fabricSort_perm : ∀ ks rows, (fabricSort ks rows).Perm rows
  whereHolds : WhereEntry → JoinedRow → Bool
  evalOn : String → JsValue → JsValue → Bool
  legFilters : List WhereEntry → String → CanonicalFilter
  legColumns : String → Option (List String)
  cards : Cards
  maxRowsPerLeg : ℕ
  bindMax : ℕ
  broadcastMax : ℚ

def keyOf (f : Fabric) (leg : ResolvedLeg) : TableKey :=
  ⟨orElse leg.physicalSchema f.tenantSchema, orElse leg.physicalTable leg.resource⟩

structure CanonicalQuery where
  filter : CanonicalFilter := .empty
  select : Option (List String) := none
  orderBy : List SortKey := []
  limit : Option ℕ := none
  offset : Option ℕ := none

/-- The columns of a select list without `*`, by their source names. -/
def plainColumns (items : List SelectItem) : Option (List String) :=
  if items = [] ∨ .all ∈ items then none
  else some (items.filterMap fun
    | .all => none
    | .column name => some name
    | .aliased column _ => some column)

def toCanonical (p : FilterPath) (s : Scan) : CanonicalQuery where
  filter := (canonicalFilter p s.wheres).getD .empty
  select := plainColumns s.select
  orderBy := s.orderBy
  limit := s.limit
  offset := s.offset

def project (cols : Option (List String)) (r : Row) : Row :=
  match cols with
  | none => r
  | some cs => ⟨r.entries.filter fun e => e.1 ∈ cs,
      r.distinct.sublist (List.filter_sublist.map Prod.fst)⟩

def window {α : Type} (offset limit : Option ℕ) (rows : List α) : List α :=
  match limit with
  | none => rows.drop (offset.getD 0)
  | some n => (rows.drop (offset.getD 0)).take n

theorem mem_of_mem_window {α : Type} {offset limit : Option ℕ} {rows : List α} {r : α}
    (h : r ∈ window offset limit rows) : r ∈ rows := by
  unfold window at h
  split at h
  · exact List.mem_of_mem_drop h
  · exact List.mem_of_mem_drop (List.mem_of_mem_take h)

/-- A source answers with the rows that meet the filter, in the asked order and window. -/
def sourceRows (f : Fabric) (leg : ResolvedLeg) (c : CanonicalQuery) : List Row :=
  window c.offset c.limit (f.sourceSort c.orderBy ((f.contents leg).filter (satisfies f.meets c.filter)))

def asReturned (p : ReadPath) (leg : ResolvedLeg) (cols : Option (List String)) (rows : List Row) :
    List Delivered :=
  rows.map fun r => ⟨p, leg, r, project cols r, project cols r⟩

def liftGate {α : Type} (x : Except GateError α) : Except Failure α := x.mapError .gate

def readConnector (f : Fabric) (leg : ResolvedLeg) (c : CanonicalQuery) : Except Failure (List Row) :=
  if f.online leg then .ok (sourceRows f leg c) else .error .connector

def policyOrNone (s : Setup) (key : TableKey) : Resolved :=
  match resolve s.gates s.session key with
  | .ok pol => pol
  | .error _ => ⟨.empty, []⟩

def bounded (f : Fabric) (c : CanonicalQuery) : CanonicalQuery :=
  { c with limit := some (min f.maxRowsPerLeg (c.limit.getD f.maxRowsPerLeg)) }

def withPolicy (fragment : CanonicalFilter) (c : CanonicalQuery) : CanonicalQuery :=
  { c with filter := mergeIntoFilter c.filter fragment }

def coerceRow (f : Fabric) (leg : ResolvedLeg) (r : Row) : Row :=
  if leg.engine = "MONGODB" then f.coerce leg r else r

def maskedRow (f : Fabric) (p : ReadPath) (leg : ResolvedLeg) (cols : Option (List String))
    (masks : List MaskRule) (r : Row) : Delivered :=
  ⟨p, leg, r, coerceRow f leg (project cols r), applyMasks masks (coerceRow f leg (project cols r))⟩

def fetchLegDirect (s : Setup) (f : Fabric) (p : ReadPath) (leg : ResolvedLeg) (c : CanonicalQuery) :
    Except Failure (List Delivered) :=
  if useLocal leg then .ok (asReturned p leg c.select (sourceRows f leg (bounded f c)))
  else do
    liftGate (enforce s.gates s.session (keyOf f leg) "SELECT")
    let rows ← readConnector f leg (withPolicy (policyOrNone s (keyOf f leg)).filter (bounded f c))
    .ok (rows.map (maskedRow f p leg c.select (policyOrNone s (keyOf f leg)).masks))

/-- Under test the leg is fetched directly; otherwise its cursor is read as it is. -/
def fetchLegStream (s : Setup) (f : Fabric) (p : ReadPath) (leg : ResolvedLeg) (c : CanonicalQuery) :
    Except Failure (List Delivered) :=
  if s.testMode then fetchLegDirect s f p leg c
  else if useLocal leg then .ok (asReturned p leg c.select (sourceRows f leg c))
  else (readConnector f leg c).map (asReturned p leg c.select)

structure FedLeg where
  aliasName : String
  table : TableRef
  kind : JoinKind
  on : Option OnClause

def operatorOf (on : OnClause) : String :=
  upperCase (if on.operator.truthy then on.operator.text else "EQ")

def isEquiJoin (on : OnClause) : Bool := operatorOf on = "EQ" || operatorOf on = "="

def OnClause.toJoinOn (on : OnClause) : JoinOn := ⟨on.left, on.right⟩

def onHolds (f : Fabric) (on : OnClause) (l r : JoinedRow) : Bool :=
  if isEquiJoin on then matchesOn on.toJoinOn l r
  else f.evalOn (operatorOf on) (l.read on.left) (r.read on.right)

def qualifyAll (aliasName : String) (ds : List Delivered) : List TaggedRow :=
  ds.map fun d => ⟨qualify aliasName d.row, [d]⟩

def mergeTagged (l r : TaggedRow) : TaggedRow := ⟨mergeRow l.values r.values, l.parts ++ r.parts⟩

/-- The merged matches of one left row, or the row itself where unmatched rows are kept. -/
def matchesOf (holds : JoinedRow → JoinedRow → Bool) (keepUnmatched : Bool) (right : List TaggedRow)
    (l : TaggedRow) : List TaggedRow :=
  match right.filter fun r => holds l.values r.values with
  | [] => if keepUnmatched then [l] else []
  | ms => ms.map (mergeTagged l)

def mergeTaggedJoin (holds : JoinedRow → JoinedRow → Bool) (left right : List TaggedRow)
    (keepUnmatched : Bool) : List TaggedRow := left.flatMap (matchesOf holds keepUnmatched right)

def canBind (leg : FedLeg) (on : OnClause) : Bool := isEquiJoin on && leg.kind ≠ .other

def withKeys (filter : CanonicalFilter) (col : String) (keys : List JsValue) : CanonicalFilter :=
  filter.assign col (Record.empty.assign .inList (.arr keys))

def fetchBatch (s : Setup) (f : Fabric) (wheres : List WhereEntry) (leg : FedLeg) (resolved : ResolvedLeg)
    (on : OnClause) (keys : List JsValue) : Except Failure (List Delivered) :=
  fetchLegDirect s f .bind resolved
    { filter := withKeys (f.legFilters wheres leg.aliasName) (baseColumn on.right) keys
      select := f.legColumns leg.aliasName }

/-- The right side of one join: by the keys of the left one where it can be bound. -/
def fetchRight (s : Setup) (f : Fabric) (wheres : List WhereEntry) (acc : List TaggedRow) (leg : FedLeg)
    (resolved : ResolvedLeg) (on : OnClause) : Except Failure (List Delivered) :=
  if canBind leg on then
    ((chunk f.bindMax (bindKeys (acc.map TaggedRow.values) on.toJoinOn)).mapM
      (fetchBatch s f wheres leg resolved on)).map List.flatten
  else fetchLegDirect s f .bind resolved
    { filter := f.legFilters wheres leg.aliasName, select := f.legColumns leg.aliasName }

def joinOne (s : Setup) (f : Fabric) (wheres : List WhereEntry) (acc : List TaggedRow) (leg : FedLeg) :
    Except Failure (List TaggedRow) :=
  match leg.on with
  | none => .ok acc
  | some on => do
    let resolved ← f.resolveLeg leg.table
    let right ← fetchRight s f wheres acc leg resolved on
    .ok (mergeTaggedJoin (onHolds f on) acc (qualifyAll leg.aliasName right) (leg.kind = .left))

def joinWindow (s : Setup) (f : Fabric) (wheres : List WhereEntry) (driving : FedLeg) (rest : List FedLeg)
    (rows : List Delivered) : Except Failure (List TaggedRow) :=
  rest.foldlM (joinOne s f wheres) (qualifyAll driving.aliasName rows)

/-- The windows of the driving leg one after the other; a full window over the cap ends the join,
the last one is cut at it. -/
def joinWindows (s : Setup) (f : Fabric) (wheres : List WhereEntry) (driving : FedLeg)
    (rest : List FedLeg) (acc : List TaggedRow) : List (List Delivered) → Except Failure (List TaggedRow)
  | [] => .ok acc
  | w :: ws => do
    let joined ← joinWindow s f wheres driving rest w
    if w.length < windowSize then .ok ((acc ++ joined).take f.maxRowsPerLeg)
    else if f.maxRowsPerLeg ≤ (acc ++ joined).length then .ok (acc ++ joined)
    else joinWindows s f wheres driving rest (acc ++ joined) ws

def applyWhere (f : Fabric) (wheres : List WhereEntry) (rows : List TaggedRow) : List TaggedRow :=
  rows.filter fun r => wheres.all fun w => !w.column.truthy || f.whereHolds w r.values

def isInnerEqui (leg : FedLeg) : Bool :=
  match leg.on with
  | none => true
  | some on => leg.kind = .inner && isEquiJoin on

def FedLeg.meta (leg : FedLeg) : LegMeta := ⟨leg.aliasName, leg.on.map OnClause.toJoinOn⟩

def OnClause.flip (on : OnClause) : OnClause := ⟨on.right, on.operator, on.left⟩

def swapLegs (k : ℕ) (legs : List FedLeg) : List FedLeg :=
  match legs, legs[k]? with
  | from' :: _, some chosen =>
    match chosen.on with
    | none => legs
    | some on =>
      (legs.set 0 { chosen with kind := .inner, on := none }).set k
        { from' with kind := .inner, on := some on.flip }
  | _, _ => legs

def reorder (f : Fabric) (legs : List FedLeg) : List FedLeg :=
  if legs.all isInnerEqui then swapLegs (drivingIndex f.cards (legs.map FedLeg.meta)) legs else legs

def isSmallLeg (f : Fabric) (leg : FedLeg) : Bool :=
  match f.cards leg.aliasName with
  | none => false
  | some c => c ≤ f.broadcastMax

def fetchWhole (s : Setup) (f : Fabric) (wheres : List WhereEntry) (leg : FedLeg) :
    Except Failure (List TaggedRow) := do
  let resolved ← f.resolveLeg leg.table
  let rows ← fetchLegDirect s f .broadcast resolved
    { filter := f.legFilters wheres leg.aliasName, select := f.legColumns leg.aliasName }
  .ok (qualifyAll leg.aliasName rows)

def broadcastLegs (s : Setup) (f : Fabric) (wheres : List WhereEntry) (a0 a1 : FedLeg) (on : OnClause) :
    Except Failure (List TaggedRow) := do
  let r0 ← fetchWhole s f wheres a0
  let r1 ← fetchWhole s f wheres a1
  .ok (mergeTaggedJoin (matchesOn on.toJoinOn) r0 r1 false)

def bindLegs (s : Setup) (f : Fabric) (wheres : List WhereEntry) (driving : FedLeg)
    (rest : List FedLeg) : Except Failure (List TaggedRow) := do
  let resolved ← f.resolveLeg driving.table
  let rows ← fetchLegStream s f .driving resolved { filter := f.legFilters wheres driving.aliasName }
  joinWindows s f wheres driving rest [] (chunk windowSize rows)

def joinLegs (s : Setup) (f : Fabric) (wheres : List WhereEntry) : List FedLeg →
    Except Failure (List TaggedRow)
  | [a0, ⟨name, table, .inner, some on⟩] =>
    let a1 : FedLeg := ⟨name, table, .inner, some on⟩
    if isEquiJoin on && isSmallLeg f a0 && isSmallLeg f a1 then broadcastLegs s f wheres a0 a1 on
    else bindLegs s f wheres a0 [a1]
  | driving :: rest => bindLegs s f wheres driving rest
  | [] => .ok []

def fromLeg (sc : Scan) : FedLeg := ⟨orElse sc.aliasName sc.table.resource, sc.table, .inner, none⟩

def entryLeg (j : JoinEntry) : FedLeg := ⟨orElse j.aliasName j.table.resource, j.table, j.kind, some j.on⟩

def executeJoin (s : Setup) (f : Fabric) (sc : Scan) (joins : List JoinEntry) :
    Except Failure (List TaggedRow) :=
  (joinLegs s f sc.wheres (reorder f (fromLeg sc :: joins.map entryLeg))).map (applyWhere f sc.wheres)

def readBase (r : Row) (key base : String) : JsValue :=
  match (r.get? key).getD .undefined with
  | .undefined => (r.get? base).getD .undefined
  | v => v

def projectItem (r out : Row) : SelectItem → Row
  | .all => out
  | .column name => out.assign (baseColumn name) (readBase r (baseColumn name) (baseColumn name))
  | .aliased column aliasName => out.assign aliasName (readBase r aliasName (baseColumn column))

def projectRowToAlias (items : List SelectItem) (r : Row) : Row :=
  if items = [] ∨ .all ∈ items then r else items.foldl (projectItem r) .empty

/-- The distinct rows of the first list that the operation keeps. -/
def combine (op : SetOp) (legs : List (List Row)) : List Row :=
  match op, legs with
  | _, [] => []
  | .union, _ => legs.flatten.eraseDups
  | .intersect, first :: others => (first.filter fun r => others.all fun o => r ∈ o).eraseDups
  | .except, first :: others => (first.filter fun r => others.all fun o => r ∉ o).eraseDups

/-- A row of the result with all the leg rows of that value. -/
def tagValue (legs : List (List SelectItem × List Delivered)) (v : Row) : TaggedRow :=
  ⟨v.get?, legs.flatMap fun leg => leg.2.filter fun d => projectRowToAlias leg.1 d.row = v⟩

def combineTagged (op : SetOp) (legs : List (List SelectItem × List Delivered)) : List TaggedRow :=
  (combine op (legs.map fun leg => leg.2.map fun d => projectRowToAlias leg.1 d.row)).map (tagValue legs)

def outerLimit (limit : Option ℕ) : Option ℕ := limit.filter (0 < ·)

def setOpCap (f : Fabric) (limit : Option ℕ) : ℕ :=
  if f.maxRowsPerLeg = 50000 then (outerLimit limit).getD 10000000 else f.maxRowsPerLeg

def fetchSetLeg (s : Setup) (f : Fabric) (cap : ℕ) (leg : Scan) :
    Except Failure (List SelectItem × List Delivered) := do
  let resolved ← f.resolveLeg leg.table
  let rows ← fetchLegStream s f .setOpLeg resolved (toCanonical .federated leg)
  .ok (leg.select, rows.take cap)

def applyOrderLimit (f : Fabric) (orderBy : List SortKey) (limit offset : Option ℕ)
    (rows : List TaggedRow) : List TaggedRow := window offset limit (f.fabricSort orderBy rows)

def executeSetOp (s : Setup) (f : Fabric) (op : SetOp) (legs : List Scan) (orderBy : List SortKey)
    (limit offset : Option ℕ) : Except Failure (List TaggedRow) := do
  let fetched ← legs.mapM (fetchSetLeg s f (setOpCap f limit))
  .ok (applyOrderLimit f orderBy limit offset (combineTagged op fetched))

def singleRow (d : Delivered) : TaggedRow := ⟨d.row.get?, [d]⟩

def executeScan (s : Setup) (f : Fabric) (sc : Scan) : Except Failure (List TaggedRow) := do
  let resolved ← f.resolveLeg sc.table
  let rows ← fetchLegDirect s f .single resolved (toCanonical .federated sc)
  .ok (f.fabricSort sc.orderBy (rows.map singleRow))

def federate (s : Setup) (f : Fabric) : Ast → Except Failure (List TaggedRow)
  | .scan sc => executeScan s f sc
  | .join sc first rest =>
    (executeJoin s f sc (first :: rest)).map (applyOrderLimit f sc.orderBy sc.limit sc.offset)
  | .setOp op legs orderBy limit offset => executeSetOp s f op legs orderBy limit offset
  | .derived _ _ => .error .unsupported

/-- What an engine answers to the whole statement: the joins and set operations of SQL over the
rows it holds. -/
def nativeScan (f : Fabric) (p : ReadPath) (table : TableRef) : Except Failure (List Delivered) := do
  let leg ← f.resolveLeg table
  .ok (asReturned p leg none (f.contents leg))

/-- A `$lookup` compares for equality whatever the operator. -/
def nativeHolds (f : Fabric) (p : ReadPath) (on : OnClause) (l r : JoinedRow) : Bool :=
  if p = .colocatedMongo then matchesOn on.toJoinOn l r else onHolds f on l r

def nativeJoin (f : Fabric) (p : ReadPath) (acc : List TaggedRow) (leg : FedLeg) :
    Except Failure (List TaggedRow) :=
  match leg.on with
  | none => .ok acc
  | some on => do
    let right ← nativeScan f p leg.table
    .ok (mergeTaggedJoin (nativeHolds f p on) acc (qualifyAll leg.aliasName right) (leg.kind = .left))

def nativeSetLeg (f : Fabric) (p : ReadPath) (leg : Scan) :
    Except Failure (List SelectItem × List Delivered) := do
  let rows ← nativeScan f p leg.table
  .ok (leg.select, rows.filter fun d => leg.wheres.all fun w => f.whereHolds w d.row.get?)

def nativeSetOp (f : Fabric) (p : ReadPath) (op : SetOp) (legs : List Scan) (orderBy : List SortKey)
    (limit offset : Option ℕ) : Except Failure (List TaggedRow) :=
  if p = .colocatedMongo then .error .unsupported
  else do
    let fetched ← legs.mapM (nativeSetLeg f p)
    .ok (applyOrderLimit f orderBy limit offset (combineTagged op fetched))

def nativeRows (f : Fabric) (p : ReadPath) : Ast → Except Failure (List TaggedRow)
  | .scan sc => do
    let rows ← nativeScan f p sc.table
    .ok (applyOrderLimit f sc.orderBy sc.limit sc.offset (applyWhere f sc.wheres (rows.map singleRow)))
  | .join sc first rest => do
    let rows ← nativeScan f p sc.table
    let joined ← ((first :: rest).map entryLeg).foldlM (nativeJoin f p)
      (qualifyAll (fromLeg sc).aliasName rows)
    .ok (applyOrderLimit f sc.orderBy sc.limit sc.offset (applyWhere f sc.wheres joined))
  | .setOp op legs orderBy limit offset => nativeSetOp f p op legs orderBy limit offset
  | .derived _ _ => .error .unsupported

def collectRefs : Ast → List TableRef
  | .scan sc => [sc.table]
  | .join sc first rest => sc.table :: (first :: rest).map JoinEntry.table
  | .setOp _ legs _ _ _ => legs.map Scan.table
  | .derived inner _ => collectRefs inner

def normEngine (engine : String) : String :=
  let e := upperCase engine
  if e = "POSTGRESQL" ∨ e = "PG" then "POSTGRES"
  else if e = "ORACLEDB" then "ORACLE"
  else if e = "MARIADB" then "MYSQL"
  else e

def sqlRelational : List String := ["POSTGRES", "MYSQL", "ORACLE", "SNOWFLAKE"]

def connFingerprint (leg : ResolvedLeg) : String :=
  if leg.config.connection ≠ "" then
    normEngine leg.engine ++ "|" ++ asciiLower (trim leg.config.connection)
  else
    normEngine leg.engine ++ "|" ++ asciiLower leg.config.host ++ ":" ++ leg.config.port ++ "/" ++
      asciiLower leg.config.database

/-- Every leg is a connector's and all of them lie in one database that can run the statement. -/
def coLocatable (legs : List ResolvedLeg) : Bool :=
  match legs with
  | [] => false
  | only :: _ =>
    legs.all (fun l => !l.reachableInPg && connFingerprint l = connFingerprint only &&
      normEngine l.engine = normEngine only.engine) &&
      (normEngine only.engine ∈ sqlRelational || normEngine only.engine = "MONGODB")

def combines : Ast → Bool
  | .join .. | .setOp .. => true
  | _ => false

def singleLocal (legs : List ResolvedLeg) : Bool :=
  legs.all ResolvedLeg.reachableInPg &&
    ((legs.filter (·.source ≠ localSource)).map ResolvedLeg.source).eraseDups.length ≤ 1

/-- The gate of a statement handed to one SQL database: grants of every table, and no policy. -/
def gateLeg (s : Setup) (f : Fabric) (leg : ResolvedLeg) : Except Failure Unit := do
  liftGate (enforce s.gates s.session (keyOf f leg) "SELECT")
  let pol ← liftGate (resolve s.gates s.session (keyOf f leg))
  if pol.filter.entries = [] ∧ pol.masks = [] then .ok () else .error .unsupported

def colocated (s : Setup) (f : Fabric) (legs : List ResolvedLeg) (ast : Ast) :
    Except Failure (List TaggedRow) := do
  match legs with
  | [] => .error .unsupported
  | only :: _ =>
    if !f.online only then .error .connector
    else if only.engine = "MONGODB" then nativeRows f .colocatedMongo ast
    else do
      legs.forM (gateLeg s f)
      nativeRows f .colocatedSql ast

/-- Any failure of the co-located statement falls back to the federation. -/
def executePlan (s : Setup) (f : Fabric) (legs : List ResolvedLeg) (ast : Ast) :
    Except Failure (List TaggedRow) :=
  if coLocatable legs && combines ast then
    match colocated s f legs ast with
    | .ok rows => .ok rows
    | .error _ => federate s f ast
  else if singleLocal legs then nativeRows f .hub ast
  else federate s f ast

def executeQuery (s : Setup) (f : Fabric) : Ast → Except Failure (List TaggedRow)
  | .derived inner limit => (executeQuery s f inner).map (window none (outerLimit limit))
  | ast => do
    let legs ← (collectRefs ast).eraseDups.mapM f.resolveLeg
    executePlan s f legs ast

def streamedEngines : List String :=
  ["POSTGRES", "MONGODB", "ELASTICSEARCH", "MYSQL", "SNOWFLAKE", "ORACLE", "ORACLEDB"]

/-- A scan of a connector's table has its cursor read as it is; any other query has none. -/
def tryStream (f : Fabric) : Ast → Option (Except Failure (List TaggedRow))
  | .scan sc =>
    match f.resolveLeg sc.table with
    | .error _ => none
    | .ok leg =>
      if !leg.reachableInPg && leg.engine ∈ streamedEngines then
        some ((readConnector f leg { toCanonical .stream sc with offset := none }).map fun rows =>
          (asReturned .clientStream leg (plainColumns sc.select) rows).map singleRow)
      else none
  | _ => none

def run (s : Setup) (f : Fabric) (q : Request) : Except Failure (List TaggedRow) :=
  match if q.stream then tryStream f q.ast else none with
  | some rows => rows
  | none => executeQuery s f q.ast

end DataFabric.FederatedReads
