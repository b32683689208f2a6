import DataFabric.CellRuns
import DataFabric.TenantIdentifiers
import Mathlib.Data.List.Nodup

set_option autoImplicit false

/-!
# Where the replicas of remote tables lie in the hub

Backfills and refreshes write a table of the hub whose name they compute from the names of the
remote table. The tenant's own tables lie where its manifests put them.
-/
namespace DataFabric.HubReplicas
open CharText JsValues TenantIdentifiers

def clip : ℕ → List Char → List Char
  | _, [] => []
  | n, c :: cs => if c.utf8Size ≤ n then c :: clip (n - c.utf8Size) cs else []

/-- The name PostgreSQL reads from `q(id)`: quotes are dropped, an empty name is refused, and a
long one is cut at 63 bytes. -/
def q (id : String) : Option String :=
  let name := keepOnly (· ≠ '"') id
  if name = "" ∨ containsChar '\x00' name then none else some (String.ofList (clip 63 name.toList))

def hubSchemaFor (tenantId schema : String) : String :=
  "tenant_" ++ keepOnly isWord tenantId ++ "_" ++ keepOnly isWord schema

/-- `String(s).replace(/[^\x20-\x7E]/g, '?')`, cut at `max` units. -/
def printable (s : String) (max : ℕ) : String :=
  let t := String.ofList (s.toList.flatMap fun c =>
    if 0x20 ≤ c.toNat ∧ c.toNat ≤ 0x7E then [c] else if c.toNat < 0x10000 then ['?'] else ['?', '?'])
  if max < t.toList.length then String.ofList (t.toList.take max) ++ "..." else t

def physicalSchemaName (tenantId : String) (logical : JsValue) : Except FabricError String := do
  let t ← assertTenantId (.str tenantId)
  let l ← assertIdent logical "schema name"
  let physical := "tenant_" ++ t ++ "_" ++ l
  if 63 < utf16Length physical || !belongsToTenant physical t then
    .error (.invalidRequest "CROSS_TENANT_SCHEMA"
      s!"Schema \"{printable l 40}\" cannot be mapped into the workspace namespace")
  else .ok physical

structure Column where
  name : String
  /-- What `canonicalType` makes of its type. -/
  type : String
  primaryKey : Bool

structure Discovered where
  name : String
  resourceType : Option String

structure Connector where
  discoverSchemas : List String
  discoverTables : String → List Discovered
  discoverColumns : String → String → List Column

inductive SyncType | VIRTUAL | SYNC | CDC
deriving DecidableEq

structure ManifestTable where
  schema : JsValue
  name : JsValue

structure Workspace where
  tenantId : String
  getSource : String → Option (SyncType × Connector)
  manifest : List ManifestTable

structure Remote where
  source : String
  schema : String
  table : String
deriving DecidableEq

def systemSchemas : List String :=
  ["information_schema", "performance_schema", "mysql", "sys", "admin", "config", "local",
    "pg_catalog", "fabric_cdc"]

/-- `(t.resourceType || 'TABLE') === 'TABLE' && !/^fabric_cdc/i.test(t.name)` -/
def Discovered.isTable (t : Discovered) : Bool :=
  t.resourceType ∈ [none, some "", some "TABLE"] && !startsWith (asciiLower t.name) "fabric_cdc"

variable (ws : Workspace)

def columns (x : Remote) : List Column :=
  match ws.getSource x.source with
  | some (_, connector) => connector.discoverColumns x.schema x.table
  | none => []

def Copied (x : Remote) : Prop :=
  ∃ syncType connector, ws.getSource x.source = some (syncType, connector) ∧ syncType ≠ .VIRTUAL ∧
    x.schema ∈ connector.discoverSchemas ∧ asciiLower x.schema ∉ systemSchemas ∧
    (∃ t ∈ connector.discoverTables x.schema, t.name = x.table ∧ t.isTable = true) ∧
    connector.discoverColumns x.schema x.table ≠ []

def target (x : Remote) : Option (String × String) := do
  let schema ← q (hubSchemaFor ws.tenantId x.schema)
  let table ← q x.table
  return (schema, table)

def createdAt (m : ManifestTable) : Except FabricError (String × String) := do
  let schema ← physicalSchemaName ws.tenantId m.schema
  let table ← assertIdent m.name "table name"
  return (schema, table)

section Tables

variable {ν : Type*} [DecidableEq ν]

structure Values (ν : Type*) where
  null : ν
  /-- A column of a type takes the value. -/
  fits : String → ν → Bool

structure Shape where
  columns : List (String × String)
  key : List String
deriving DecidableEq

/-- Rows of a table: every value fits, and the primary key is present and unique. -/
def Holdable (vs : Values ν) (shape : Shape) (rows : List (String → ν)) : Prop :=
  (∀ r ∈ rows, (∀ c ∈ shape.columns, vs.fits c.2 (r c.1) = true) ∧ ∀ k ∈ shape.key, r k ≠ vs.null) ∧
    (shape.key ≠ [] → (rows.map fun r => shape.key.map r).Nodup)

instance (vs : Values ν) (shape : Shape) (rows : List (String → ν)) :
    Decidable (Holdable vs shape rows) := by
  unfold Holdable
  infer_instance

omit [DecidableEq ν] in
theorem holdable_sublist {vs : Values ν} {shape : Shape} {rows rows' : List (String → ν)}
    (hsub : rows'.Sublist rows) (h : Holdable vs shape rows) : Holdable vs shape rows' :=
  ⟨fun r hr => h.1 r (hsub.subset hr), fun hkey => (h.2 hkey).sublist (hsub.map _)⟩

structure HubTable (vs : Values ν) where
  shape : Shape
  rows : List (String → ν)
  held : Holdable vs shape rows

variable (vs : Values ν)

def HubTable.empty (shape : Shape) : HubTable vs :=
  ⟨shape, [], fun _ hr => absurd hr List.not_mem_nil, fun _ => List.nodup_nil⟩

/-- The columns and the key of `CREATE TABLE`, which refuses unusable and repeated names. -/
def shapeOf (cols : List Column) : Option Shape := do
  let names ← cols.mapM fun c => (q c.name).map fun name => (name, c.type)
  let key ← (cols.filter (·.primaryKey)).mapM fun c => q c.name
  if (names.map Prod.fst).Nodup then some ⟨names, key⟩ else none

/-- The row of the hub for a row of the source, `NULL` in the columns the source lacks. -/
def place (cols : List Column) (row : String → ν) (name : String) : ν :=
  match cols.find? fun c => q c.name = some name with
  | some c => row c.name
  | none => vs.null

/-- The hub's table has the columns a statement names, none of them named twice. -/
def knows (shape : Shape) (cols : List Column) : Bool :=
  decide (cols.map fun c => q c.name).Nodup &&
    cols.all fun c => (q c.name).any (· ∈ shape.columns.map Prod.fst)

/-- A statement of a sync; rows map the names of the source's columns to values. -/
inductive Statement (ν : Type*)
  | dropTable
  | createTable (ifNotExists : Bool)
  | insert (rows : List (String → ν))
  | upsert (pk : String) (row : String → ν)
  | delete (pk : String) (value : ν)

/-- What a statement makes of the table it names; one that fails changes nothing. -/
def Statement.exec (cols : List Column) (s : Statement ν) (found : Option (HubTable vs)) :
    Option (HubTable vs) :=
  match s, found with
  | .dropTable, _ => none
  | .createTable _, none => (shapeOf cols).map (HubTable.empty vs)
  | .insert rows, some t =>
    let rows' := t.rows ++ rows.map (place vs cols)
    if h : Holdable vs t.shape rows' then
      if knows t.shape cols then some ⟨t.shape, rows', h⟩ else some t
    else some t
  -- `ON CONFLICT` asks for a unique constraint on exactly the column
  | .upsert pk row, some t =>
    let new := place vs cols row
    let merged (old : String → ν) (name : String) : ν :=
      if some name ∈ cols.map fun c => q c.name then new name else old name
    let hit (old : String → ν) : Bool := t.shape.key.all fun k => decide (old k = new k)
    let rows' := if t.rows.any hit then t.rows.map fun old => if hit old then merged old else old
      else t.rows ++ [new]
    if h : Holdable vs t.shape rows' then
      if knows t.shape cols && t.shape.key.map some = [q pk] then some ⟨t.shape, rows', h⟩ else some t
    else some t
  | .delete pk value, some t =>
    match t.shape.columns.find? fun c => some c.1 = q pk with
    | some c =>
      if vs.fits c.2 value && decide (value ≠ vs.null) then
        some ⟨t.shape, t.rows.filter fun r => r c.1 ≠ value, holdable_sublist List.filter_sublist t.held⟩
      else some t
    | none => some t
  | _, found => found

inductive Job (ν : Type*)
  /-- `copyTable` from the start, the rows as its statements cut them. -/
  | backfill (slices : List (List (String → ν)))
  /-- `copyTable` going on after a stop. -/
  | resume (pk : String) (rows : List (String → ν))
  /-- `_refreshCdc`: changed rows, and the keys of deleted ones. -/
  | refresh (pk : String) (changes : List ((String → ν) ⊕ ν))

def Job.statements : Job ν → List (Statement ν)
  | .backfill slices => .dropTable :: .createTable false :: slices.map .insert
  | .resume pk rows => .createTable true :: rows.map (.upsert pk)
  | .refresh pk changes => changes.map fun
    | .inl row => .upsert pk row
    | .inr value => .delete pk value

end Tables

section Runs

variable {ν : Type*} [DecidableEq ν] (vs : Values ν)

inductive Event
  /-- A statement of a backfill or refresh. -/
  | sync (x : Remote) (s : Statement ν)
  /-- The tenant changes a table of its own. -/
  | own (m : ManifestTable) (content : Option (HubTable vs))

def cell : Event vs → Option (String × String)
  | .sync x _ => target ws x
  | .own m _ => (createdAt ws m).toOption

def write : Event vs → Option (HubTable vs) → Option (HubTable vs)
  | .sync x s => s.exec vs (columns ws x)
  | .own _ content => fun _ => content

abbrev Hub := String × String → Option (HubTable vs)

def step (hub : Hub vs) (e : Event vs) : Hub vs := CellRuns.put (cell ws vs) (write ws vs) hub e

def run (hub : Hub vs) (es : List (Event vs)) : Hub vs :=
  CellRuns.putAll (cell ws vs) (write ws vs) hub es

/-- The statement belongs to a job of a table that is copied, the change to a table of a manifest. -/
def Event.Occurs : Event vs → Prop
  | .sync x s => Copied ws x ∧ ∃ job : Job ν, s ∈ job.statements
  | .own m _ => m ∈ ws.manifest

def statementsOf (x : Remote) (es : List (Event vs)) : List (Statement ν) :=
  es.filterMap fun
    | .sync y s => if y = x then some s else none
    | .own _ _ => none

def execAll (x : Remote) (found : Option (HubTable vs)) (ss : List (Statement ν)) :
    Option (HubTable vs) :=
  ss.foldl (fun d s => s.exec vs (columns ws x) d) found

def isSync : Event vs → Bool
  | .sync _ _ => true
  | .own _ _ => false

structure Isolated : Prop where
  /-- No statement touches the replica of another source. -/
  others : ∀ (hub : Hub vs) x s, (Event.sync x s).Occurs ws vs → ∀ y, Copied ws y →
    y.source ≠ x.source → ∀ l, target ws y = some l → step ws vs hub (.sync x s) l = hub l
  /-- No statement touches a table the tenant created. -/
  created : ∀ (hub : Hub vs) x s, (Event.sync x s).Occurs ws vs → ∀ m ∈ ws.manifest,
    ∀ l, createdAt ws m = .ok l → step ws vs hub (.sync x s) l = hub l
  /-- After any events a replica is what the syncs of its own table leave. -/
  alone : ∀ (hub : Hub vs) es, (∀ e ∈ es, e.Occurs ws vs) → ∀ x, Copied ws x →
    ∀ l, target ws x = some l → run ws vs hub es l = execAll ws vs x (hub l) (statementsOf vs x es)
  /-- After any events a table of a manifest is what the tenant's own changes leave. -/
  kept : ∀ (hub : Hub vs) es, (∀ e ∈ es, e.Occurs ws vs) → ∀ m ∈ ws.manifest,
    ∀ l, createdAt ws m = .ok l → run ws vs hub es l = run ws vs hub (es.filter (!isSync vs ·)) l
  /-- A replica whose last sync was a whole backfill holds the rows of its source. -/
  holds : ∀ (hub : Hub vs) es, (∀ e ∈ es, e.Occurs ws vs) → ∀ x, Copied ws x →
    ∀ l, target ws x = some l → ∀ earlier slices,
      statementsOf vs x es = earlier ++ (Job.backfill slices).statements →
      ∀ shape, shapeOf (columns ws x) = some shape →
        Holdable vs shape (slices.flatten.map (place vs (columns ws x))) →
        ∃ t, run ws vs hub es l = some t ∧ t.shape = shape ∧
          t.rows = slices.flatten.map (place vs (columns ws x))

/-- No two remote tables, and no remote table and table of a manifest, have one hub table. -/
structure Apart : Prop where
  remotes : ∀ x y, Copied ws x → Copied ws y → ∀ l, target ws x = some l → target ws y = some l → x = y
  manifests : ∀ x, Copied ws x → ∀ m ∈ ws.manifest, ∀ l, target ws x = some l → createdAt ws m ≠ .ok l

variable {ws vs} {x y : Remote} {m : ManifestTable} {l : String × String} {hub : Hub vs} {es : List (Event vs)}

theorem run_statements (hown : ∀ e ∈ es, cell ws vs e = some l → ∃ s, e = .sync x s)
    (hl : target ws x = some l) :
    run ws vs hub es l = execAll ws vs x (hub l) (statementsOf vs x es) := by
  unfold run
  induction es generalizing hub with
  | nil => rfl
  | cons e es ih =>
    rw [CellRuns.putAll_cons, ih fun f hf => hown f (List.mem_cons_of_mem e hf)]
    by_cases hcell : cell ws vs e = some l
    · obtain ⟨s, rfl⟩ := hown e List.mem_cons_self hcell
      have hstatements : statementsOf vs x (.sync x s :: es) = s :: statementsOf vs x es :=
        List.filterMap_cons_some (if_pos rfl)
      rw [CellRuns.put_same hcell, hstatements]
      rfl
    · have hstatements : statementsOf vs x (e :: es) = statementsOf vs x es := by
        refine List.filterMap_cons_none ?_
        cases e with
        | own m content => rfl
        | sync y s =>
          refine if_neg ?_
          rintro rfl
          exact hcell hl
      rw [CellRuns.put_other hcell, hstatements]

theorem insert_slices (cols : List Column) {shape : Shape} (hknows : knows shape cols = true)
    {slices : List (List (String → ν))} {t : HubTable vs} (hshape : t.shape = shape)
    (hheld : Holdable vs shape (t.rows ++ slices.flatten.map (place vs cols))) :
    ∃ t' : HubTable vs, (slices.map Statement.insert).foldl (fun d s => s.exec vs cols d) (some t) = some t' ∧
      t'.shape = shape ∧ t'.rows = t.rows ++ slices.flatten.map (place vs cols) := by
  induction slices generalizing t with
  | nil => exact ⟨t, rfl, hshape, by simp⟩
  | cons slice slices ih =>
    rw [List.flatten_cons, List.map_append, ← List.append_assoc] at hheld
    have hfirst : Holdable vs t.shape (t.rows ++ slice.map (place vs cols)) :=
      hshape ▸ holdable_sublist (List.sublist_append_left _ _) hheld
    obtain ⟨t', hrun, hshape', hrows⟩ := @ih ⟨t.shape, _, hfirst⟩ hshape hheld
    refine ⟨t', ?_, hshape', by rw [hrows]; simp⟩
    have hstep : (Statement.insert slice).exec vs cols (some t) = some ⟨t.shape, _, hfirst⟩ := by
      have hknows' : knows t.shape cols = true := hshape ▸ hknows
      unfold Statement.exec
      simp only [hfirst, dif_pos, hknows', if_true]
    rw [List.map_cons, List.foldl_cons, hstep]
    exact hrun

theorem shapeOf_names {cols : List Column} {shape : Shape} (h : shapeOf cols = some shape) :
    (cols.map fun c => q c.name) = shape.columns.map (some ∘ Prod.fst) ∧
      (shape.columns.map Prod.fst).Nodup := by
  unfold shapeOf at h
  simp only [Option.bind_eq_bind, Option.bind_eq_some_iff, Option.ite_none_right_eq_some,
    Option.some.injEq] at h
  obtain ⟨names, hnames, key, -, hnodup, rfl⟩ := h
  refine ⟨?_, hnodup⟩
  clear hnodup
  induction cols generalizing names with
  | nil => simpa using hnames
  | cons c cols ih =>
    rw [List.mapM_cons] at hnames
    simp only [Option.bind_eq_bind, Option.bind_eq_some_iff, Option.map_eq_some_iff] at hnames
    obtain ⟨_, ⟨name, hname, rfl⟩, rest, hrest, hcons⟩ := hnames
    obtain rfl := Option.some.inj hcons
    rw [List.map_cons, List.map_cons, hname, ih rest hrest]
    rfl

theorem shapeOf_knows {cols : List Column} {shape : Shape} (h : shapeOf cols = some shape) :
    knows shape cols = true := by
  obtain ⟨hnames, hnodup⟩ := shapeOf_names h
  unfold knows
  rw [Bool.and_eq_true, decide_eq_true_eq, List.all_eq_true, hnames, ← List.map_map]
  refine ⟨hnodup.map fun _ _ => Option.some.inj, fun c hc => ?_⟩
  have hmem : q c.name ∈ cols.map fun c => q c.name := List.mem_map_of_mem hc
  rw [hnames, List.mem_map] at hmem
  obtain ⟨column, hcolumn, heq⟩ := hmem
  rw [← heq]
  exact decide_eq_true (List.mem_map_of_mem hcolumn)

theorem execAll_backfill {shape : Shape} (hshape : shapeOf (columns ws x) = some shape)
    {slices : List (List (String → ν))}
    (hheld : Holdable vs shape (slices.flatten.map (place vs (columns ws x))))
    (found : Option (HubTable vs)) (earlier : List (Statement ν)) :
    ∃ t, execAll ws vs x found (earlier ++ (Job.backfill slices).statements) = some t ∧
      t.shape = shape ∧ t.rows = slices.flatten.map (place vs (columns ws x)) := by
  have hcreated : (Statement.createTable false).exec vs (columns ws x) none =
      some (HubTable.empty vs shape) := by
    unfold Statement.exec
    rw [hshape]
    rfl
  obtain ⟨t, hrun, hshape', hrows⟩ :=
    @insert_slices _ _ vs (columns ws x) shape (shapeOf_knows hshape) slices
      (HubTable.empty vs shape) rfl hheld
  refine ⟨t, ?_, hshape', hrows⟩
  unfold execAll Job.statements
  rw [List.foldl_append, List.foldl_cons, List.foldl_cons]
  change (slices.map Statement.insert).foldl _ ((Statement.createTable false).exec vs (columns ws x) none) =
    some t
  rw [hcreated]
  exact hrun

omit [DecidableEq ν] in
theorem createdAt_of_cell {content : Option (HubTable vs)} (h : cell ws vs (.own m content) = some l) :
    createdAt ws m = .ok l := by
  change (createdAt ws m).toOption = some l at h
  cases hm : createdAt ws m with
  | error e =>
    rw [hm] at h
    cases h
  | ok l' =>
    rw [hm] at h
    exact congrArg Except.ok (Option.some.inj h)

theorem run_remote (h : Apart ws) (hoccurs : ∀ e ∈ es, e.Occurs ws vs) (hx : Copied ws x)
    (hl : target ws x = some l) :
    run ws vs hub es l = execAll ws vs x (hub l) (statementsOf vs x es) := by
  refine run_statements (fun e he hcell => ?_) hl
  cases e with
  | own m content => exact absurd (createdAt_of_cell hcell) (h.manifests x hx m (hoccurs _ he) l hl)
  | sync y s =>
    obtain rfl := h.remotes x y hx (hoccurs _ he).1 l hl hcell
    exact ⟨s, rfl⟩

theorem isolated_of_apart (h : Apart ws) : Isolated ws vs where
  others hub x s hoccurs y hy hne l hl := by
    refine CellRuns.put_other fun hcell => hne ?_
    rw [h.remotes x y hoccurs.1 hy l hcell hl]
  created hub x s hoccurs m hm l hl :=
    CellRuns.put_other fun hcell => h.manifests x hoccurs.1 m hm l hcell hl
  alone hub es hoccurs x hx l hl := run_remote h hoccurs hx hl
  kept hub es hoccurs m hm l hl := by
    refine CellRuns.putAll_filter fun e he hcell => ?_
    cases e with
    | own m' content => rfl
    | sync y s => exact absurd hl (h.manifests y (hoccurs _ he).1 m hm l hcell)
  holds hub es hoccurs x hx l hl earlier slices hstatements shape hshape hheld := by
    rw [run_remote h hoccurs hx hl, hstatements]
    exact execAll_backfill hshape hheld (hub l) earlier

omit [DecidableEq ν] in
theorem drop_occurs (hx : Copied ws x) : (Event.sync x .dropTable : Event vs).Occurs ws vs :=
  ⟨hx, .backfill [], List.mem_cons_self⟩

def fullHub : Hub vs := fun _ => some (HubTable.empty vs ⟨[], []⟩)

theorem drop_fullHub (hl : target ws x = some l) : step ws vs fullHub (.sync x .dropTable) l = none :=
  CellRuns.put_same hl

/-- Syncs of a workspace keep to their own replicas exactly when no hub table has two owners. -/
theorem isolated_iff (ws : Workspace) (vs : Values ν) : Isolated ws vs ↔ Apart ws := by
  refine ⟨fun h => ⟨fun x y hx hy l hlx hly => ?_, fun x hx m hm l hl hcreated => ?_⟩, isolated_of_apart⟩
  · by_contra hne
    have halone := h.alone fullHub [.sync y .dropTable]
      (fun e he => List.mem_singleton.mp he ▸ drop_occurs hy) x hx l hlx
    have hnone : statementsOf vs x [.sync y .dropTable] = [] :=
      List.filterMap_cons_none (if_neg fun heq => hne heq.symm)
    unfold run at halone
    rw [CellRuns.putAll_cons, CellRuns.putAll_nil, hnone] at halone
    exact absurd ((drop_fullHub hly).symm.trans halone) (Option.some_ne_none _).symm
  · have hkept := h.created fullHub x .dropTable (drop_occurs hx) m hm l hcreated
    rw [drop_fullHub hl] at hkept
    cases hkept

end Runs

def ordersConnector : Connector where
  discoverSchemas := ["public"]
  discoverTables _ := [⟨"orders", some "TABLE"⟩]
  discoverColumns _ _ := [⟨"id", "text", true⟩]

def crmAndShop : Workspace where
  tenantId := "acme"
  getSource name := if name ∈ ["crm", "shop"] then some (.SYNC, ordersConnector) else none
  manifest := []

def textValues : Values String := ⟨"", fun _ _ => true⟩

def publicOrders (source : String) : Remote := ⟨source, "public", "orders"⟩

theorem publicOrders_copied {source : String} (h : source ∈ ["crm", "shop"]) :
    Copied crmAndShop (publicOrders source) := by
  have hpublic : asciiLower "public" ∉ systemSchemas := by decide
  refine ⟨.SYNC, ordersConnector, if_pos h, by decide, List.mem_singleton.mpr rfl, hpublic, ?_,
    List.cons_ne_nil _ _⟩
  exact ⟨⟨"orders", some "TABLE"⟩, List.mem_singleton.mpr rfl, rfl, by decide⟩

/-- A backfill of the shop drops the replica of the CRM. -/
theorem shared_replica_dropped : ¬ Isolated crmAndShop textValues := by
  intro h
  have hl : ∀ source, target crmAndShop (publicOrders source) = some ("tenant_acme_public", "orders") := by
    intro source
    change (do
      let schema ← q (hubSchemaFor "acme" "public")
      let table ← q "orders"
      return (schema, table)) = some ("tenant_acme_public", "orders")
    decide
  have hkept := h.others fullHub (publicOrders "shop") .dropTable
    (drop_occurs (publicOrders_copied (by decide))) (publicOrders "crm")
    (publicOrders_copied (by decide)) (by decide) _ (hl "crm")
  rw [drop_fullHub (hl "shop")] at hkept
  cases hkept

end DataFabric.HubReplicas
