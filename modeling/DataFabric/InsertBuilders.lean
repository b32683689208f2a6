import DataFabric.Aggregates
import DataFabric.DmlFilters
import DataFabric.JsonTexts
import DataFabric.NumberedCells

set_option autoImplicit false

/-!
# The two builders of an INSERT

A hub table gets the columns of all rows and a DEFAULT where a row lacks one, a remote table gets the
columns of the first row and the value of every row for them.
-/
namespace DataFabric.InsertBuilders
open CharText JsValues OrderedRecords FederatedJoins TenantIdentifiers HubStatements DmlFilters ExceptRules NumberedCells

/-- An INSERT with its parameters; a cell is DEFAULT or the number of a parameter. -/
structure InsertSql where
  target : String
  columns : List String
  tuples : List (List (Option ℕ))
  params : List JsValue

def placeholder (dialect : Dialect) (k : ℕ) : String :=
  match dialect with
  | .postgres => "$" ++ toString k
  | .mysql => "?"
  | .oracle => ":" ++ toString k

def quoteName (dialect : Dialect) (name : String) : String :=
  match dialect with
  | .mysql => "`" ++ name ++ "`"
  | .postgres | .oracle => quoted (doubleQuotes name)

def InsertSql.text (dialect : Dialect) (stmt : InsertSql) : String :=
  let tuple cells := "(" ++ ", ".intercalate (cells.map fun cell : Option ℕ => cell.elim "DEFAULT" (placeholder dialect)) ++ ")"
  "INSERT INTO " ++ stmt.target ++ " (" ++ ", ".intercalate (stmt.columns.map (quoteName dialect)) ++ ") VALUES " ++
    ", ".intercalate (stmt.tuples.map tuple) ++ if dialect = .postgres then " RETURNING *" else ""

/-- What an INSERT pushes for a cell, nothing for a DEFAULT. -/
def param : InsertCell → Option JsValue
  | .default => none
  | .value v => some v
  | .jsonText v => some (.str (String.ofList ((JsonTexts.stringify v).getD [])))

def insertSql (target : String) (columns : List String) (cells : List (List (Option JsValue))) : InsertSql :=
  let placed := placeRows [] cells
  ⟨target, columns, placed.1, placed.2⟩

def generateInsert (json : JsonColumns) (schema table : String) (rows : List SourceRow) : Except FabricError InsertSql := do
  match ← insertBody json schema table (.arr (rows.map fun r => .obj r.entries)) with
  | .insert target columns cells =>
    .ok (insertSql (quoted (doubleQuotes target.schema) ++ "." ++ quoted (doubleQuotes target.table)) columns
      (cells.map fun row => row.map param))
  | _ => .error (.unexpected "")

def buildInsert (dialect : Dialect) (schema table : String) (rows : List SourceRow) : Except FabricError InsertSql :=
  match rows with
  | [] => .error (.unexpected "Cannot convert undefined or null to object")
  | first :: _ =>
    let cols := first.entries.map Prod.fst
    let target := quoteName dialect (dialect.ident schema) ++ "." ++ quoteName dialect (dialect.ident table)
    .ok (insertSql target (cols.map dialect.ident) (rows.map fun row => cols.map fun c => some (column row c)))

def isScalar : JsValue → Bool
  | .prim _ => true
  | .arr _ | .obj _ => false

/-- What the drivers of MySQL and Oracle send for an array or an object: the one writes its elements or a comparison
for each entry into the text, the other reads it as the options of a parameter. -/
structure Expansion where
  values : Dialect → JsValue → List JsValue
  scalar : ∀ dialect v, ∀ x ∈ values dialect v, isScalar x = true

def Expansion.cell (sent : Expansion) (dialect : Dialect) : Option JsValue → List (Option JsValue)
  | none => [none]
  | some v => if isScalar v then [some v] else (sent.values dialect v).map some

/-- The cells as the driver fills them: `?` in the order of the text, the others by their numbers. -/
def InsertSql.cells (sent : Expansion) (dialect : Dialect) (stmt : InsertSql) : List (List (Option JsValue)) :=
  match dialect with
  | .mysql => (inOrderRows stmt.params stmt.tuples).map fun cells => cells.flatMap (sent.cell .mysql)
  | .postgres => stmt.tuples.map (byNumber stmt.params)
  | .oracle => (stmt.tuples.map (byNumber stmt.params)).map fun cells => cells.flatMap (sent.cell .oracle)

def columnKey (dialect : Dialect) (name : String) : String :=
  match dialect with
  | .mysql => name.toLower
  | .postgres | .oracle => name

def ownColumn (dialect : Dialect) (key : String) : String := columnKey dialect (dialect.fold key)

/-- The cell a row has in a column, none where the statement does not list the column. -/
def InsertSql.cell (sent : Expansion) (dialect : Dialect) (stmt : InsertSql) (i : ℕ) (name : String) : Option (Option JsValue) :=
  ((stmt.cells sent dialect)[i]?).bind fun cells => ((stmt.columns.map (columnKey dialect)).zip cells).lookup name

/-- The value that is stored, none for the default of the column; `undefined` is sent as NULL. -/
def stored : Option (Option JsValue) → Option JsValue
  | some (some .undefined) => some .null
  | some (some v) => some v
  | _ => none

structure Batch where
  rows : List SourceRow
  nonempty : rows ≠ []
  safe : ∀ r ∈ rows, ∀ e ∈ r.entries, safeKey e.1 = true
  defined : ∀ r ∈ rows, ∀ e ∈ r.entries, e.2 ≠ .undefined

/-- Every value of every row is bound to its own column, every other column gets null or its default. -/
structure Binds (sent : Expansion) (dialect : Dialect) (stmt : InsertSql) (value : String → JsValue → JsValue) (rows : List SourceRow) :
    Prop where
  distinct : (stmt.columns.map (columnKey dialect)).Nodup
  supplied : ∀ i row, rows[i]? = some row → ∀ c v, row.get? c = some v →
    stmt.cell sent dialect i (ownColumn dialect c) = some (some (value c v))
  others : ∀ i row, rows[i]? = some row → ∀ name,
    (∀ c, row.get? c ≠ none → ownColumn dialect c ≠ name) →
      ∀ v, stmt.cell sent dialect i name = some (some v) → v.isNullish = true

/-- The hub's value of a column: an array of a JSON column as its text. -/
def hubValue (json : String → Bool) (c : String) (v : JsValue) : JsValue := (param (cellOf (json c) v)).getD v

namespace Batch

variable (b : Batch) (sent : Expansion) (dialect : Dialect) (json : JsonColumns) (schema table : String)

/-- Both statements store the same in every column that some row supplies. -/
def Agree (hub remote : InsertSql) : Prop :=
  ∀ i row, b.rows[i]? = some row → ∀ c, (∃ r ∈ b.rows, r.get? c ≠ none) →
    stored (hub.cell sent .postgres i c) = stored (remote.cell sent dialect i (ownColumn dialect c))

def LosesNothing : Prop :=
  ∃ hub remote, generateInsert json schema table b.rows = .ok hub ∧ buildInsert dialect schema table b.rows = .ok remote ∧
    Binds sent .postgres hub (hubValue (json schema table)) b.rows ∧
    Binds sent dialect remote (fun _ v => v) b.rows ∧ b.Agree sent dialect hub remote

def keys : List String := (b.rows.head b.nonempty).entries.map Prod.fst

structure HoldsWhen : Prop where
  named : quotable table = true
  supplied : b.keys ≠ []
  uniform : ∀ r ∈ b.rows, ∀ c, r.get? c ≠ none ↔ c ∈ b.keys
  short : ∀ c ∈ b.keys, quotable c = true
  apart : (b.keys.map (ownColumn dialect)).Nodup
  plain : dialect = .postgres → ∀ c ∈ b.keys, keepOnly isWord c = c
  flat : ∀ r ∈ b.rows, ∀ c vs, r.get? c = some (.arr vs) → json schema table c = false
  scalar : dialect ≠ .postgres → ∀ r ∈ b.rows, ∀ c v, r.get? c = some v → isScalar v = true

end Batch

theorem Expansion.cells_eq_self {sent : Expansion} {dialect : Dialect} {cells : List (Option JsValue)}
    (h : ∀ v, some v ∈ cells → isScalar v = true) : cells.flatMap (sent.cell dialect) = cells := by
  induction cells with
  | nil => rfl
  | cons cell cells ih =>
    have hcell : sent.cell dialect cell = [cell] := by
      cases cell with
      | none => rfl
      | some v => exact if_pos (h v List.mem_cons_self)
    rw [List.flatMap_cons, hcell, ih fun v hv => h v (List.mem_cons_of_mem _ hv)]
    rfl

theorem Expansion.scalar_of_mem {sent : Expansion} {dialect : Dialect} {cells : List (Option JsValue)} {v : JsValue}
    (h : some v ∈ cells.flatMap (sent.cell dialect)) : isScalar v = true := by
  obtain ⟨cell, _, hv⟩ := List.mem_flatMap.mp h
  cases cell with
  | none => cases List.mem_singleton.mp hv
  | some w =>
    unfold Expansion.cell at hv
    dsimp only at hv
    split at hv
    · rename_i hscalar
      rw [Option.some.inj (List.mem_singleton.mp hv)]
      exact hscalar
    · obtain ⟨x, hx, hxv⟩ := List.mem_map.mp hv
      exact Option.some.inj hxv ▸ sent.scalar dialect w x hx

theorem cells_insertSql (sent : Expansion) (dialect : Dialect) (target : String) (columns : List String)
    (cells : List (List (Option JsValue))) (h : dialect ≠ .postgres → ∀ row ∈ cells, ∀ v, some v ∈ row → isScalar v = true) :
    (insertSql target columns cells).cells sent dialect = cells := by
  have hnumbers := byNumber_placeRows [] [] cells
  have horder := inOrderRows_placeRows [] [] cells
  rw [List.append_nil] at hnumbers horder
  have hwhole (hdialect : dialect ≠ .postgres) :
      (cells.map fun row => row.flatMap (sent.cell dialect)) = cells := by
    conv => rhs; rw [← List.map_id cells]
    exact List.map_congr_left fun row hrow => Expansion.cells_eq_self (h hdialect row hrow)
  cases dialect with
  | mysql =>
    change (inOrderRows (placeRows [] cells).2 (placeRows [] cells).1).map _ = cells
    rw [placeRows_params, List.nil_append, horder]
    exact hwhole nofun
  | postgres => exact hnumbers
  | oracle =>
    change (((placeRows [] cells).1).map (byNumber (placeRows [] cells).2)).map _ = cells
    rw [hnumbers]
    exact hwhole nofun

/-- A cell of another database than PostgreSQL is no array and no object. -/
theorem scalar_of_cell {sent : Expansion} {dialect : Dialect} (hdialect : dialect ≠ .postgres) {stmt : InsertSql} {i : ℕ}
    {name : String} {v : JsValue} (h : stmt.cell sent dialect i name = some (some v)) : isScalar v = true := by
  obtain ⟨cells, hcells, hlookup⟩ := Option.bind_eq_some_iff.mp h
  obtain ⟨before, after, hsplit, _⟩ := List.lookup_eq_some_iff.mp hlookup
  have hpair : (name, some v) ∈ (stmt.columns.map (columnKey dialect)).zip cells := by
    rw [hsplit]
    exact List.mem_append_right _ List.mem_cons_self
  have hmem : some v ∈ cells := (List.of_mem_zip hpair).2
  have hrow := List.mem_of_getElem? hcells
  cases dialect with
  | postgres => exact absurd rfl hdialect
  | mysql =>
    obtain ⟨row, _, rfl⟩ := List.mem_map.mp hrow
    exact Expansion.scalar_of_mem hmem
  | oracle =>
    obtain ⟨row, _, rfl⟩ := List.mem_map.mp hrow
    exact Expansion.scalar_of_mem hmem

section

variable {κ ν : Type*} [DecidableEq κ] {α : Type*} {cols : List α} {key : α → κ} {f : α → ν}

theorem lookup_zip_map (hkeys : (cols.map key).Nodup) {c : α} (hc : c ∈ cols) :
    ((cols.map key).zip (cols.map f)).lookup (key c) = some (f c) := by
  have hnames : (((cols.map key).zip (cols.map f)).map Prod.fst).Nodup := by
    rw [List.map_fst_zip (by rw [List.length_map, List.length_map])]
    exact hkeys
  rw [lookup_eq_some_iff hnames, List.zip_map', List.mem_map]
  exact ⟨c, hc, rfl⟩

theorem mem_of_lookup_zip_map {n : κ} {v : ν} (h : ((cols.map key).zip (cols.map f)).lookup n = some v) :
    ∃ c ∈ cols, key c = n ∧ f c = v := by
  have hmem : (n, v) ∈ (cols.map key).zip (cols.map f) := by
    induction cols with
    | nil => cases h
    | cons c cols ih =>
      rw [List.map_cons, List.map_cons, List.zip_cons_cons, lookup_cons_ite] at h
      rw [List.map_cons, List.map_cons, List.zip_cons_cons, List.mem_cons]
      split at h
      · rename_i heq
        rw [heq, Option.some.inj h]
        exact .inl rfl
      · exact .inr (ih h)
  rw [List.zip_map', List.mem_map] at hmem
  have ⟨c, hc, heq⟩ := hmem
  exact ⟨c, hc, (Prod.mk.inj heq).1, (Prod.mk.inj heq).2⟩

end

section

variable {sent : Expansion} {dialect : Dialect} {target : String} {cols : List String} {name : String → String} {rows : List SourceRow}
  {f : SourceRow → String → Option JsValue} {i : ℕ} {row : SourceRow}

theorem cell_insertSql (hwhole : dialect ≠ .postgres → ∀ r ∈ rows, ∀ c v, f r c = some v → isScalar v = true)
    (hrow : rows[i]? = some row) (n : String) :
    (insertSql target (cols.map name) (rows.map fun r => cols.map (f r))).cell sent dialect i n =
      ((cols.map fun c => columnKey dialect (name c)).zip (cols.map (f row))).lookup n := by
  have hscalar (hdialect : dialect ≠ .postgres) :
      ∀ cells ∈ rows.map fun r => cols.map (f r), ∀ v, some v ∈ cells → isScalar v = true := by
    intro cells hcells v hv
    obtain ⟨r, hr, rfl⟩ := List.mem_map.mp hcells
    obtain ⟨c, _, hc⟩ := List.mem_map.mp hv
    exact hwhole hdialect r hr c v hc
  unfold InsertSql.cell
  rw [cells_insertSql _ _ _ _ _ hscalar, List.getElem?_map, hrow]
  change (((cols.map name).map (columnKey dialect)).zip _).lookup n = _
  rw [List.map_map]
  rfl

theorem cell_of_mem (hwhole : dialect ≠ .postgres → ∀ r ∈ rows, ∀ c v, f r c = some v → isScalar v = true)
    (hrow : rows[i]? = some row) (hkeys : (cols.map fun c => columnKey dialect (name c)).Nodup)
    {c : String} (hc : c ∈ cols) :
    (insertSql target (cols.map name) (rows.map fun r => cols.map (f r))).cell sent dialect i (columnKey dialect (name c)) =
      some (f row c) := by
  rw [cell_insertSql hwhole hrow]
  have hcell : ((cols.map fun c => columnKey dialect (name c)).zip (cols.map (f row))).lookup
      ((fun c => columnKey dialect (name c)) c) = some (f row c) := lookup_zip_map hkeys hc
  exact hcell

theorem mem_of_cell (hwhole : dialect ≠ .postgres → ∀ r ∈ rows, ∀ c v, f r c = some v → isScalar v = true)
    (hrow : rows[i]? = some row) {n : String} {cell : Option JsValue}
    (h : (insertSql target (cols.map name) (rows.map fun r => cols.map (f r))).cell sent dialect i n = some cell) :
    ∃ c ∈ cols, columnKey dialect (name c) = n ∧ f row c = cell := by
  rw [cell_insertSql hwhole hrow] at h
  exact mem_of_lookup_zip_map h

end

def unionKeys (rows : List SourceRow) : List String := (rows.flatMap fun r => r.entries.map Prod.fst).eraseDups

theorem mem_keys {r : SourceRow} {c : String} : c ∈ r.entries.map Prod.fst ↔ r.get? c ≠ none := by
  rw [Option.ne_none_iff_exists', List.mem_map]
  constructor
  · intro ⟨e, he, heq⟩
    exact ⟨e.2, heq ▸ Record.get?_of_mem he⟩
  · intro ⟨v, hv⟩
    exact ⟨_, (Record.get?_eq_some_iff r c v).mp hv, rfl⟩

theorem mem_unionKeys {rows : List SourceRow} {c : String} : c ∈ unionKeys rows ↔ ∃ r ∈ rows, r.get? c ≠ none := by
  unfold unionKeys
  rw [List.mem_eraseDups, List.mem_flatMap]
  simp only [mem_keys]

theorem mapM_quoted {cols : List String} (h : ∀ c ∈ cols, quotable c = true) :
    cols.mapM (fun c => quotedName (.str c)) = .ok cols := by
  induction cols with
  | nil => rfl
  | cons c cols ih =>
    have hc : quotedName (.str c) = .ok c := by
      change (quoteAnyIdent c).map _ = _
      rw [quoteAnyIdent, if_pos (h c List.mem_cons_self)]
      rfl
    rw [List.mapM_cons, hc, ih fun d hd => h d (List.mem_cons_of_mem _ hd)]
    rfl

theorem quotable_of_mapM {cols names : List String} (h : cols.mapM (fun c => quotedName (.str c)) = .ok names) :
    ∀ c ∈ cols, quotable c = true := by
  intro c hc
  have ⟨n, hn, _⟩ := mapM_ok_of_mem h hc
  have ⟨heq, hquotable⟩ := quotedName_ok hn
  injection heq with heq
  injection heq with heq
  exact heq ▸ hquotable

section

variable {json : JsonColumns} {schema table : String} {rows : List SourceRow}

theorem insertRows_records (rows : List SourceRow) :
    insertRows (.arr (rows.map fun r => .obj r.entries)) = rows.map fun r => r.entries := by
  change (rows.map fun r => JsValue.obj r.entries).filterMap rowFields = _
  rw [List.filterMap_map]
  exact congrFun List.filterMap_eq_map rows

def hubCell (json : String → Bool) (row : SourceRow) (c : String) : Option JsValue :=
  match row.get? c with
  | none => none
  | some v => param (cellOf (json c) v)

def hubSql (json : JsonColumns) (schema table : String) (rows : List SourceRow) : InsertSql :=
  insertSql (quoted (doubleQuotes schema) ++ "." ++ quoted (doubleQuotes table)) ((unionKeys rows).map id)
    (rows.map fun row => (unionKeys rows).map (hubCell (json schema table) row))

theorem generateInsert_eq (hnonempty : rows ≠ []) (hcolumns : unionKeys rows ≠ []) :
    generateInsert json schema table rows =
      (tableRequired "INSERT" schema table).bind fun target =>
        ((unionKeys rows).mapM fun c => quotedName (.str c)).map fun names =>
          insertSql (quoted (doubleQuotes target.schema) ++ "." ++ quoted (doubleQuotes target.table)) names
            (rows.map fun row => (unionKeys rows).map (hubCell (json schema table) row)) := by
  have hrows : ¬ rows.map (fun r => r.entries) = [] := by simpa using hnonempty
  have hkeys : ((rows.map fun r => r.entries).flatMap fun r => r.map Prod.fst).eraseDups = unionKeys rows := by
    unfold unionKeys
    rw [List.flatMap_map]
  have hcells : ∀ (r : SourceRow) (c : String), param (match r.entries.lookup c with
      | none => .default
      | some v => cellOf (json schema table c) v) = hubCell (json schema table) r c := by
    intro r c
    unfold hubCell Record.get?
    cases r.entries.lookup c <;> rfl
  unfold generateInsert insertBody
  dsimp only
  rw [insertRows_records, if_neg hrows, hkeys, if_neg hcolumns]
  cases tableRequired "INSERT" schema table with
  | error e => rfl
  | ok target =>
    cases hnames : (unionKeys rows).mapM fun c => quotedName (.str c) with
    | error e => rfl
    | ok names =>
      simp only [ok_bind, List.map_map]
      refine congrArg (fun cells => Except.ok (insertSql _ names cells)) (List.map_congr_left fun r _ => ?_)
      change List.map param (List.map _ _) = _
      rw [List.map_map]
      exact List.map_congr_left fun c _ => hcells r c

theorem generateInsert_no_columns (hcolumns : unionKeys rows = []) {hub : InsertSql} :
    generateInsert json schema table rows ≠ .ok hub := by
  have hkeys : ((rows.map fun r => r.entries).flatMap fun r => r.map Prod.fst).eraseDups = [] := by
    rw [← hcolumns, unionKeys, List.flatMap_map]
  unfold generateInsert insertBody
  dsimp only
  rw [insertRows_records, hkeys]
  intro h
  split at h
  · cases h
  · cases h

theorem tableRequired_eq (type : String) :
    tableRequired type schema table = .ok ⟨schema, table⟩ ↔ quotable table = true := by
  unfold tableRequired quoteAnyIdent
  by_cases hempty : table = ""
  · rw [if_pos hempty, hempty]
    exact ⟨nofun, fun h => absurd h (by decide)⟩
  · rw [if_neg hempty]
    cases quotable table with
    | true => exact ⟨fun _ => rfl, fun _ => rfl⟩
    | false => exact ⟨nofun, nofun⟩

theorem generateInsert_ok_iff (hnonempty : rows ≠ []) {hub : InsertSql} :
    generateInsert json schema table rows = .ok hub ↔
      (quotable table = true ∧ unionKeys rows ≠ [] ∧ ∀ c ∈ unionKeys rows, quotable c = true) ∧
        hub = hubSql json schema table rows := by
  by_cases hcolumns : unionKeys rows = []
  · exact ⟨fun h => absurd h (generateInsert_no_columns hcolumns), fun h => absurd hcolumns h.1.2.1⟩
  · rw [generateInsert_eq hnonempty hcolumns]
    constructor
    · intro h
      have ⟨target, htarget, h⟩ := bind_ok h
      have ⟨names, hnames, hsql⟩ := map_ok h
      have heq := tableRequired_ok htarget
      have hquotable := quotable_of_mapM hnames
      rw [mapM_quoted hquotable] at hnames
      rw [heq] at htarget hsql
      rw [← Except.ok.inj hnames] at hsql
      refine ⟨⟨(tableRequired_eq _).mp htarget, hcolumns, hquotable⟩, ?_⟩
      rw [← hsql, hubSql, List.map_id]
    · intro ⟨⟨htable, _, hquotable⟩, hhub⟩
      rw [(tableRequired_eq _).mpr htable, mapM_quoted hquotable, hhub, hubSql, List.map_id]
      rfl

theorem nodup_unionKeys (rows : List SourceRow) : (unionKeys rows).Nodup := KeyedJoins.nodup_eraseDups _

theorem hubCell_eq {row : SourceRow} {c : String} {v : JsValue} (h : row.get? c = some v) :
    hubCell (json schema table) row c = some (hubValue (json schema table) c v) := by
  unfold hubCell hubValue
  rw [h]
  change param (cellOf _ v) = _
  unfold cellOf
  split
  · split <;> rfl
  · rfl

theorem hub_binds (sent : Expansion) : Binds sent .postgres (hubSql json schema table rows) (hubValue (json schema table)) rows := by
  have hkeys : ((unionKeys rows).map fun c => columnKey .postgres (id c)).Nodup := by
    change ((unionKeys rows).map id).Nodup
    rw [List.map_id]
    exact nodup_unionKeys rows
  constructor
  · change (((unionKeys rows).map id).map id).Nodup
    rw [List.map_id, List.map_id]
    exact nodup_unionKeys rows
  · intro i row hrow c v hv
    have hc : c ∈ unionKeys rows :=
      mem_unionKeys.mpr ⟨row, List.mem_of_getElem? hrow, by rw [hv]; exact Option.some_ne_none v⟩
    have hcell : (hubSql json schema table rows).cell sent .postgres i (ownColumn .postgres c) =
        some (hubCell (json schema table) row c) := cell_of_mem nofun hrow hkeys hc
    rw [hcell, hubCell_eq hv]
  · intro i row hrow n hn v hv
    have ⟨c, _, hname, hcell⟩ := mem_of_cell nofun hrow hv
    cases hget : row.get? c with
    | none =>
      unfold hubCell at hcell
      rw [hget] at hcell
      cases hcell
    | some w => exact absurd hname (hn c (by rw [hget]; exact Option.some_ne_none w))

theorem hub_default (sent : Expansion) {i : ℕ} {row : SourceRow} (hrow : rows[i]? = some row) {c : String} (hc : row.get? c = none) :
    stored ((hubSql json schema table rows).cell sent .postgres i c) = none := by
  cases hcell : (hubSql json schema table rows).cell sent .postgres i c with
  | none => rfl
  | some cell =>
    have ⟨d, _, hname, hvalue⟩ := mem_of_cell nofun hrow hcell
    have hd : d = c := hname
    unfold hubCell at hvalue
    rw [hd, hc] at hvalue
    rw [← hvalue]
    rfl

end

namespace Batch

variable (b : Batch) (dialect : Dialect) (schema table : String)

def remoteSql : InsertSql :=
  insertSql (quoteName dialect (dialect.ident schema) ++ "." ++ quoteName dialect (dialect.ident table))
    (b.keys.map dialect.ident) (b.rows.map fun row => b.keys.map fun c => some (column row c))

theorem buildInsert_eq : buildInsert dialect schema table b.rows = .ok (b.remoteSql dialect schema table) := by
  rcases b with ⟨rows, hnonempty, _, _⟩
  cases rows with
  | nil => contradiction
  | cons first rest => rfl

variable {b dialect} {sent : Expansion}

theorem mem_keys {c : String} : c ∈ b.keys ↔ (b.rows.head b.nonempty).get? c ≠ none := InsertBuilders.mem_keys

theorem keys_subset {c : String} (h : c ∈ b.keys) : c ∈ unionKeys b.rows :=
  mem_unionKeys.mpr ⟨_, List.head_mem b.nonempty, mem_keys.mp h⟩

theorem ownColumn_eq (hplain : dialect = .postgres → ∀ c ∈ b.keys, keepOnly isWord c = c) {c : String} (hc : c ∈ b.keys) :
    columnKey dialect (dialect.ident c) = ownColumn dialect c := by
  cases dialect with
  | postgres => exact hplain rfl c hc
  | mysql => rfl
  | oracle => rfl

variable {json : JsonColumns} {schema table : String}

theorem stored_some (v : JsValue) : stored (some (some v)) ≠ none := by
  unfold stored
  split <;> simp_all

theorem hubValue_flat {json : String → Bool} {c : String} {v : JsValue} (h : ∀ vs, v = .arr vs → json c = false) :
    hubValue json c v = v := by
  unfold hubValue cellOf
  split
  · rename_i vs
    rw [h vs rfl]
    rfl
  · rfl

theorem column_scalar (h : dialect ≠ .postgres → ∀ r ∈ b.rows, ∀ c v, r.get? c = some v → isScalar v = true) :
    dialect ≠ .postgres → ∀ r ∈ b.rows, ∀ c v, some (column r c) = some v → isScalar v = true := by
  intro hdialect r hr c v hv
  rw [← Option.some.inj hv]
  unfold column
  cases hget : r.get? c with
  | none => rfl
  | some w => exact h hdialect r hr c w hget

theorem remote_column (hscalar : dialect ≠ .postgres → ∀ r ∈ b.rows, ∀ c v, r.get? c = some v → isScalar v = true)
    {i : ℕ} {row : SourceRow} (hrow : b.rows[i]? = some row) {n : String} {cell : Option JsValue}
    (h : (b.remoteSql dialect schema table).cell sent dialect i n = some cell) :
    ∃ c ∈ b.keys, columnKey dialect (dialect.ident c) = n ∧ some (column row c) = cell :=
  mem_of_cell (column_scalar hscalar) hrow h

theorem remote_cell (hscalar : dialect ≠ .postgres → ∀ r ∈ b.rows, ∀ c v, r.get? c = some v → isScalar v = true)
    {i : ℕ} {row : SourceRow} (hrow : b.rows[i]? = some row)
    (hdistinct : (b.keys.map fun c => columnKey dialect (dialect.ident c)).Nodup) {c : String} (hc : c ∈ b.keys) :
    (b.remoteSql dialect schema table).cell sent dialect i (columnKey dialect (dialect.ident c)) =
      some (some (column row c)) := cell_of_mem (column_scalar hscalar) hrow hdistinct hc

theorem supplied_everywhere (hscalar : dialect ≠ .postgres → ∀ r ∈ b.rows, ∀ c v, r.get? c = some v → isScalar v = true)
    (hdistinct : (b.keys.map fun c => columnKey dialect (dialect.ident c)).Nodup)
    (hsupplied : ∀ i row, b.rows[i]? = some row → ∀ c v, row.get? c = some v →
      (b.remoteSql dialect schema table).cell sent dialect i (ownColumn dialect c) = some (some v))
    (hagree : b.Agree sent dialect (hubSql json schema table b.rows) (b.remoteSql dialect schema table))
    {c : String} (hc : c ∈ unionKeys b.rows) {r : SourceRow} (hr : r ∈ b.rows) : r.get? c ≠ none := by
  intro hmissing
  have ⟨j, hj⟩ := List.mem_iff_getElem?.mp hr
  have ⟨s, hs, hheld⟩ := mem_unionKeys.mp hc
  have ⟨i, hi⟩ := List.mem_iff_getElem?.mp hs
  have ⟨v, hv⟩ := Option.ne_none_iff_exists'.mp hheld
  have ⟨d, hd, hname, _⟩ := remote_column hscalar hi (hsupplied i s hi c v hv)
  have hsame := hagree j r hj c ⟨s, hs, hheld⟩
  rw [hub_default sent hj hmissing, ← hname, remote_cell hscalar hj hdistinct hd] at hsame
  exact stored_some _ hsame.symm

theorem holds_of_loses_nothing (h : b.LosesNothing sent dialect json schema table) : b.HoldsWhen dialect json schema table := by
  have ⟨hub, remote, hhub, hremote, _, hremoteBinds, hagree⟩ := h
  have ⟨⟨htable, hcolumns, hquotable⟩, hhubEq⟩ := (generateInsert_ok_iff b.nonempty).mp hhub
  rw [buildInsert_eq] at hremote
  rw [← Except.ok.inj hremote] at hremoteBinds hagree
  rw [hhubEq] at hagree
  have hdistinct : (b.keys.map fun c => columnKey dialect (dialect.ident c)).Nodup := by
    have hnodup := hremoteBinds.distinct
    change ((b.keys.map dialect.ident).map (columnKey dialect)).Nodup at hnodup
    rw [List.map_map] at hnodup
    exact hnodup
  have hscalar (hdialect : dialect ≠ .postgres) : ∀ r ∈ b.rows, ∀ c v, r.get? c = some v → isScalar v = true := by
    intro r hr c v hv
    have ⟨i, hi⟩ := List.mem_iff_getElem?.mp hr
    exact scalar_of_cell hdialect (hremoteBinds.supplied i r hi c v hv)
  have hall : ∀ c ∈ unionKeys b.rows, ∀ r ∈ b.rows, r.get? c ≠ none := fun c hc r hr =>
    supplied_everywhere hscalar hdistinct hremoteBinds.supplied hagree hc hr
  have hunion : ∀ c ∈ unionKeys b.rows, c ∈ b.keys := fun c hc => mem_keys.mpr (hall c hc _ (List.head_mem b.nonempty))
  have hplain : dialect = .postgres → ∀ c ∈ b.keys, keepOnly isWord c = c := by
    intro hpostgres c hc
    have ⟨v, hv⟩ := Option.ne_none_iff_exists'.mp (mem_keys.mp hc)
    have ⟨i, hi⟩ := List.mem_iff_getElem?.mp (List.head_mem b.nonempty)
    have ⟨d, _, hname, _⟩ := remote_column hscalar hi (hremoteBinds.supplied i _ hi c v hv)
    rw [hpostgres] at hname
    have hc : keepOnly isWord d = c := hname
    rw [← hc, ← String.toList_inj, keepOnly_toList, keepOnly_toList, List.filter_filter]
    simp
  constructor
  · exact htable
  · intro hnil
    have ⟨c, hc⟩ := List.exists_mem_of_ne_nil _ hcolumns
    have hmem := hunion c hc
    rw [hnil] at hmem
    cases hmem
  · intro r hr c
    exact ⟨fun hheld => hunion c (mem_unionKeys.mpr ⟨r, hr, hheld⟩), fun hc => hall c (keys_subset hc) r hr⟩
  · exact fun c hc => hquotable c (keys_subset hc)
  · have hown : b.keys.map (ownColumn dialect) = b.keys.map fun c => columnKey dialect (dialect.ident c) :=
      List.map_congr_left fun c hc => (ownColumn_eq hplain hc).symm
    rw [hown]
    exact hdistinct
  · exact hplain
  · intro r hr c vs hv
    have ⟨i, hi⟩ := List.mem_iff_getElem?.mp hr
    have hsame := hagree i r hi c ⟨r, hr, by rw [hv]; exact Option.some_ne_none _⟩
    rw [hremoteBinds.supplied i r hi c _ hv] at hsame
    have hhubCell : (hubSql json schema table b.rows).cell sent .postgres i c = _ := (hub_binds sent).supplied i r hi c _ hv
    rw [hhubCell] at hsame
    cases hjson : json schema table c with
    | false => rfl
    | true =>
      unfold hubValue cellOf at hsame
      rw [hjson] at hsame
      cases hsame
  · exact hscalar

theorem remote_binds (h : b.HoldsWhen dialect json schema table) :
    Binds sent dialect (b.remoteSql dialect schema table) (fun _ v => v) b.rows := by
  have hown : b.keys.map (ownColumn dialect) = b.keys.map fun c => columnKey dialect (dialect.ident c) :=
    List.map_congr_left fun c hc => (ownColumn_eq h.plain hc).symm
  have hdistinct := h.apart
  rw [hown] at hdistinct
  constructor
  · change ((b.keys.map dialect.ident).map (columnKey dialect)).Nodup
    rw [List.map_map]
    exact hdistinct
  · intro i row hrow c v hv
    have hc := (h.uniform row (List.mem_of_getElem? hrow) c).mp (by rw [hv]; exact Option.some_ne_none v)
    rw [← ownColumn_eq h.plain hc, remote_cell h.scalar hrow hdistinct hc]
    unfold column
    rw [hv]
    rfl
  · intro i row hrow n hn v hv
    have ⟨c, hc, hname, _⟩ := remote_column h.scalar hrow hv
    have hheld := (h.uniform row (List.mem_of_getElem? hrow) c).mpr hc
    exact absurd ((ownColumn_eq h.plain hc).symm.trans hname) (hn c hheld)

/-- No value is lost and both builders agree if and only if all rows have the same columns, under names that both
builders keep, no array goes to a JSON column and MySQL and Oracle get neither arrays nor objects. -/
theorem loses_nothing_iff (b : Batch) (sent : Expansion) (dialect : Dialect) (json : JsonColumns) (schema table : String) :
    b.LosesNothing sent dialect json schema table ↔ b.HoldsWhen dialect json schema table := by
  refine ⟨holds_of_loses_nothing, fun h => ?_⟩
  have hunion : ∀ c ∈ unionKeys b.rows, c ∈ b.keys := by
    intro c hc
    have ⟨r, hr, hheld⟩ := mem_unionKeys.mp hc
    exact (h.uniform r hr c).mp hheld
  have hcolumns : unionKeys b.rows ≠ [] := by
    have ⟨c, hc⟩ := List.exists_mem_of_ne_nil _ h.supplied
    exact List.ne_nil_of_mem (keys_subset hc)
  have hbinds : Binds sent dialect (b.remoteSql dialect schema table) (fun _ v => v) b.rows := remote_binds h
  refine ⟨_, _, (generateInsert_ok_iff b.nonempty).mpr ⟨⟨h.named, hcolumns, fun c hc => h.short c (hunion c hc)⟩, rfl⟩,
    buildInsert_eq b dialect schema table, hub_binds sent, hbinds, ?_⟩
  intro i row hrow c ⟨r, hr, hheld⟩
  have hmem := List.mem_of_getElem? hrow
  have ⟨v, hv⟩ := Option.ne_none_iff_exists'.mp ((h.uniform row hmem c).mpr ((h.uniform r hr c).mp hheld))
  have hhubCell : (hubSql json schema table b.rows).cell sent .postgres i c = _ := (hub_binds sent).supplied i row hrow c v hv
  rw [hhubCell, hbinds.supplied i row hrow c v hv, hubValue_flat fun vs hvs => h.flat row hmem c vs (hvs ▸ hv)]

end Batch

def lateColumn : Batch where
  rows := [.ofEntries [("name", .str "ann")], .ofEntries [("name", .str "bob"), ("city", .str "york")]]
  nonempty := List.cons_ne_nil _ _
  safe := by decide
  defined := by decide

theorem city_dropped : ¬ ∀ (b : Batch) (sent : Expansion) (dialect : Dialect) (json : JsonColumns) (schema table : String),
    b.LosesNothing sent dialect json schema table := by
  intro h
  have hholds := Batch.holds_of_loses_nothing (h lateColumn ⟨fun _ _ => [], nofun⟩ .postgres (fun _ _ _ => false) "public" "people")
  have hcity := hholds.uniform _ (List.mem_cons_of_mem _ List.mem_cons_self) "city"
  revert hcity
  decide

end DataFabric.InsertBuilders
