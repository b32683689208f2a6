import Mathlib.Algebra.Order.Ring.Unbundled.Rat
import DataFabric.CanonicalFilters
import DataFabric.HubStatements

set_option autoImplicit false

/-!
# Filters of updates and deletes

Statements on the hub take their WHERE clause from `generateSql`, those on another SQL source from
`buildWhere`. Both read one operator of each filter value.
-/
namespace DataFabric.DmlFilters
open CharText JsValues TenantIdentifiers AstGuard CanonicalFilters HubStatements ExceptRules

/-- The columns of a table: what a value is in a column and how the column's type orders it, and what a pattern or
another test says of the cells. -/
structure Columns where
  Cell : Type
  [order : LinearOrder Cell]
  value : ColumnRef → JsValue → Cell
  passes : RowTest → (ColumnRef → Cell) → Bool

variable {t : Columns}

structure SqlRow (t : Columns) where
  isNull : ColumnRef → Bool
  cell : ColumnRef → t.Cell

def SqlRow.order (r : SqlRow t) (c : ColumnRef) (v : JsValue) : Ordering :=
  let _ := t.order
  cmp (r.cell c) (t.value c v)

def SqlRow.passes (r : SqlRow t) (test : RowTest) : Bool := t.passes test r.cell

/-- A comparison of a cell and a value that are both not NULL. -/
def compares (op : CompareOp) (o : Ordering) (pattern : Bool) : Bool :=
  match op with
  | .eq => o == .eq
  | .ne => o != .eq
  | .gt => o == .gt
  | .gte => o != .lt
  | .lt => o == .lt
  | .lte => o != .gt
  | .like | .ilike => pattern
  -- no engine takes `IN` without a list
  | .inOp | .notIn => false

/-- The test is true; with a NULL in it a comparison is unknown. -/
def SqlRow.satisfies (r : SqlRow t) : RowTest → Bool
  | .never | .refused _ => false
  | .isNull c => r.isNull c
  | .isNotNull c => !r.isNull c
  | .compare op c v =>
    !v.isNullish && !r.isNull c && compares op (r.order c v) (r.passes (.compare op c v))
  | .oneOf c vs => !r.isNull c && vs.any fun v => !v.isNullish && r.order c v == .eq
  | .notOneOf c vs => !r.isNull c && vs.all fun v => !v.isNullish && r.order c v != .eq
  | .contains c v => !r.isNull c && r.passes (.contains c v)
  | t => r.passes t

def SqlRow.selected (r : SqlRow t) (ts : List RowTest) : Bool := ts.all r.satisfies

def SelectsNone (t : Columns) (ts : List RowTest) : Prop := ∀ r : SqlRow t, r.selected ts = false

def comparison (sqlOp : String) : CompareOp :=
  match sqlOp with
  | "!=" => .ne
  | ">" => .gt
  | ">=" => .gte
  | "<" => .lt
  | "<=" => .lte
  | "LIKE" => .like
  | "ILIKE" => .ilike
  | "IN" => .inOp
  | _ => .eq

def clauseTest (clause : FilterClause) : RowTest :=
  match clause.test with
  | .never => .never
  | .isNull => .isNull (.path clause.column)
  | .isNotNull => .isNotNull (.path clause.column)
  | .inList vs => .oneOf (.path clause.column) vs
  | .compare sqlOp v => .compare (comparison sqlOp) (.path clause.column) v

inductive Dialect | postgres | mysql | oracle
deriving DecidableEq

def Dialect.fold (dialect : Dialect) (name : String) : String :=
  if dialect = .oracle then upperCase name else name

def sqlOps : List (String × String) :=
  [("$eq", "="), ("$ne", "!="), ("$gt", ">"), ("$gte", ">="), ("$lt", "<"), ("$lte", "<="),
    ("$like", "LIKE"), ("$ilike", "ILIKE"), ("$in", "IN")]

def whereTest (dialect : Dialect) (entry : String × JsValue) : RowTest :=
  let col := ColumnRef.path ((split '.' entry.1).map fun part => dialect.fold (keepOnly isWord part))
  let (op, val) := filterOperator entry.2
  match op, val with
  | "$in", .arr [] => .never
  | "$in", .arr vs => .oneOf col vs
  | "$match", v => .contains col v
  -- no operator of MySQL and Oracle, which refuse the statement
  | "$ilike", v => if dialect = .postgres then .compare .ilike col v else .refused "ILIKE"
  | op, v => .compare (comparison ((sqlOps.lookup op).getD "=")) col v

def buildWhere (dialect : Dialect) (filter : List (String × JsValue)) : List RowTest :=
  filter.map (whereTest dialect)

inductive MutationBody
  | update (sets : List (String × JsValue))
  | delete

/-- A statement on another source, placeholders replaced by their values. -/
structure Mutation where
  schema : String
  table : String
  body : MutationBody
  tests : List RowTest

def Dialect.ident (dialect : Dialect) (name : String) : String :=
  match dialect with
  | .postgres => keepOnly isWord name
  | .mysql => name
  | .oracle => upperCase name

/-- An update sets the columns of its data, a delete has none. -/
def mutationBody (dialect : Dialect) (data : Option JsValue) : Except FabricError MutationBody :=
  match data with
  | none => .ok .delete
  | some data =>
    match objectEntries data with
    | none => .error (.unexpected "Cannot convert undefined or null to object")
    | some sets => .ok (.update (sets.map fun (c, v) => (dialect.ident c, v)))

def buildMutationSql (dialect : Dialect) (schema table : String) (data : Option JsValue)
    (filter : List (String × JsValue)) : Except FabricError Mutation := do
  let body ← mutationBody dialect data
  .ok ⟨dialect.ident schema, dialect.ident table, body, buildWhere dialect filter⟩

def safeKey (key : String) : Bool :=
  (split '.' key).all fun part => part ≠ "" && part.toList.all isWord

def mutateGuard (filter : List (String × JsValue)) : Except FabricError Unit :=
  match filter.find? fun entry => !safeKey entry.1 with
  | some (key, _) => .error (.unexpected ("SAFETY: invalid where field name \"" ++ key ++ "\"."))
  | none =>
    if filter = [] then .error (.unexpected
      "SAFETY: update/delete require a \"where\" filter to avoid unrestricted mutations.")
    else .ok ()

inductive DmlFilter
  /-- `config.filter`, and `config.query.where`, which lifts the guard against unrestricted
  statements and is read by selects only -/
  | hub (filter : List (String × JsValue)) (conjuncts : List WhereEntry)
  /-- `where` of a write to another source -/
  | external (dialect : Dialect) (filter : List (String × JsValue))

def written : DmlFilter → Except FabricError (List RowTest)
  | .hub filter _ => (filter.mapM filterClause).map fun clauses => clauses.map clauseTest
  | .external dialect filter => (mutateGuard filter).map fun _ => buildWhere dialect filter

theorem generateSql_filter {json : JsonColumns} {cat : CatalogResolution.Catalog}
    {override : Option String} {tenantId : String} {config : QueryConfig} {statement : HubStatement}
    (hdml : config.type ∈ ["UPDATE", "DELETE"])
    (h : generateSql json cat override tenantId config = .ok statement) (ws : List WhereEntry) :
    written (.hub config.filter ws) = .ok (statement.filter.map clauseTest) := by
  unfold generateSql at h
  by_cases htenant : tenantId = ""
  · rw [if_pos htenant] at h
    cases h
  · rw [if_neg htenant] at h
    obtain ⟨cleanTenant, -, h⟩ := bind_ok h
    obtain ⟨resolved, -, h⟩ := bind_ok h
    obtain ⟨schema, -, h⟩ := bind_ok h
    obtain ⟨_, -, h⟩ := bind_ok h
    obtain ⟨cte, -, h⟩ := bind_ok h
    obtain ⟨body, -, h⟩ := bind_ok h
    obtain ⟨filter, hfilter, h⟩ := bind_ok h
    obtain ⟨tail, -, h⟩ := bind_ok h
    cases h
    unfold statementFilter at hfilter
    rw [if_pos (List.mem_cons_of_mem "SELECT" hdml)] at hfilter
    change (config.filter.mapM filterClause).map _ = _
    rw [hfilter]
    rfl

theorem buildMutationSql_tests {dialect : Dialect} {schema table : String} {data : Option JsValue}
    {filter : List (String × JsValue)} {statement : Mutation} (hguard : mutateGuard filter = .ok ())
    (h : buildMutationSql dialect schema table data filter = .ok statement) :
    written (.external dialect filter) = .ok statement.tests := by
  unfold buildMutationSql at h
  obtain ⟨body, -, h⟩ := bind_ok h
  cases h
  change (mutateGuard filter).map _ = _
  rw [hguard]
  rfl

namespace DmlFilter

def entries : DmlFilter → List (String × JsValue)
  | hub filter _ | external _ filter => filter

def conjuncts : DmlFilter → List WhereEntry
  | hub _ ws => ws
  | external _ _ => []

def operators : DmlFilter → List String
  | hub _ _ => filterOps.map Prod.fst
  | external _ _ => sqlOps.map Prod.fst ++ ["$match"]

def column (f : DmlFilter) (key : String) : ColumnRef :=
  match f with
  | hub _ _ => .path (split '.' key)
  | external dialect _ => .path ((split '.' key).map dialect.fold)

def likeOp : DmlFilter → CompareOp
  | hub _ _ => .ilike
  | external _ _ => .like

end DmlFilter

/-- A value with an operator among its keys holds operators, any other is compared for equality. -/
def operatorsOf (value : JsValue) : List (String × JsValue) :=
  match value with
  | .obj fields => if fields.any fun x => startsWith x.1 "$" then fields else [("$eq", value)]
  | _ => [("$eq", value)]

def operatorTest (likeOp : CompareOp) (c : ColumnRef) (x : String × JsValue) : RowTest :=
  match x.1 with
  | "$eq" => if x.2 = .null then .isNull c else .compare .eq c x.2
  | "$ne" => if x.2 = .null then .isNotNull c else .compare .ne c x.2
  | "$gt" => .compare .gt c x.2
  | "$gte" => .compare .gte c x.2
  | "$lt" => .compare .lt c x.2
  | "$lte" => .compare .lte c x.2
  | "$like" => .compare likeOp c x.2
  | "$ilike" => .compare .ilike c x.2
  | "$in" =>
    match x.2 with
    | .arr [] => .never
    | .arr vs => .oneOf c vs
    | v => .compare .inOp c v
  | "$match" => .contains c x.2
  | op => .refused op

namespace DmlFilter

def asked (f : DmlFilter) : List RowTest :=
  (f.entries.flatMap fun entry => (operatorsOf entry.2).map (operatorTest f.likeOp (f.column entry.1))) ++
    f.conjuncts.map conjunctTest

def Unknown (f : DmlFilter) : Prop :=
  (∃ entry ∈ f.entries, ∃ x ∈ operatorsOf entry.2, x.1 ∉ f.operators) ∨
    ∃ w ∈ f.conjuncts, ∃ op, conjunctTest w = .refused op

/-- An unknown operator is rejected, and a statement selects the rows that satisfy the filter. -/
def Exact (t : Columns) (f : DmlFilter) : Prop :=
  (f.Unknown → ∃ e, written f = .error e) ∧
    ∀ ts, written f = .ok ts → ∀ r : SqlRow t, r.selected ts = r.selected f.asked

/-- The first key of a filter value is an unknown operator; or a write to another source has a key
that names no column, or no filter. -/
def Rejected : DmlFilter → Prop
  | f@(hub filter _) => ∃ entry ∈ filter, (filterOperator entry.2).1 ∉ f.operators
  | external _ filter => (∃ entry ∈ filter, safeKey entry.1 = false) ∨ filter = []

/-- The hub drops other characters from the names, `buildWhere` compares with NULL by `=` and `!=` and writes ILIKE for
every database. -/
def Plain : DmlFilter → Prop
  | hub filter _ => ∀ entry ∈ filter, ∀ part ∈ split '.' entry.1, ∀ c ∈ part.toList, isWord c = true
  | external dialect filter => ∀ entry ∈ filter,
      (filterOperator entry.2 ≠ ("$eq", .null) ∧ filterOperator entry.2 ≠ ("$ne", .null)) ∧
        (dialect ≠ .postgres → (filterOperator entry.2).1 ≠ "$ilike")

def firstTests (f : DmlFilter) : List RowTest :=
  f.entries.map fun entry => operatorTest f.likeOp (f.column entry.1) (filterOperator entry.2)

def leftOut (f : DmlFilter) : List RowTest :=
  (f.entries.flatMap fun entry =>
    (operatorsOf entry.2).tail.map (operatorTest f.likeOp (f.column entry.1))) ++
    f.conjuncts.map conjunctTest

/-- The first operators on the names as the hub strips them. -/
def strippedTests (f : DmlFilter) : List RowTest :=
  f.entries.map fun entry =>
    operatorTest f.likeOp (.path ((split '.' entry.1).map (keepOnly isWord))) (filterOperator entry.2)

/-- A filter that is not plain selects no row, nor does what the statement makes of it. -/
def Idle (t : Columns) : DmlFilter → Prop
  | f@(hub _ _) => SelectsNone t f.strippedTests ∧ SelectsNone t f.asked
  | f@(external _ _) => SelectsNone t f.asked

/-- The filter is rejected; or it has known operators only, and what follows the first operator of
a column holds wherever the first operators do. -/
def Kept (t : Columns) (f : DmlFilter) : Prop :=
  f.Rejected ∨ ¬ f.Unknown ∧
    ((f.Plain ∧ ∀ r : SqlRow t, r.selected f.firstTests = true → r.selected f.leftOut = true) ∨
      (¬ f.Plain ∧ f.Idle t))

end DmlFilter

theorem selected_append (r : SqlRow t) (ts us : List RowTest) :
    r.selected (ts ++ us) = (r.selected ts && r.selected us) := List.all_append

theorem selected_false {r : SqlRow t} {ts : List RowTest} {test : RowTest} (ht : test ∈ ts)
    (hfalse : r.satisfies test = false) : r.selected ts = false := by
  unfold SqlRow.selected
  rw [List.all_eq_false]
  exact ⟨test, ht, by simp [hfalse]⟩

theorem selected_flatMap {α β : Type} (r : SqlRow t) (g : α → β → RowTest) {ops : α → List β}
    {first : α → β} {es : List α} (h : ∀ e ∈ es, ops e = first e :: (ops e).tail) :
    r.selected (es.flatMap fun e => (ops e).map (g e)) =
      (r.selected (es.map fun e => g e (first e)) &&
        r.selected (es.flatMap fun e => (ops e).tail.map (g e))) := by
  induction es with
  | nil => rfl
  | cons e es ih =>
    have hrest := ih fun x hx => h x (List.mem_cons_of_mem e hx)
    have hcons : (ops e).map (g e) = g e (first e) :: (ops e).tail.map (g e) := by
      rw [h e List.mem_cons_self]
      rfl
    simp only [List.flatMap_cons, selected_append, List.map_cons, hrest, hcons]
    simp only [SqlRow.selected, List.all_cons, Bool.and_assoc, Bool.and_left_comm]

def SqlRow.setNull (r : SqlRow t) (c : ColumnRef) (b : Bool) : SqlRow t :=
  { r with isNull := Function.update r.isNull c b }

theorem operatorTest_other {likeOp : CompareOp} {c c' : ColumnRef} (hne : c' ≠ c) (r : SqlRow t) (b : Bool)
    (x : String × JsValue) :
    (r.setNull c b).satisfies (operatorTest likeOp c' x) = r.satisfies (operatorTest likeOp c' x) := by
  have hnull : (r.setNull c b).isNull c' = r.isNull c' := Function.update_of_ne hne _ _
  have hrest : (r.setNull c b).order = r.order ∧ (r.setNull c b).passes = r.passes := ⟨rfl, rfl⟩
  unfold operatorTest
  split <;> try split
  all_goals simp only [SqlRow.satisfies, hnull, hrest.1, hrest.2]

theorem operatorTest_spoiled (likeOp : CompareOp) (c : ColumnRef) (r : SqlRow t) (x : String × JsValue) :
    ∃ b, (r.setNull c b).satisfies (operatorTest likeOp c x) = false := by
  have hnull : ∀ b, (r.setNull c b).isNull c = b := fun b => Function.update_self _ _ _
  by_cases heq : operatorTest likeOp c x = .isNull c
  · refine ⟨false, ?_⟩
    rw [heq]
    exact hnull false
  · refine ⟨true, ?_⟩
    unfold operatorTest at heq ⊢
    split <;> try split
    all_goals simp_all [SqlRow.satisfies]

theorem operatorsOf_head {v : JsValue} (h : ∀ x ∈ operatorsOf v, startsWith x.1 "$" = true) :
    operatorsOf v = filterOperator v :: (operatorsOf v).tail := by
  unfold operatorsOf filterOperator at *
  cases v with
  | prim p => rfl
  | arr vs => rfl
  | obj fields =>
    cases fields with
    | nil => rfl
    | cons x fields =>
      obtain ⟨k, v⟩ := x
      by_cases hany : ((k, v) :: fields).any (fun x => startsWith x.1 "$") = true
      · simp only [hany, if_true] at h ⊢
        rw [if_pos (h (k, v) List.mem_cons_self)]
        rfl
      · have hk : ¬ startsWith k "$" = true := fun hk =>
          hany (List.any_eq_true.mpr ⟨(k, v), List.mem_cons_self, hk⟩)
        simp only [hany, if_neg hk]
        rfl

theorem filterClause_known {entry : String × JsValue}
    (h : (filterOperator entry.2).1 ∈ filterOps.map Prod.fst) :
    (filterClause entry).map clauseTest = .ok (operatorTest .ilike
      (.path ((split '.' entry.1).map (keepOnly isWord))) (filterOperator entry.2)) := by
  obtain ⟨key, raw⟩ := entry
  unfold filterClause
  simp only at h ⊢
  generalize filterOperator raw = x at h ⊢
  obtain ⟨op, v⟩ := x
  simp only [filterOps, List.map_cons, List.map_nil, List.mem_cons, List.not_mem_nil, or_false] at h
  rcases h with rfl | rfl | rfl | rfl | rfl | rfl | rfl | rfl | rfl
  all_goals
    rcases v with p | vs | fields
    · cases p <;> rfl
    · cases vs <;> rfl
    · rfl

theorem filterClause_unknown {entry : String × JsValue}
    (h : (filterOperator entry.2).1 ∉ filterOps.map Prod.fst) : ∃ e, filterClause entry = .error e := by
  have hlookup : filterOps.lookup (filterOperator entry.2).1 = none := by
    rw [List.lookup_eq_none_iff]
    intro x hx
    rw [bne_iff_ne]
    exact fun heq => h (List.mem_map.mpr ⟨x, hx, heq.symm⟩)
  unfold filterClause
  simp only [hlookup]
  exact ⟨_, rfl⟩

theorem mapM_known {filter : List (String × JsValue)}
    (h : ∀ entry ∈ filter, (filterOperator entry.2).1 ∈ filterOps.map Prod.fst) :
    (filter.mapM filterClause).map (fun clauses => clauses.map clauseTest) =
      .ok (filter.map fun entry => operatorTest .ilike
        (.path ((split '.' entry.1).map (keepOnly isWord))) (filterOperator entry.2)) := by
  induction filter with
  | nil => rfl
  | cons entry filter ih =>
    obtain ⟨clause, hclause, htest⟩ := map_ok (filterClause_known (h entry List.mem_cons_self))
    obtain ⟨clauses, hclauses, htests⟩ := map_ok (ih fun x hx => h x (List.mem_cons_of_mem entry hx))
    rw [List.mapM_cons, hclause, hclauses, List.map_cons, ← htest, ← htests]
    rfl

theorem mapM_unknown {filter : List (String × JsValue)}
    (h : ∃ entry ∈ filter, (filterOperator entry.2).1 ∉ filterOps.map Prod.fst) :
    ∃ e, filter.mapM filterClause = .error e := by
  induction filter with
  | nil =>
    obtain ⟨entry, hentry, -⟩ := h
    cases hentry
  | cons first filter ih =>
    rw [List.mapM_cons]
    cases hfirst : filterClause first with
    | error e => exact ⟨e, rfl⟩
    | ok clause =>
      obtain ⟨entry, hentry, hunknown⟩ := h
      rcases List.mem_cons.mp hentry with rfl | hentry
      · obtain ⟨e, he⟩ := filterClause_unknown hunknown
        rw [he] at hfirst
        cases hfirst
      · obtain ⟨e, he⟩ := ih ⟨entry, hentry, hunknown⟩
        refine ⟨e, ?_⟩
        rw [he]
        rfl

theorem safeKey_parts {key : String} (h : safeKey key = true) :
    ∀ part ∈ split '.' key, keepOnly isWord part = part := by
  intro part hpart
  have hword := List.all_eq_true.mp h part hpart
  rw [Bool.and_eq_true, List.all_eq_true] at hword
  rw [← String.toList_inj, keepOnly_toList, List.filter_eq_self]
  exact hword.2

theorem where_column (dialect : Dialect) (filter : List (String × JsValue)) {key : String}
    (h : safeKey key = true) :
    ColumnRef.path ((split '.' key).map fun part => dialect.fold (keepOnly isWord part)) =
      (DmlFilter.external dialect filter).column key := by
  have hparts := safeKey_parts h
  unfold DmlFilter.column
  rw [List.map_congr_left fun part hpart => congrArg dialect.fold (hparts part hpart)]

theorem whereTest_known (dialect : Dialect) {entry : String × JsValue}
    (h : (filterOperator entry.2).1 ∈ sqlOps.map Prod.fst ++ ["$match"])
    (hnull : filterOperator entry.2 ≠ ("$eq", .null) ∧ filterOperator entry.2 ≠ ("$ne", .null))
    (hilike : dialect ≠ .postgres → (filterOperator entry.2).1 ≠ "$ilike") :
    whereTest dialect entry = operatorTest .like
      (.path ((split '.' entry.1).map fun part => dialect.fold (keepOnly isWord part)))
      (filterOperator entry.2) := by
  obtain ⟨key, raw⟩ := entry
  unfold whereTest
  simp only at h hnull hilike ⊢
  generalize filterOperator raw = x at h hnull hilike ⊢
  obtain ⟨op, v⟩ := x
  simp only [sqlOps, List.map_cons, List.map_nil, List.cons_append, List.nil_append, List.mem_cons,
    List.not_mem_nil, or_false] at h
  by_cases hpostgres : dialect = .postgres
  · subst hpostgres
    rcases h with rfl | rfl | rfl | rfl | rfl | rfl | rfl | rfl | rfl | rfl
    all_goals
      rcases v with p | vs | fields
      · cases p <;> first | rfl | exact absurd rfl hnull.1 | exact absurd rfl hnull.2
      · cases vs <;> rfl
      · rfl
  · have hother : op ≠ "$ilike" := hilike hpostgres
    rcases h with rfl | rfl | rfl | rfl | rfl | rfl | rfl | hop | rfl | rfl
    case inr.inr.inr.inr.inr.inr.inr.inl => exact absurd hop hother
    all_goals
      rcases v with p | vs | fields
      · cases p <;> first | rfl | exact absurd rfl hnull.1 | exact absurd rfl hnull.2
      · cases vs <;> rfl
      · rfl

theorem whereTest_ilike {dialect : Dialect} (hother : dialect ≠ .postgres) {entry : String × JsValue}
    (h : (filterOperator entry.2).1 = "$ilike") (r : SqlRow t) : r.satisfies (whereTest dialect entry) = false := by
  obtain ⟨key, raw⟩ := entry
  unfold whereTest
  simp only at h ⊢
  generalize filterOperator raw = x at h ⊢
  obtain ⟨op, v⟩ := x
  simp only at h
  subst h
  simp only [if_neg hother]
  rfl

theorem whereTest_null (dialect : Dialect) {entry : String × JsValue}
    (h : filterOperator entry.2 = ("$eq", .null) ∨ filterOperator entry.2 = ("$ne", .null)) (r : SqlRow t) :
    r.satisfies (whereTest dialect entry) = false := by
  unfold whereTest
  rcases h with h | h <;> rw [h] <;> rfl

namespace DmlFilter

variable {f : DmlFilter}

def read : DmlFilter → List RowTest
  | f@(hub _ _) => f.strippedTests
  | external dialect filter => buildWhere dialect filter

theorem written_ok (h : ¬ f.Rejected) : written f = .ok f.read := by
  cases f with
  | hub filter ws =>
    refine mapM_known fun entry hentry => ?_
    by_contra hunknown
    exact h ⟨entry, hentry, hunknown⟩
  | external dialect filter =>
    have hguard : mutateGuard filter = .ok () := by
      have hfind : filter.find? (fun entry => !safeKey entry.1) = none := by
        rw [List.find?_eq_none]
        intro entry hentry hbad
        rw [Bool.not_eq_true'] at hbad
        exact h (.inl ⟨entry, hentry, hbad⟩)
      unfold mutateGuard
      rw [hfind]
      exact if_neg fun hempty => h (.inr hempty)
    change (mutateGuard filter).map _ = _
    rw [hguard]
    rfl

theorem written_error (h : f.Rejected) : ∃ e, written f = .error e := by
  cases f with
  | hub filter ws =>
    obtain ⟨e, he⟩ := mapM_unknown h
    refine ⟨e, ?_⟩
    change (filter.mapM filterClause).map _ = _
    rw [he]
    rfl
  | external dialect filter =>
    have hguard : ∃ e, mutateGuard filter = .error e := by
      unfold mutateGuard
      cases hfind : filter.find? (fun entry => !safeKey entry.1) with
      | some entry => exact ⟨_, rfl⟩
      | none =>
        rcases h with ⟨entry, hentry, hbad⟩ | hempty
        · have hsafe := List.find?_eq_none.mp hfind entry hentry
          rw [hbad] at hsafe
          exact absurd rfl hsafe
        · exact ⟨_, if_pos hempty⟩
    obtain ⟨e, he⟩ := hguard
    refine ⟨e, ?_⟩
    change (mutateGuard filter).map _ = _
    rw [he]
    rfl

theorem operators_dollar {op : String} (h : op ∈ f.operators) : startsWith op "$" = true := by
  have hall : f.operators.all (fun op => startsWith op "$") = true := by cases f <;> rfl
  exact List.all_eq_true.mp hall op h

theorem known_operators (h : ¬ f.Unknown) {entry : String × JsValue} (hentry : entry ∈ f.entries) :
    ∀ x ∈ operatorsOf entry.2, x.1 ∈ f.operators := by
  intro x hx
  by_contra hunknown
  exact h (.inl ⟨entry, hentry, x, hx, hunknown⟩)

theorem known_head (h : ¬ f.Unknown) {entry : String × JsValue} (hentry : entry ∈ f.entries) :
    operatorsOf entry.2 = filterOperator entry.2 :: (operatorsOf entry.2).tail :=
  operatorsOf_head fun x hx => operators_dollar (known_operators h hentry x hx)

theorem known_first (h : ¬ f.Unknown) {entry : String × JsValue} (hentry : entry ∈ f.entries) :
    (filterOperator entry.2).1 ∈ f.operators := by
  refine known_operators h hentry _ ?_
  rw [known_head h hentry]
  exact List.mem_cons_self

theorem selected_asked (h : ¬ f.Unknown) (r : SqlRow t) :
    r.selected f.asked = (r.selected f.firstTests && r.selected f.leftOut) := by
  unfold asked leftOut firstTests
  rw [selected_append, selected_append, selected_flatMap r
    (fun entry => operatorTest f.likeOp (f.column entry.1)) fun entry hentry => known_head h hentry,
    Bool.and_assoc]

theorem read_plain (hknown : ¬ f.Unknown) (hrejected : ¬ f.Rejected) (hplain : f.Plain) :
    f.read = f.firstTests := by
  cases f with
  | hub filter ws =>
    refine List.map_congr_left fun entry hentry => ?_
    have hparts : (split '.' entry.1).map (keepOnly isWord) = split '.' entry.1 := by
      refine (List.map_congr_left fun part hpart => ?_).trans (List.map_id _)
      rw [id_eq, ← String.toList_inj, keepOnly_toList, List.filter_eq_self]
      exact hplain entry hentry part hpart
    rw [hparts]
    rfl
  | external dialect filter =>
    refine List.map_congr_left fun entry hentry => ?_
    have hsafe : safeKey entry.1 = true := by
      by_contra hbad
      exact hrejected (.inl ⟨entry, hentry, Bool.not_eq_true _ ▸ hbad⟩)
    rw [whereTest_known dialect (known_first hknown hentry) (hplain entry hentry).1 (hplain entry hentry).2,
      where_column dialect filter hsafe]
    rfl

theorem same_idle (hrejected : ¬ f.Rejected) (hknown : ¬ f.Unknown) (hplain : ¬ f.Plain) :
    (∀ r : SqlRow t, r.selected f.read = r.selected f.asked) ↔ f.Idle t := by
  cases f with
  | hub filter ws =>
    constructor
    · intro hsame
      have hnone : SelectsNone t (hub filter ws).strippedTests := by
        intro r
        by_contra hr
        rw [Bool.not_eq_false] at hr
        unfold Plain at hplain
        push Not at hplain
        obtain ⟨entry, hentry, part, hpart, c, hc, hword⟩ := hplain
        -- the statement does not look at the column of this entry
        have hcolumn : ∀ key : String, ColumnRef.path ((split '.' key).map (keepOnly isWord)) ≠
            .path (split '.' entry.1) := by
          intro key heq
          rw [← ColumnRef.path.inj heq] at hpart
          obtain ⟨whole, -, rfl⟩ := List.mem_map.mp hpart
          rw [keepOnly_toList] at hc
          exact hword (List.mem_filter.mp hc).2
        obtain ⟨b, hb⟩ := operatorTest_spoiled .ilike (.path (split '.' entry.1)) r
          (filterOperator entry.2)
        have hread : (r.setNull (.path (split '.' entry.1)) b).selected (hub filter ws).strippedTests =
            true := by
          unfold SqlRow.selected at hr ⊢
          rw [List.all_eq_true] at hr ⊢
          intro t ht
          obtain ⟨other, hother, rfl⟩ := List.mem_map.mp ht
          exact (operatorTest_other (hcolumn other.1) r b _).trans (hr _ ht)
        have hfirst : (r.setNull (.path (split '.' entry.1)) b).selected (hub filter ws).firstTests =
            false := selected_false (List.mem_map.mpr ⟨entry, hentry, rfl⟩) hb
        have hasked := hsame (r.setNull (.path (split '.' entry.1)) b)
        rw [selected_asked hknown, hfirst, Bool.false_and] at hasked
        exact Bool.noConfusion (hread.symm.trans hasked)
      exact ⟨hnone, fun r => (hsame r).symm.trans (hnone r)⟩
    · intro h r
      exact (h.1 r).trans (h.2 r).symm
  | external dialect filter =>
    have hnone : ∀ r : SqlRow t, r.selected (buildWhere dialect filter) = false := by
      intro r
      unfold Plain at hplain
      push Not at hplain
      obtain ⟨entry, hentry, hbad⟩ := hplain
      refine selected_false (List.mem_map.mpr ⟨entry, hentry, rfl⟩) ?_
      by_cases hnull : filterOperator entry.2 = ("$eq", .null) ∨ filterOperator entry.2 = ("$ne", .null)
      · exact whereTest_null dialect hnull r
      · obtain ⟨hother, hilike⟩ := hbad (not_or.mp hnull)
        exact whereTest_ilike hother hilike r
    exact forall_congr' fun r => by
      change r.selected (buildWhere dialect filter) = _ ↔ _
      rw [hnone r]
      exact eq_comm

end DmlFilter

def numbers : Columns where
  Cell := ℚ
  value
    | _, .num q => q
    | _, _ => 0
  passes _ _ := false

end DataFabric.DmlFilters
