import DataFabric.AstGuard
import DataFabric.OrderedRecords

set_option autoImplicit false

/-!
# From WHERE conjuncts to the filter a source applies

`astLegToCanonical` and the stream's `astToCanonical` build one map, column to
canonical operator to operand; `toSql` renders it as a conjunction.
-/
namespace DataFabric.CanonicalFilters
open CharText JsValues SqlFragments AstGuard OrderedRecords

inductive CanonicalOp
  | eq | ne | gt | gte | lt | lte | like | ilike | inList | nin | fullText | fuzzy
  deriving DecidableEq, Repr

inductive FilterPath
  | federated
  | stream
  deriving DecidableEq, Repr

def FilterPath.operators : FilterPath → List (String × CanonicalOp)
  | federated =>
    [("EQ", .eq), ("=", .eq), ("NE", .ne), ("!=", .ne), ("<>", .ne), ("GT", .gt), (">", .gt),
      ("GTE", .gte), (">=", .gte), ("LT", .lt), ("<", .lt), ("LTE", .lte), ("<=", .lte),
      ("LIKE", .like), ("ILIKE", .ilike), ("IN", .inList), ("MATCH", .fullText),
      ("SEARCH", .fullText), ("CONTAINS", .fullText), ("FUZZY", .fuzzy), ("IS_NULL", .eq),
      ("IS_NOT_NULL", .ne)]
  | stream =>
    [("EQ", .eq), ("NE", .ne), ("GT", .gt), ("GTE", .gte), ("LT", .lt), ("LTE", .lte),
      ("IN", .inList), ("NIN", .nin), ("LIKE", .like), ("ILIKE", .ilike), ("IS_NULL", .eq),
      ("IS_NOT_NULL", .ne)]

def rawOperator (w : WhereEntry) : String :=
  upperCase (if w.operator.truthy then w.operator.text else "EQ")

def canonicalOp (p : FilterPath) (w : WhereEntry) : CanonicalOp :=
  (p.operators.lookup (rawOperator w)).getD .eq

def canonicalValue (w : WhereEntry) : JsValue :=
  if rawOperator w = "IS_NULL" ∨ rawOperator w = "IS_NOT_NULL" then .null else w.value

def columnKey (w : WhereEntry) : String := w.column.text

def pushable (p : FilterPath) (w : WhereEntry) : Bool :=
  match p with
  | .federated => w.column.truthy && !w.expression.truthy && !w.search.truthy
  | .stream => w.column.truthy

abbrev CanonicalFilter := Record String (Record CanonicalOp JsValue)

/-- `filter[w.column] = {...filter[w.column], [op]: val}`; on `__proto__` an assignment
replaces the prototype and adds no field. -/
def mergeConjunct (p : FilterPath) (filter : CanonicalFilter) (w : WhereEntry) : CanonicalFilter :=
  if columnKey w = "__proto__" then filter
  else
    let ops := (filter.get? (columnKey w)).getD .empty
    filter.assign (columnKey w) (ops.assign (canonicalOp p w) (canonicalValue w))

def canonicalFilter (p : FilterPath) (ws : List WhereEntry) : Option CanonicalFilter :=
  if ws ≠ [] ∧ ws.all (pushable p) then some (ws.foldl (mergeConjunct p) .empty) else none

/-- A column as SQL names it: a path of identifiers, or text that is no such path. -/
inductive ColumnRef
  | path (parts : List String)
  | fragment (text : String)
  deriving DecidableEq

inductive CompareOp
  | eq | ne | gt | gte | lt | lte | like | ilike | inOp | notIn
  deriving DecidableEq, Repr

inductive RowTest
  | never
  | isNull (c : ColumnRef)
  | isNotNull (c : ColumnRef)
  | compare (op : CompareOp) (c : ColumnRef) (v : JsValue)
  | oneOf (c : ColumnRef) (vs : List JsValue)
  | notOneOf (c : ColumnRef) (vs : List JsValue)
  | contains (c : ColumnRef) (v : JsValue)
  | expression (e : JsValue)
  | search (s : JsValue)
  | refused (op : String)
  deriving DecidableEq

/-- `quoteColumn`: every dotted part stripped to identifier characters. -/
def quoteColumn (path : String) : ColumnRef :=
  if path = "" ∨ path = "*" then .fragment "*"
  else .path ((split '.' path).map (keepOnly isWord))

/-- `SQL_OPERATORS[op] || '='`, the full-text operators apart. -/
def sqlOperator : CanonicalOp → CompareOp
  | .eq | .nin | .fullText | .fuzzy => .eq
  | .ne => .ne
  | .gt => .gt
  | .gte => .gte
  | .lt => .lt
  | .lte => .lte
  | .like => .like
  | .ilike => .ilike
  | .inList => .inOp

/-- The clause `toSql` emits for one operator of one column. -/
def sqlClause (key : String) (op : CanonicalOp) (value : JsValue) : RowTest :=
  let col := quoteColumn key
  match op, value with
  | .inList, .arr [] => .never
  | .inList, .arr vs => .oneOf col vs
  | .fullText, v | .fuzzy, v => .contains col v
  | .eq, .null => .isNull col
  | .ne, .null => .isNotNull col
  | op, v => .compare (sqlOperator op) col v

def sqlClauses : Option CanonicalFilter → List RowTest
  | none => []
  | some filter => filter.entries.flatMap fun (key, ops) =>
      ops.entries.map fun (op, value) => sqlClause key op value

/-- The conjunction a source applies for a list of conjuncts. -/
def pushedTests (p : FilterPath) (ws : List WhereEntry) : List RowTest :=
  sqlClauses (canonicalFilter p ws)

def columnRef (c : JsValue) : ColumnRef :=
  match c with
  | .str s =>
    if isDottedIdent s && !containsChar '*' s then .path (split '.' s) else .fragment s
  | v => .fragment v.text

/-- What a conjunct asks for, by its operator; `= NULL` reads as `IS NULL` throughout the fabric. -/
def comparisonTest (op : String) (c : ColumnRef) (v : JsValue) : RowTest :=
  if op ∈ ["EQ", "="] then if v = .null then .isNull c else .compare .eq c v
  else if op ∈ ["NE", "!=", "<>"] then if v = .null then .isNotNull c else .compare .ne c v
  else if op ∈ ["GT", ">"] then .compare .gt c v
  else if op ∈ ["GTE", ">="] then .compare .gte c v
  else if op ∈ ["LT", "<"] then .compare .lt c v
  else if op ∈ ["LTE", "<="] then .compare .lte c v
  else if op = "LIKE" then .compare .like c v
  else if op = "ILIKE" then .compare .ilike c v
  else if op = "IN" then
    match v with
    | .arr [] => .never
    | .arr vs => .oneOf c vs
    | v => .compare .inOp c v
  else if op ∈ ["NIN", "NOT_IN"] then
    match v with
    | .arr vs => .notOneOf c vs
    | v => .compare .notIn c v
  else if op = "IS_NULL" then .isNull c
  else if op = "IS_NOT_NULL" then .isNotNull c
  else if op ∈ ["MATCH", "CONTAINS"] then .contains c v
  else .refused op

def conjunctTest (w : WhereEntry) : RowTest :=
  if !w.expression.isNullish then .expression w.expression
  else if !w.search.isNullish then .search w.search
  else comparisonTest (rawOperator w) (columnRef w.column) w.value

/-- `holds` is what the comparisons of the source mean; nothing satisfies `1 = 0`. -/
def Satisfies {Row : Type} (holds : RowTest → Row → Prop) (t : RowTest) (row : Row) : Prop :=
  t ≠ .never ∧ holds t row

/-- Whatever the comparisons of the source mean, the pushed filter selects the rows that satisfy
every conjunct. -/
def Exact (p : FilterPath) (ws : List WhereEntry) : Prop :=
  ∀ (Row : Type) (holds : RowTest → Row → Prop) (row : Row),
    (∀ t ∈ pushedTests p ws, Satisfies holds t row) ↔ ∀ w ∈ ws, Satisfies holds (conjunctTest w) row

def conjunctKey (p : FilterPath) (w : WhereEntry) : String × CanonicalOp :=
  (columnKey w, canonicalOp p w)

/-- A conjunct takes the place of the earlier ones with its column and canonical operator. -/
def settle (p : FilterPath) (kept : List WhereEntry) (w : WhereEntry) : List WhereEntry :=
  if columnKey w = "__proto__" then kept
  else kept.filter (fun k => conjunctKey p k ≠ conjunctKey p w) ++ [w]

def survivors (p : FilterPath) (ws : List WhereEntry) : List WhereEntry := ws.foldl (settle p) []

def readAs (p : FilterPath) (w : WhereEntry) : RowTest :=
  sqlClause (columnKey w) (canonicalOp p w) (canonicalValue w)

/-- All conjuncts can be pushed, and the surviving ones, as the path reads them, ask for what the
list asks for; or an empty `IN` list survives. -/
def KeepsConjuncts (p : FilterPath) (ws : List WhereEntry) : Prop :=
  (∀ w ∈ ws, pushable p w = true) ∧
    (((∃ s ∈ survivors p ws, readAs p s = .never) ∧ ∃ w ∈ ws, conjunctTest w = .never) ∨
      ((∀ w ∈ ws, ∃ s ∈ survivors p ws, readAs p s = conjunctTest w) ∧
        ∀ s ∈ survivors p ws, ∃ w ∈ ws, readAs p s = conjunctTest w))

instance (p : FilterPath) (ws : List WhereEntry) : Decidable (KeepsConjuncts p ws) :=
  inferInstanceAs (Decidable (_ ∧ _))

/-- The operand a filter holds for a column and an operator. -/
def operand (filter : CanonicalFilter) (key : String × CanonicalOp) : Option JsValue :=
  (filter.get? key.1).bind (·.get? key.2)

theorem operand_merge (p : FilterPath) (filter : CanonicalFilter) (w : WhereEntry)
    (key : String × CanonicalOp) :
    operand (mergeConjunct p filter w) key =
      if columnKey w ≠ "__proto__" ∧ key = conjunctKey p w then some (canonicalValue w)
      else operand filter key := by
  obtain ⟨c, op⟩ := key
  unfold mergeConjunct operand conjunctKey
  by_cases hproto : columnKey w = "__proto__"
  · simp [hproto]
  · by_cases hc : c = columnKey w
    · by_cases hop : op = canonicalOp p w
      · simp [hproto, hc, hop]
      · cases hget : filter.get? (columnKey w) <;> simp [hproto, hc, hop, hget]
    · simp [hproto, hc]

/-- The filter holds exactly the operands of these conjuncts. -/
def Holds (p : FilterPath) (filter : CanonicalFilter) (kept : List WhereEntry) : Prop :=
  ∀ key v, operand filter key = some v ↔ ∃ s ∈ kept, conjunctKey p s = key ∧ canonicalValue s = v

theorem holds_merge {p : FilterPath} {filter : CanonicalFilter} {kept : List WhereEntry}
    (h : Holds p filter kept) (w : WhereEntry) :
    Holds p (mergeConjunct p filter w) (settle p kept w) := by
  intro key v
  rw [operand_merge]
  unfold settle
  by_cases hproto : columnKey w = "__proto__"
  · rw [if_neg (fun hc => hc.1 hproto), if_pos hproto]
    exact h key v
  · rw [if_neg hproto]
    by_cases hkey : key = conjunctKey p w
    · rw [if_pos ⟨hproto, hkey⟩, Option.some.injEq]
      constructor
      · intro hv
        exact ⟨w, List.mem_append_right _ (List.mem_singleton_self w), hkey.symm, hv⟩
      · rintro ⟨s, hs, hsk, hv⟩
        rcases List.mem_append.mp hs with hs | hs
        · have hne := (List.mem_filter.mp hs).2
          rw [decide_eq_true_eq] at hne
          exact absurd (hsk.trans hkey) hne
        · rw [List.mem_singleton] at hs
          exact hs ▸ hv
    · rw [if_neg (fun hc => hkey hc.2), h key v]
      constructor
      · rintro ⟨s, hs, hsk, hv⟩
        refine ⟨s, List.mem_append_left _ (List.mem_filter.mpr ⟨hs, ?_⟩), hsk, hv⟩
        rw [decide_eq_true_eq]
        exact fun e => hkey (hsk.symm.trans e)
      · rintro ⟨s, hs, hsk, hv⟩
        rcases List.mem_append.mp hs with hs | hs
        · exact ⟨s, (List.mem_filter.mp hs).1, hsk, hv⟩
        · rw [List.mem_singleton] at hs
          exact absurd (hsk.symm.trans (hs ▸ rfl)) hkey

theorem holds_foldl {p : FilterPath} (ws : List WhereEntry) {filter : CanonicalFilter}
    {kept : List WhereEntry} (h : Holds p filter kept) :
    Holds p (ws.foldl (mergeConjunct p) filter) (ws.foldl (settle p) kept) := by
  induction ws generalizing filter kept with
  | nil => exact h
  | cons w ws ih => exact ih (holds_merge h w)

theorem mem_sqlClauses (filter : CanonicalFilter) (t : RowTest) :
    t ∈ sqlClauses (some filter) ↔
      ∃ key v, operand filter key = some v ∧ sqlClause key.1 key.2 v = t := by
  unfold sqlClauses operand
  constructor
  · intro h
    obtain ⟨⟨c, ops⟩, hentry, ht⟩ := List.mem_flatMap.mp h
    obtain ⟨⟨op, v⟩, hop, rfl⟩ := List.mem_map.mp ht
    refine ⟨(c, op), v, ?_, rfl⟩
    rw [(filter.get?_eq_some_iff c ops).mpr hentry]
    exact (ops.get?_eq_some_iff op v).mpr hop
  · rintro ⟨⟨c, op⟩, v, h, rfl⟩
    obtain ⟨ops, hops, hv⟩ := Option.bind_eq_some_iff.mp h
    exact List.mem_flatMap.mpr ⟨(c, ops), (filter.get?_eq_some_iff c ops).mp hops,
      List.mem_map.mpr ⟨(op, v), (ops.get?_eq_some_iff op v).mp hv, rfl⟩⟩

theorem mem_pushedTests {p : FilterPath} {ws : List WhereEntry}
    (hpush : ∀ w ∈ ws, pushable p w = true) (t : RowTest) :
    t ∈ pushedTests p ws ↔ ∃ s ∈ survivors p ws, readAs p s = t := by
  unfold pushedTests canonicalFilter
  by_cases hws : ws = []
  · subst hws
    simp [sqlClauses, survivors]
  · rw [if_pos ⟨hws, List.all_eq_true.mpr hpush⟩, mem_sqlClauses]
    have hholds : Holds p (ws.foldl (mergeConjunct p) .empty) (survivors p ws) :=
      holds_foldl ws (fun key v => by simp [operand])
    constructor
    · rintro ⟨key, v, hv, rfl⟩
      obtain ⟨s, hs, rfl, rfl⟩ := (hholds key v).mp hv
      exact ⟨s, hs, rfl⟩
    · rintro ⟨s, hs, rfl⟩
      exact ⟨conjunctKey p s, canonicalValue s, (hholds _ _).mpr ⟨s, hs, rfl, rfl⟩, rfl⟩

theorem pushedTests_unpushable {p : FilterPath} {ws : List WhereEntry} {w : WhereEntry}
    (hw : w ∈ ws) (h : pushable p w ≠ true) : pushedTests p ws = [] := by
  unfold pushedTests canonicalFilter
  rw [if_neg fun hall => h (List.all_eq_true.mp hall.2 w hw)]
  rfl

theorem exact_pushable {p : FilterPath} {ws : List WhereEntry} (h : Exact p ws) :
    ∀ w ∈ ws, pushable p w = true := by
  intro w hw
  by_contra hno
  have hall := (h Unit (fun _ _ => False) ()).mp
    (by simp [pushedTests_unpushable hw hno])
  exact (hall w hw).2

theorem tests_subset {ts us : List RowTest} (hnever : RowTest.never ∉ ts)
    (h : ∀ (Row : Type) (holds : RowTest → Row → Prop) (row : Row),
      (∀ t ∈ ts, Satisfies holds t row) → ∀ u ∈ us, Satisfies holds u row) :
    ∀ u ∈ us, u ∈ ts ∧ u ≠ .never := by
  intro u hu
  have hsat := h Unit (fun t _ => t ∈ ts) () (fun t ht => ⟨fun e => hnever (e ▸ ht), ht⟩) u hu
  exact ⟨hsat.2, hsat.1⟩

def FilterPath.readable : FilterPath → List String
  | federated =>
    ["EQ", "=", "NE", "!=", "<>", "GT", ">", "GTE", ">=", "LT", "<", "LTE", "<=", "LIKE", "ILIKE",
      "IN", "IS_NULL", "IS_NOT_NULL", "MATCH", "CONTAINS"]
  | stream =>
    ["EQ", "=", "NE", "GT", "GTE", "LT", "LTE", "LIKE", "ILIKE", "IN", "IS_NULL", "IS_NOT_NULL"]

theorem sqlClause_compare {key : String} {op : CanonicalOp} {v : JsValue}
    (hop : op ∉ [.inList, .fullText, .fuzzy]) (hv : v ≠ .null ∨ op ∉ [.eq, .ne]) :
    sqlClause key op v = .compare (sqlOperator op) (quoteColumn key) v := by
  unfold sqlClause
  split <;> simp_all

/-- A conjunct of one plain column, with neither expression nor search. -/
structure PlainConjunct (w : WhereEntry) (column : String) : Prop where
  noExpression : w.expression.isNullish = true
  noSearch : w.search.isNullish = true
  column_eq : w.column = .str column
  dotted : isDottedIdent column = true
  noStar : containsChar '*' column = false

theorem strictPart_keepOnly {s : String} (h : strictPart s = true) : keepOnly isWord s = s := by
  unfold strictPart matchesWord at h
  rw [← String.toList_inj, keepOnly_toList, List.filter_eq_self]
  intro c hc
  split at h
  · cases h
  · rename_i first rest heq
    rw [heq, List.mem_cons] at hc
    simp only [Bool.and_eq_true, List.all_eq_true] at h
    rcases hc with rfl | hc
    · have := h.1.1
      unfold isWordStart at this
      unfold isWord Char.isAlphanum
      rw [Bool.or_eq_true] at this ⊢
      exact this.imp_left fun ha => by rw [ha, Bool.true_or]
    · exact h.1.2 c hc

def whereEntries (ast : JsValue) : List WhereEntry := (ast.get "where").elements.map WhereEntry.ofJs

def twoExclusions : JsValue :=
  .obj [("from", .obj [("resource", .str "users")]),
    ("where", .arr [
      .obj [("column", .str "age"), ("operator", .str "NE"), ("value", .num 1)],
      .obj [("column", .str "age"), ("operator", .str "NE"), ("value", .num 2)]])]

end DataFabric.CanonicalFilters
