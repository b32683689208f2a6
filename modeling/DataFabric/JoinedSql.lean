import DataFabric.AstGuard
import DataFabric.PairedRuns

set_option autoImplicit false

/-!
# One statement for a co-located query

The whole AST becomes one parameterized statement of the source. Parts of the AST
that are read for their own sake stay as they come in a request.
-/
namespace DataFabric.JoinedSql
open CharText JsValues TenantIdentifiers AstGuard PairedRuns

inductive SqlDialect | postgres | mysql | snowflake | oracle
  deriving DecidableEq, Repr

inductive Conjunct
  | notObject
  | entry (w : WhereEntry)
  deriving DecidableEq

structure OnClause where
  left : JsValue
  operator : JsValue
  right : JsValue

/-- The clauses of a node that hold no further query; a list is empty unless an array is given. -/
structure Clauses where
  distinct : JsValue := .undefined
  select : JsValue := .undefined
  wheres : List Conjunct := []
  groupBy : JsValue := .undefined
  having : List Conjunct := []
  orderBy : JsValue := .undefined
  limit : JsValue := .undefined
  offset : JsValue := .undefined

mutual

/-- A node of the AST; the legs of a set operation are there when an array is given, `with` and
`joins` are lists of objects. -/
inductive Node
  | missing
  | query (ctes : List Cte) (union intersect except : Option (List Node)) (source : Ref)
      (joins : List Join) (clauses : Clauses)

inductive Cte
  | cte (name columns : JsValue) (base : Node) (unionAll : Option Node)

inductive Ref
  | missing
  | table (source resource aliasName : JsValue)
  | derived (query : Node) (aliasName : JsValue)

inductive Join
  | join (type : JsValue) (on : Option OnClause) (ref : Ref)

end

structure Physical where
  schema : Option String
  table : String

/-- The dialect, the leg resolution of the caller, and the language's `v > 0`. -/
structure Target where
  dialect : SqlDialect
  resolve : JsValue → JsValue → Except FabricError Physical
  positive : JsValue → Bool

abbrev Compile := StateT (List JsValue) (Except FabricError)

def typeError {α : Type} (message : String) : Compile α := throw (.unexpected message)

def fail {α : Type} (message : String) : Compile α := throw (.unexpected ("co-located pushdown: " ++ message))

/-- The names of the CTEs of the tree; derived tables are not looked into. -/
def has (names : List JsValue) : JsValue → Bool
  | .prim p => (JsValue.prim p) ∈ names
  -- an object is only the same as itself
  | _ => false

mutual

def collectCtes : Node → List JsValue
  | .missing => []
  | .query ctes union intersect except _ _ _ =>
    collectCteList ctes ++ collectSet union ++ collectSet intersect ++ collectSet except

def collectSet : Option (List Node) → List JsValue
  | none => []
  | some legs => collectLegs legs

def collectLegs : List Node → List JsValue
  | [] => []
  | n :: ns => collectCtes n ++ collectLegs ns

def collectCteList : List Cte → List JsValue
  | [] => []
  | .cte name _ base unionAll :: cs =>
    (if name.truthy then [name] else []) ++ collectCtes base ++ collectUnionAll unionAll ++ collectCteList cs

def collectUnionAll : Option Node → List JsValue
  | none => []
  | some n => collectCtes n

end

def identifierPart (s : String) : Bool :=
  match s.toList with
  | [] => false
  | c :: cs => isWordStart c && cs.all isWord

/-- `/^(\*|[A-Za-z_][A-Za-z0-9_]*(\.[A-Za-z_][A-Za-z0-9_]*)*(\.\*)?)$/` -/
def isIdentPath (s : String) : Bool :=
  s = "*" ||
    let parts := split '.' s
    parts.all identifierPart ||
      (parts.getLast? = some "*" && parts.dropLast ≠ [] && parts.dropLast.all identifierPart)

namespace Target

variable (t : Target)

def ident (name : JsValue) : String := keepOnly isWord name.text

def quoteIdent (name : JsValue) : String :=
  match t.dialect with
  | .mysql => String.ofList ['\x60'] ++ ident name ++ String.ofList ['\x60']
  | .oracle => "\"" ++ upperCase (ident name) ++ "\""
  | .postgres | .snowflake => "\"" ++ ident name ++ "\""

def quoteColumn (path : String) : String :=
  if path = "" ∨ path = "*" then "*"
  else ".".intercalate ((split '.' path).map fun part => t.quoteIdent (.str part))

def quoteColumnPath (path : JsValue) : String :=
  if !path.truthy || path = .str "*" then "*"
  else
    let p := path.text
    if endsWith p ".*" then t.quoteColumn (String.ofList (p.toList.dropLast.dropLast)) ++ ".*"
    else t.quoteColumn p

def col (path : JsValue) : Compile String :=
  if isIdentPath path.text then pure (t.quoteColumnPath path)
  else fail ("unsupported column expression \"" ++ path.text ++ "\"")

def placeholderText (n : ℕ) : String :=
  match t.dialect with
  | .postgres => "$" ++ toString n
  | .oracle => ":" ++ toString n
  | .mysql | .snowflake => "?"

def placeholder (v : JsValue) : Compile String :=
  fun params => .ok (t.placeholderText (params.length + 1), params ++ [v])

def aliased (base : String) (aliasName : JsValue) : String :=
  if aliasName.truthy then base ++ " " ++ t.quoteIdent aliasName else base

def tableName (names : List JsValue) (source resource aliasName : JsValue) : Compile String :=
  if !resource.truthy then fail "missing FROM/JOIN resource"
  else if has names resource then pure (t.aliased (t.quoteIdent resource) aliasName)
  else do
    let p ← StateT.lift (t.resolve source resource)
    let base :=
      match p.schema with
      | some schema =>
        if schema = "" then t.quoteIdent (.str p.table)
        else t.quoteIdent (.str schema) ++ "." ++ t.quoteIdent (.str p.table)
      | none => t.quoteIdent (.str p.table)
    pure (t.aliased base aliasName)

def astOperators : List (String × String) :=
  [("EQ", "="), ("NE", "!="), ("GT", ">"), ("LT", "<"), ("GTE", ">="), ("LTE", "<="), ("LIKE", "LIKE"),
    ("ILIKE", "ILIKE"), ("IN", "IN"), ("NIN", "NOT IN"), ("IS_NULL", "IS NULL"), ("IS_NOT_NULL", "IS NOT NULL")]

def aggWhitelist : List String := ["COUNT", "SUM", "MIN", "MAX", "AVG", "COUNT_DISTINCT"]

def tokenOf (v : JsValue) (absent : String) : String := upperCase (if v.truthy then v.text else absent)

def asAlias (expr : String) (aliasName : JsValue) : String :=
  if aliasName.truthy then expr ++ " AS " ++ t.quoteIdent aliasName else expr

def aggregated (column : JsValue) : Compile String :=
  if !column.truthy || column = .str "*" then pure "*" else t.col column

def aggregateSql (c : JsValue) : Compile String := do
  let fn := upperCase (c.get "aggregate").text
  if fn ∉ aggWhitelist then fail ("unsupported aggregate \"" ++ (c.get "aggregate").text ++ "\"")
  else do
    let inner ← t.aggregated (c.get "column")
    let expr := if fn = "COUNT_DISTINCT" then "COUNT(DISTINCT " ++ inner ++ ")" else fn ++ "(" ++ inner ++ ")"
    pure (t.asAlias expr (c.get "alias"))

def selectSql (c : JsValue) : Compile String :=
  match c with
  | .str _ => t.col c
  | _ =>
    if (c.get "aggregate").truthy then t.aggregateSql c
    else if (c.get "column").truthy then do
      pure (t.asAlias (← t.col (c.get "column")) (c.get "alias"))
    else fail "unsupported SELECT item"

/-- The elements of an `IN` list; a single value is a list of one. -/
def listed : JsValue → List JsValue
  | .arr vs => vs
  | v => [v]

def comparisonSql (token sqlOp c : String) (value : JsValue) : Compile String :=
  if token = "IS_NULL" ∨ token = "IS_NOT_NULL" then pure (c ++ " " ++ sqlOp)
  else if token = "IN" ∨ token = "NIN" then
    if listed value = [] then pure (if token = "IN" then "1 = 0" else "1 = 1")
    else do
      let ps ← (listed value).mapM t.placeholder
      pure (c ++ " " ++ sqlOp ++ " (" ++ ", ".intercalate ps ++ ")")
  else if value = .null ∧ (token = "EQ" ∨ token = "NE") then
    pure (c ++ " IS " ++ (if token = "NE" then "NOT " else "") ++ "NULL")
  else if token = "ILIKE" ∧ t.dialect ≠ .postgres then do
    pure ("LOWER(" ++ c ++ ") LIKE LOWER(" ++ (← t.placeholder value) ++ ")")
  else do
    pure (c ++ " " ++ sqlOp ++ " " ++ (← t.placeholder value))

def predSql : Conjunct → Compile String
  | .notObject => fail "unsupported predicate (raw expression / full-text search)"
  | .entry w =>
    if w.expression.truthy || w.search.truthy then
      fail "unsupported predicate (raw expression / full-text search)"
    else
      match astOperators.lookup (tokenOf w.operator "EQ") with
      | none => fail ("unsupported operator \"" ++ w.operator.text ++ "\"")
      | some sqlOp => do
        let c ← t.col w.column
        t.comparisonSql (tokenOf w.operator "EQ") sqlOp c w.value

def conjunction (keyword : String) (ws : List Conjunct) : Compile String :=
  if ws.isEmpty then pure ""
  else do
    pure (" " ++ keyword ++ " " ++ " AND ".intercalate (← ws.mapM t.predSql))

def floorText (q : ℚ) : String := toString (q.num / q.den)

def limitOffset (limit offset : JsValue) : String :=
  let rows (word : String) (v : JsValue) (least : ℚ → Bool) (after : String) : String :=
    match v with
    | .num q => if least q then " " ++ word ++ " " ++ floorText q ++ after else ""
    | _ => ""
  if t.dialect = .oracle then
    rows "OFFSET" offset (0 < ·) " ROWS" ++
      rows ("FETCH " ++ (if offset.truthy && t.positive offset then "NEXT" else "FIRST")) limit (0 ≤ ·) " ROWS ONLY"
  else rows "LIMIT" limit (0 ≤ ·) "" ++ rows "OFFSET" offset (0 < ·) ""

def orderTerm (o : JsValue) : Compile String :=
  if o.isNullish then typeError "Cannot read properties of null (reading 'column')"
  else do
    let column ← t.col (if (o.get "column").truthy then o.get "column" else o.get "field")
    let dir := if (o.get "direction").truthy then o.get "direction" else o.get "dir"
    pure (column ++ " " ++ (if dir = .str "DESC" then "DESC" else "ASC"))

def orderTerms (os : List JsValue) : Compile String := do
  pure (" ORDER BY " ++ ", ".intercalate (← os.mapM t.orderTerm))

def orderByQuery (orderBy : JsValue) : Compile String :=
  match orderBy with
  | .arr (o :: os) => t.orderTerms (o :: os)
  | _ => pure ""

/-- ORDER BY of a set operation: anything with a length is taken for an array. -/
def orderBySet (orderBy : JsValue) : Compile String :=
  match orderBy with
  | .arr (o :: os) => t.orderTerms (o :: os)
  | .arr [] => pure ""
  | .str s => if s = "" then pure "" else typeError "node.orderBy.map is not a function"
  | v => if (v.get "length").truthy then typeError "node.orderBy.map is not a function" else pure ""

def selectList (select : JsValue) : Compile String :=
  match select with
  | .arr (c :: cs) => do pure (", ".intercalate (← (c :: cs).mapM t.selectSql))
  | _ => pure "*"

def groupBySql (groupBy : JsValue) : Compile String :=
  match groupBy with
  | .arr (g :: gs) => do
    pure (" GROUP BY " ++ ", ".intercalate (← (g :: gs).mapM fun g => t.col (.str g.text)))
  | _ => pure ""

def cteHead (name columns : JsValue) : String :=
  match columns with
  | .arr (c :: cs) => t.quoteIdent name ++ "(" ++ ", ".intercalate ((c :: cs).map t.quoteIdent) ++ ")"
  | _ => t.quoteIdent name

def joinTypes : List String := ["INNER", "LEFT", "RIGHT", "FULL"]

/-- The condition of a join, in front of which its table is compiled. -/
def joinSql (type : JsValue) (on : Option OnClause) (ref : Compile String) : Compile String :=
  let jt := tokenOf type "INNER"
  if jt ∉ joinTypes then fail ("unsupported join type \"" ++ type.text ++ "\"")
  else match on with
    | none => fail "JOIN missing ON"
    | some on =>
      if !on.left.truthy || !on.right.truthy then fail "JOIN missing ON"
      else match astOperators.lookup (tokenOf on.operator "EQ") with
        | none => fail ("unsupported join operator \"" ++ on.operator.text ++ "\"")
        | some onOp => do
          let table ← ref
          let left ← t.col on.left
          let right ← t.col on.right
          pure (" " ++ jt ++ (if jt = "FULL" then " OUTER" else "") ++ " JOIN " ++ table ++ " ON " ++ left ++ " " ++
            onOp ++ " " ++ right)

def setSql (op : String) (count : ℕ) (pre : String) (legs : Compile (List String)) (c : Clauses) : Compile String :=
  if count < 2 then fail (op ++ " needs >= 2 legs")
  else do
    let legs ← legs
    let body := (" " ++ op ++ " ").intercalate (legs.map fun leg => "(" ++ leg ++ ")")
    let order ← t.orderBySet c.orderBy
    pure (pre ++ body ++ order ++ t.limitOffset c.limit c.offset)

def querySql (pre : String) (source : Compile String) (joins : Compile (List String)) (c : Clauses) :
    Compile String := do
  let cols ← t.selectList c.select
  let source ← source
  let joins ← joins
  let wheres ← t.conjunction "WHERE" c.wheres
  let groupBy ← t.groupBySql c.groupBy
  let having ← t.conjunction "HAVING" c.having
  let order ← t.orderByQuery c.orderBy
  pure (pre ++ "SELECT " ++ (if c.distinct.truthy then "DISTINCT " else "") ++ cols ++ " FROM " ++ source ++
    "".intercalate joins ++ wheres ++ groupBy ++ having ++ order ++ t.limitOffset c.limit c.offset)

def withSql (parts : List String) : String :=
  if parts.isEmpty then "" else "WITH " ++ ", ".intercalate parts ++ " "

def isMissing : Ref → Bool
  | .missing => true
  | _ => false

mutual

def compile (names : List JsValue) : Node → Compile String
  | .missing => fail "empty query node"
  | .query ctes union intersect except source joins c => do
    let pre := withSql (← compileCtes names ctes)
    match union with
    | some legs => t.setSql "UNION" legs.length pre (compileLegs names legs) c
    | none =>
      match intersect with
      | some legs => t.setSql "INTERSECT" legs.length pre (compileLegs names legs) c
      | none =>
        match except with
        | some legs => t.setSql "EXCEPT" legs.length pre (compileLegs names legs) c
        | none =>
          if isMissing source then fail "missing FROM"
          else t.querySql pre (tableRef names source) (compileJoins names joins) c

def compileLegs (names : List JsValue) : List Node → Compile (List String)
  | [] => pure []
  | n :: ns => do
    let leg ← compile names n
    let legs ← compileLegs names ns
    pure (leg :: legs)

def compileCtes (names : List JsValue) : List Cte → Compile (List String)
  | [] => pure []
  | .cte name columns base unionAll :: cs =>
    if unionAll.isSome then fail "recursive CTE not supported"
    else do
      let body ← compile names base
      let parts ← compileCtes names cs
      pure ((t.cteHead name columns ++ " AS (" ++ body ++ ")") :: parts)

def tableRef (names : List JsValue) : Ref → Compile String
  | .missing => fail "missing FROM/JOIN reference"
  | .table source resource aliasName => t.tableName names source resource aliasName
  | .derived query aliasName =>
    if !aliasName.truthy then fail "a derived-table subquery needs an alias"
    else do
      let body ← compile names query
      pure ("(" ++ body ++ ") " ++ t.quoteIdent aliasName)

def compileJoins (names : List JsValue) : List Join → Compile (List String)
  | [] => pure []
  | .join type on ref :: js => do
    let j ← t.joinSql type on (tableRef names ref)
    let joins ← compileJoins names js
    pure (j :: joins)

end

end Target

structure CompiledSql where
  text : String
  params : List JsValue

def toJoinSql (t : Target) (ast : Node) : Except FabricError CompiledSql :=
  (t.compile (collectCtes ast) ast []).map fun r => ⟨r.1, r.2⟩

/-- What the text may depend on: whether it is null, and how long a list is. -/
def valueShape : JsValue → JsValue
  | .null => .null
  | .arr vs => .arr (vs.map fun _ => .undefined)
  | _ => .undefined

def Conjunct.shape : Conjunct → Conjunct
  | .notObject => .notObject
  | .entry w => .entry { w with value := valueShape w.value }

def Clauses.shape (c : Clauses) : Clauses :=
  { c with wheres := c.wheres.map Conjunct.shape, having := c.having.map Conjunct.shape }

mutual

def Node.shape : Node → Node
  | .missing => .missing
  | .query ctes union intersect except source joins c =>
    .query (cteShapes ctes) (setShape union) (setShape intersect) (setShape except) (Ref.shape source)
      (joinShapes joins) c.shape

def setShape : Option (List Node) → Option (List Node)
  | none => none
  | some legs => some (legShapes legs)

def legShapes : List Node → List Node
  | [] => []
  | n :: ns => Node.shape n :: legShapes ns

def cteShapes : List Cte → List Cte
  | [] => []
  | .cte name columns base unionAll :: cs =>
    .cte name columns (Node.shape base) (unionAllShape unionAll) :: cteShapes cs

def unionAllShape : Option Node → Option Node
  | none => none
  | some n => some (Node.shape n)

def Ref.shape : Ref → Ref
  | .missing => .missing
  | .table source resource aliasName => .table source resource aliasName
  | .derived query aliasName => .derived (Node.shape query) aliasName

def joinShapes : List Join → List Join
  | [] => []
  | .join type on ref :: js => .join type on (Ref.shape ref) :: joinShapes js

end

/-- Two parameter lists that the next placeholder cannot tell apart. -/
def SameCount (ps qs : List JsValue) : Prop := ps.length = qs.length

section

variable (t : Target)

theorem placeholder_paired (v w : JsValue) : Paired SameCount (t.placeholder v) (t.placeholder w) := by
  intro ps qs h
  have hlen : ps.length = qs.length := h
  refine ⟨by rw [hlen], ?_⟩
  change (ps ++ [v]).length = (qs ++ [w]).length
  rw [List.length_append, List.length_append, hlen]
  rfl

theorem col_paired (path : JsValue) : Paired SameCount (t.col path) (t.col path) := by
  unfold Target.col
  exact paired_ite (paired_pure _) (paired_throw _)

theorem listed_shape (v : JsValue) : (Target.listed (valueShape v)).length = (Target.listed v).length := by
  match v with
  | .arr vs =>
    change (vs.map fun _ => JsValue.undefined).length = vs.length
    exact List.length_map _
  | .undefined | .null | .bool _ | .num _ | .str _ | .obj _ => rfl

theorem valueShape_null (v : JsValue) : valueShape v = .null ↔ v = .null := by
  match v with
  | .null => simp [valueShape]
  | .arr _ | .undefined | .bool _ | .num _ | .str _ | .obj _ => simp [valueShape]

theorem comparisonSql_paired (token sqlOp c : String) (v : JsValue) :
    Paired SameCount (t.comparisonSql token sqlOp c v) (t.comparisonSql token sqlOp c (valueShape v)) := by
  unfold Target.comparisonSql
  refine paired_ite (paired_pure _) ?_
  by_cases hin : token = "IN" ∨ token = "NIN"
  · rw [if_pos hin, if_pos hin]
    have hlen := listed_shape v
    by_cases hnil : Target.listed v = []
    · have hnil' : Target.listed (valueShape v) = [] := by
        rw [← List.length_eq_zero_iff, hlen, hnil]
        rfl
      rw [if_pos hnil, if_pos hnil']
      exact paired_pure _
    · have hnil' : Target.listed (valueShape v) ≠ [] := by
        intro h
        rw [h] at hlen
        exact hnil (List.length_eq_zero_iff.mp hlen.symm)
      rw [if_neg hnil, if_neg hnil']
      have hall : List.Forall₂ (fun x y => Paired SameCount (t.placeholder x) (t.placeholder y))
          (Target.listed v) (Target.listed (valueShape v)) :=
        List.forall₂_iff_get.mpr ⟨hlen.symm, fun _ _ _ => placeholder_paired t _ _⟩
      exact paired_bind (paired_mapM hall) fun _ => paired_pure _
  · rw [if_neg hin, if_neg hin]
    simp only [valueShape_null]
    refine paired_ite (paired_pure _) (paired_ite ?_ ?_)
    · exact paired_bind (placeholder_paired t _ _) fun _ => paired_pure _
    · exact paired_bind (placeholder_paired t _ _) fun _ => paired_pure _

theorem predSql_paired (w : Conjunct) : Paired SameCount (t.predSql w) (t.predSql w.shape) := by
  cases w with
  | notObject => exact paired_throw _
  | entry w =>
    unfold Conjunct.shape Target.predSql
    refine paired_ite (paired_throw _) ?_
    cases Target.astOperators.lookup (Target.tokenOf w.operator "EQ") with
    | none => exact paired_throw _
    | some sqlOp => exact paired_bind (col_paired t _) fun c => comparisonSql_paired t _ _ c _

theorem conjunction_paired (keyword : String) (ws : List Conjunct) :
    Paired SameCount (t.conjunction keyword ws) (t.conjunction keyword (ws.map Conjunct.shape)) := by
  unfold Target.conjunction
  rw [List.isEmpty_map]
  refine paired_ite (paired_pure _) (paired_bind (paired_mapM ?_) fun _ => paired_pure _)
  exact List.forall₂_map_right_iff.mpr (List.forall₂_same.mpr fun w _ => predSql_paired t w)

theorem mapM_col_paired {f : JsValue → Compile String} (h : ∀ v, Paired SameCount (f v) (f v)) (vs : List JsValue) :
    Paired SameCount (vs.mapM f) (vs.mapM f) :=
  paired_mapM (List.forall₂_same.mpr fun v _ => h v)

theorem tableName_paired (names : List JsValue) (source resource aliasName : JsValue) :
    Paired SameCount (t.tableName names source resource aliasName) (t.tableName names source resource aliasName) := by
  unfold Target.tableName
  refine paired_ite (paired_throw _) (paired_ite (paired_pure _) ?_)
  exact paired_bind (paired_lift _) fun _ => paired_pure _

theorem aggregateSql_paired (c : JsValue) : Paired SameCount (t.aggregateSql c) (t.aggregateSql c) := by
  unfold Target.aggregateSql
  refine paired_ite (paired_throw _) (paired_bind ?_ fun _ => paired_pure _)
  unfold Target.aggregated
  exact paired_ite (paired_pure _) (col_paired t _)

theorem selectSql_paired (c : JsValue) : Paired SameCount (t.selectSql c) (t.selectSql c) := by
  unfold Target.selectSql
  split
  · exact col_paired t _
  · refine paired_ite (aggregateSql_paired t c) (paired_ite ?_ (paired_throw _))
    exact paired_bind (col_paired t _) fun _ => paired_pure _

theorem selectList_paired (select : JsValue) : Paired SameCount (t.selectList select) (t.selectList select) := by
  unfold Target.selectList
  split
  · exact paired_bind (mapM_col_paired (selectSql_paired t) _) fun _ => paired_pure _
  · exact paired_pure _

theorem groupBySql_paired (groupBy : JsValue) : Paired SameCount (t.groupBySql groupBy) (t.groupBySql groupBy) := by
  unfold Target.groupBySql
  split
  · exact paired_bind (mapM_col_paired (fun g => col_paired t (.str g.text)) _) fun _ => paired_pure _
  · exact paired_pure _

theorem orderTerms_paired (os : List JsValue) : Paired SameCount (t.orderTerms os) (t.orderTerms os) := by
  refine paired_bind (mapM_col_paired (fun o => ?_) os) fun _ => paired_pure _
  unfold Target.orderTerm
  exact paired_ite (paired_throw _) (paired_bind (col_paired t _) fun _ => paired_pure _)

theorem orderByQuery_paired (orderBy : JsValue) :
    Paired SameCount (t.orderByQuery orderBy) (t.orderByQuery orderBy) := by
  unfold Target.orderByQuery
  split
  · exact orderTerms_paired t _
  · exact paired_pure _

theorem orderBySet_paired (orderBy : JsValue) : Paired SameCount (t.orderBySet orderBy) (t.orderBySet orderBy) := by
  unfold Target.orderBySet
  split
  · exact orderTerms_paired t _
  · exact paired_pure _
  · exact paired_ite (paired_pure _) (paired_throw _)
  · exact paired_ite (paired_throw _) (paired_pure _)

theorem joinSql_paired (type : JsValue) (on : Option OnClause) {x y : Compile String} (h : Paired SameCount x y) :
    Paired SameCount (t.joinSql type on x) (t.joinSql type on y) := by
  unfold Target.joinSql
  refine paired_ite (paired_throw _) ?_
  cases on with
  | none => exact paired_throw _
  | some on =>
    refine paired_ite (paired_throw _) ?_
    cases Target.astOperators.lookup (Target.tokenOf on.operator "EQ") with
    | none => exact paired_throw _
    | some onOp =>
      exact paired_bind h fun _ => paired_bind (col_paired t _) fun _ => paired_bind (col_paired t _) fun _ =>
        paired_pure _

theorem setSql_paired (op : String) (count : ℕ) (pre : String) (c : Clauses) {x y : Compile (List String)}
    (h : Paired SameCount x y) : Paired SameCount (t.setSql op count pre x c) (t.setSql op count pre y c.shape) := by
  unfold Target.setSql
  refine paired_ite (paired_throw _) (paired_bind h fun _ => ?_)
  exact paired_bind (orderBySet_paired t _) fun _ => paired_pure _

theorem querySql_paired (pre : String) (c : Clauses) {x y : Compile String} {xs ys : Compile (List String)}
    (h : Paired SameCount x y) (hs : Paired SameCount xs ys) :
    Paired SameCount (t.querySql pre x xs c) (t.querySql pre y ys c.shape) := by
  unfold Target.querySql
  refine paired_bind (selectList_paired t _) fun _ => paired_bind h fun _ => paired_bind hs fun _ => ?_
  refine paired_bind (conjunction_paired t _ _) fun _ => paired_bind (groupBySql_paired t _) fun _ => ?_
  refine paired_bind (conjunction_paired t _ _) fun _ => paired_bind (orderByQuery_paired t _) fun _ => ?_
  exact paired_pure _

theorem legShapes_length (ns : List Node) : (legShapes ns).length = ns.length := by
  induction ns with
  | nil => rfl
  | cons n ns ih => simp [legShapes, ih]

theorem isMissing_shape (r : Ref) : Target.isMissing r.shape = Target.isMissing r := by
  cases r <;> rfl

mutual

theorem compile_paired (names : List JsValue) : (n : Node) →
    Paired SameCount (t.compile names n) (t.compile names n.shape)
  | .missing => paired_throw _
  | .query ctes union intersect except source joins c => by
    rw [Node.shape, Target.compile, Target.compile]
    refine paired_bind (compileCtes_paired names ctes) fun parts => ?_
    match union with
    | some legs =>
      rw [setShape]
      dsimp only
      rw [legShapes_length]
      exact setSql_paired t _ _ _ c (compileLegs_paired names legs)
    | none =>
      match intersect with
      | some legs =>
        rw [setShape, setShape]
        dsimp only
        rw [legShapes_length]
        exact setSql_paired t _ _ _ c (compileLegs_paired names legs)
      | none =>
        match except with
        | some legs =>
          rw [setShape, setShape]
          dsimp only
          rw [legShapes_length]
          exact setSql_paired t _ _ _ c (compileLegs_paired names legs)
        | none =>
          rw [setShape]
          dsimp only
          rw [isMissing_shape]
          refine paired_ite (paired_throw _) ?_
          exact querySql_paired t _ c (tableRef_paired names source) (compileJoins_paired names joins)

theorem compileLegs_paired (names : List JsValue) : (ns : List Node) →
    Paired SameCount (t.compileLegs names ns) (t.compileLegs names (legShapes ns))
  | [] => paired_pure _
  | n :: ns => by
    rw [legShapes, Target.compileLegs, Target.compileLegs]
    refine paired_bind (compile_paired names n) fun _ => ?_
    exact paired_bind (compileLegs_paired names ns) fun _ => paired_pure _

theorem compileCtes_paired (names : List JsValue) : (cs : List Cte) →
    Paired SameCount (t.compileCtes names cs) (t.compileCtes names (cteShapes cs))
  | [] => paired_pure _
  | .cte name columns base unionAll :: cs => by
    rw [cteShapes, Target.compileCtes, Target.compileCtes]
    have hsome : (unionAllShape unionAll).isSome = unionAll.isSome := by
      cases unionAll <;> rfl
    rw [hsome]
    refine paired_ite (paired_throw _) (paired_bind (compile_paired names base) fun _ => ?_)
    exact paired_bind (compileCtes_paired names cs) fun _ => paired_pure _

theorem tableRef_paired (names : List JsValue) : (r : Ref) →
    Paired SameCount (t.tableRef names r) (t.tableRef names r.shape)
  | .missing => paired_throw _
  | .table source resource aliasName => tableName_paired t names source resource aliasName
  | .derived query aliasName => by
    rw [Ref.shape, Target.tableRef, Target.tableRef]
    refine paired_ite (paired_throw _) ?_
    exact paired_bind (compile_paired names query) fun _ => paired_pure _

theorem compileJoins_paired (names : List JsValue) : (js : List Join) →
    Paired SameCount (t.compileJoins names js) (t.compileJoins names (joinShapes js))
  | [] => paired_pure _
  | .join type on ref :: js => by
    rw [joinShapes, Target.compileJoins, Target.compileJoins]
    refine paired_bind (joinSql_paired t type on (tableRef_paired names ref)) fun _ => ?_
    exact paired_bind (compileJoins_paired names js) fun _ => paired_pure _

end

end

mutual

theorem collectCtes_shape : (n : Node) → collectCtes n.shape = collectCtes n
  | .missing => rfl
  | .query ctes union intersect except source joins c => by
    rw [Node.shape, collectCtes, collectCtes, collectCteList_shape ctes, collectSet_shape union,
      collectSet_shape intersect, collectSet_shape except]

theorem collectSet_shape : (legs : Option (List Node)) → collectSet (setShape legs) = collectSet legs
  | none => rfl
  | some legs => by rw [setShape, collectSet, collectSet, collectLegs_shape legs]

theorem collectLegs_shape : (ns : List Node) → collectLegs (legShapes ns) = collectLegs ns
  | [] => rfl
  | n :: ns => by
    rw [legShapes, collectLegs, collectLegs, collectCtes_shape n, collectLegs_shape ns]

theorem collectCteList_shape : (cs : List Cte) → collectCteList (cteShapes cs) = collectCteList cs
  | [] => rfl
  | .cte name columns base unionAll :: cs => by
    rw [cteShapes, collectCteList, collectCteList, collectCtes_shape base, collectCteList_shape cs,
      collectUnionAll_shape unionAll]

theorem collectUnionAll_shape : (n : Option Node) → collectUnionAll (unionAllShape n) = collectUnionAll n
  | none => rfl
  | some n => by rw [unionAllShape, collectUnionAll, collectUnionAll, collectCtes_shape n]

end

theorem toJoinSql_shape (t : Target) (ast : Node) :
    (toJoinSql t ast).map (fun r => (r.text, r.params.length)) =
      (toJoinSql t ast.shape).map fun r => (r.text, r.params.length) := by
  have h := compile_paired t (collectCtes ast) ast [] [] rfl
  unfold toJoinSql
  rw [collectCtes_shape]
  cases hx : t.compile (collectCtes ast) ast [] with
  | error e =>
    cases hy : t.compile (collectCtes ast) ast.shape [] with
    | error e' =>
      rw [hx, hy] at h
      exact congrArg Except.error h
    | ok q =>
      rw [hx, hy] at h
      exact h.elim
  | ok p =>
    cases hy : t.compile (collectCtes ast) ast.shape [] with
    | error e' =>
      rw [hx, hy] at h
      exact h.elim
    | ok q =>
      rw [hx, hy] at h
      exact congrArg Except.ok (Prod.ext h.1 h.2)

/-- Two ASTs that differ in the values of their conjuncts alone become one text, with as many parameters. -/
theorem values_stay_out (t : Target) {a b : Node} (h : a.shape = b.shape) :
    (toJoinSql t a).map (fun r => (r.text, r.params.length)) =
      (toJoinSql t b).map fun r => (r.text, r.params.length) := by
  rw [toJoinSql_shape t a, h, ← toJoinSql_shape t b]

def shopDatabase : Target where
  dialect := .postgres
  resolve _ resource := .ok ⟨some "shop", resource.text⟩
  positive _ := false

def usersNamed (name : String) : Node :=
  .query [] none none none (.table .undefined (.str "users") .undefined) []
    { wheres := [.entry { column := .str "name", operator := .str "LIKE", value := .str name }] }

theorem users_named_alike :
    (toJoinSql shopDatabase (usersNamed "a%")).map (fun r => (r.text, r.params.length)) =
      (toJoinSql shopDatabase (usersNamed "' OR 1=1 --")).map fun r => (r.text, r.params.length) :=
  values_stay_out shopDatabase rfl

example : (toJoinSql shopDatabase (usersNamed "a%")).map CompiledSql.text =
    .ok "SELECT * FROM \"shop\".\"users\" WHERE \"name\" LIKE $1" := by
  rfl

end DataFabric.JoinedSql
