import DataFabric.ExceptRules
import DataFabric.SqlFragments

set_option autoImplicit false

/-! # Structural validation of a query AST -/
namespace DataFabric.AstGuard
open CharText JsValues TenantIdentifiers SqlFragments ExceptRules

def astOperators : List String :=
  ["EQ", "NE", "GT", "LT", "GTE", "LTE", "LIKE", "ILIKE", "IN", "NIN", "NOT_IN", "IS_NULL",
    "IS_NOT_NULL", "MATCH", "CONTAINS", "=", "!=", "<>", ">", "<", ">=", "<="]

def aggregates : List String :=
  ["COUNT", "SUM", "AVG", "MIN", "MAX", "STDDEV", "VARIANCE", "ARRAY_AGG", "BOOL_AND", "BOOL_OR",
    "COUNT_DISTINCT"]

def windowFns : List String :=
  ["ROW_NUMBER", "RANK", "DENSE_RANK", "PERCENT_RANK", "CUME_DIST", "NTILE", "LAG", "LEAD",
    "FIRST_VALUE", "LAST_VALUE", "SUM", "AVG", "MIN", "MAX", "COUNT"]

def joinTypeRe (s : String) : Bool :=
  asciiLower s ∈ ["inner", "left", "right", "full", "cross", "inner outer", "left outer",
    "right outer", "full outer", "cross outer"]

def guardFor (tenantId : Option String) : GuardOptions := { tenantId := tenantId.filter (· ≠ "") }

def validateField (tenantId : Option String) (v : JsValue) (what : String) :
    Except FabricError Unit :=
  (fieldToSql v what tenantId).map fun _ => ()

def validateExpression (tenantId : Option String) (v : JsValue) (what : String) :
    Except FabricError Unit :=
  (assertSafeExpression v what (guardFor tenantId)).map fun _ => ()

def validateName (v : JsValue) (what : String) : Except FabricError Unit :=
  (assertSafeName v what).map fun _ => ()

def unlessNullish (v : JsValue) (check : Except FabricError Unit) : Except FabricError Unit :=
  if v.isNullish then .ok () else check

def guardThat (ok : Bool) (message : String) : Except FabricError Unit :=
  if ok then .ok () else .error (.sqlGuard message)

def validateDirection (d : JsValue) : Except FabricError Unit :=
  unlessNullish d (guardThat (asciiLower d.text ∈ ["asc", "desc"]) "Invalid sort direction")

structure WhereEntry where
  expression : JsValue := .undefined
  search : JsValue := .undefined
  column : JsValue := .undefined
  operator : JsValue := .undefined
  value : JsValue := .undefined
  deriving DecidableEq

def WhereEntry.ofJs (w : JsValue) : WhereEntry :=
  ⟨w.get "expression", w.get "search", w.get "column", w.get "operator", w.get "value"⟩

def hasNul : JsValue → Bool
  | .str s => containsChar '\x00' s
  | _ => false

def validateSearch (tenantId : Option String) (s : JsValue) : Except FabricError Unit := do
  guardThat s.isObj "Invalid where.search"
  validateField tenantId (s.get "column") "where.search.column"
  match s.get "query" with
  | .str q => guardThat (!containsChar '\x00' q) "Invalid where.search.query"
  | _ => .error (.sqlGuard "Invalid where.search.query")

def operatorText (v : JsValue) : String := upperCase v.text

def validateComparison (tenantId : Option String) (w : WhereEntry) : Except FabricError Unit := do
  validateField tenantId w.column "where.column"
  unlessNullish w.operator (guardThat (operatorText w.operator ∈ astOperators)
    s!"Invalid operator \"{slice 20 w.operator.text}\"")
  guardThat (!hasNul w.value) "Invalid where.value"

def validateWhereEntry (tenantId : Option String) (w : WhereEntry) : Except FabricError Unit :=
  if !w.expression.isNullish then validateExpression tenantId w.expression "where.expression"
  else if !w.search.isNullish then validateSearch tenantId w.search
  else validateComparison tenantId w

def validateWhere (tenantId : Option String) (w : JsValue) : Except FabricError Unit := do
  guardThat w.isObj "Invalid where entry"
  validateWhereEntry tenantId (.ofJs w)

def validateSort (tenantId : Option String) (what : String) (o : JsValue) : Except FabricError Unit := do
  validateField tenantId (o.get "column") what
  validateDirection (o.get "direction")

def validateSelectEntry (tenantId : Option String) (c : JsValue) : Except FabricError Unit :=
  match c with
  | .str _ => validateField tenantId c "select"
  | .obj _ => do
    unlessNullish (c.get "alias") (validateName (c.get "alias") "select.alias")
    unlessNullish (c.get "expression")
      (validateExpression tenantId (c.get "expression") "select.expression")
    unlessNullish (c.get "aggregate") (guardThat (operatorText (c.get "aggregate") ∈ aggregates)
      ("Invalid aggregate \"" ++ slice 20 (c.get "aggregate").text ++ "\""))
    unlessNullish (c.get "window") (guardThat (operatorText (c.get "window") ∈ windowFns)
      ("Invalid window function \"" ++ slice 20 (c.get "window").text ++ "\""))
    unlessNullish (c.get "column") (validateField tenantId (c.get "column") "select.column")
    (c.get "partitionBy").elements.forM fun p => validateField tenantId p "select.partitionBy"
    (c.get "orderBy").elements.forM (validateSort tenantId "select.orderBy")
  | _ => .error (.sqlGuard "Invalid select entry")

def validateHaving (h : JsValue) : Except FabricError Unit := do
  guardThat h.isObj "Invalid having entry"
  validateName (h.get "column") "having.column"

section

variable (tenantId : Option String) (sub : JsValue → Except FabricError Unit)

/-- A resource, or a derived table checked one level deeper. -/
def validateRef (r : JsValue) (what : String) : Except FabricError Unit := do
  guardThat r.isObj s!"Invalid {what}: must be an object"
  if (r.get "query").truthy then sub (r.get "query")
  else validateName (r.get "resource") s!"{what}.resource"
  unlessNullish (r.get "source") (validateName (r.get "source") s!"{what}.source")
  unlessNullish (r.get "alias") (validateName (r.get "alias") s!"{what}.alias")

def validateJoinOn (on : JsValue) : Except FabricError Unit :=
  match on with
  | .obj _ => do
    validateField tenantId (on.get "left") "join.on.left"
    validateField tenantId (on.get "right") "join.on.right"
    unlessNullish (on.get "operator")
      (guardThat (operatorText (on.get "operator") ∈ astOperators) "Invalid join.on.operator")
  | .str _ => validateExpression tenantId on "join.on"
  | _ => .ok ()

def validateJoin (j : JsValue) : Except FabricError Unit := do
  validateRef sub j "join"
  unlessNullish (j.get "type") (guardThat (joinTypeRe (j.get "type").text) "Invalid join.type")
  validateJoinOn tenantId (j.get "on")

def validateCte (cte : JsValue) : Except FabricError Unit := do
  guardThat cte.isObj "Invalid with entry"
  let _ ← assertIdent (cte.get "name") "with.name"
  unlessNullish (cte.get "columns") (guardThat (cte.get "columns").isArray "Invalid with.columns")
  (cte.get "columns").elements.forM fun c => (assertIdent c "with.columns").map fun _ => ()
  sub (cte.get "base")
  if (cte.get "unionAll").truthy then sub (cte.get "unionAll") else .ok ()

def validateRecursive (r : JsValue) : Except FabricError Unit :=
  unlessNullish r do
    guardThat r.isObj "Invalid recursive"
    unlessNullish (r.get "resource") (validateName (r.get "resource") "recursive.resource")
    unlessNullish (r.get "source") (validateName (r.get "source") "recursive.source")

def listClauses : List String :=
  ["select", "where", "joins", "groupBy", "orderBy", "having", "union", "intersect", "except", "with"]

def validateFrom (r : JsValue) : Except FabricError Unit :=
  if r.truthy then validateRef sub r "from" else .ok ()

def validatePage (v : JsValue) (what : String) : Except FabricError Unit :=
  unlessNullish v ((safeInt v what 0 1000000000).map fun _ => ())

/-- The clauses of one query node; `sub` checks the nodes below it. -/
def validateClauses (ast : JsValue) : Except FabricError Unit := do
  listClauses.forM fun k =>
    unlessNullish (ast.get k) (guardThat (ast.get k).isArray s!"Invalid {k}: must be an array")
  validateFrom sub (ast.get "from")
  (ast.get "joins").elements.forM (validateJoin tenantId sub)
  (ast.get "select").elements.forM (validateSelectEntry tenantId)
  (ast.get "where").elements.forM (validateWhere tenantId)
  (ast.get "groupBy").elements.forM fun g => validateField tenantId g "groupBy"
  (ast.get "orderBy").elements.forM (validateSort tenantId "orderBy.column")
  (ast.get "having").elements.forM validateHaving
  validatePage (ast.get "limit") "limit"
  validatePage (ast.get "offset") "offset"
  ["union", "intersect", "except"].forM fun k => (ast.get k).elements.forM sub
  (ast.get "with").elements.forM (validateCte sub)
  validateRecursive (ast.get "recursive")

end

/-- One level of nesting is left for every node on the way down from the root. -/
def validateAstAt (tenantId : Option String) : ℕ → JsValue → Except FabricError Unit
  | 0, ast =>
    if ast.isObj then .error (.sqlGuard "Invalid query: nested too deeply")
    else .error (.sqlGuard "Invalid query: must be an object")
  | level + 1, ast =>
    if ast.isObj then validateClauses tenantId (validateAstAt tenantId level) ast
    else .error (.sqlGuard "Invalid query: must be an object")

def validateAst (tenantId : Option String) (ast : JsValue) : Except FabricError Unit :=
  validateAstAt tenantId 13 ast

theorem forM_ok {α : Type} {xs : List α} {f : α → Except FabricError Unit}
    (h : xs.forM f = .ok ()) : ∀ x ∈ xs, f x = .ok () := by
  induction xs with
  | nil => exact fun _ hx => absurd hx List.not_mem_nil
  | cons x xs ih =>
    change (f x >>= fun _ => xs.forM f) = .ok () at h
    obtain ⟨_, hx, hxs⟩ := bind_ok h
    intro y hy
    rcases List.mem_cons.mp hy with rfl | hy
    · exact hx
    · exact ih hxs y hy

end DataFabric.AstGuard
