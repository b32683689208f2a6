import DataFabric.ConnectorPools
import Mathlib.Data.List.Pairwise

set_option autoImplicit false

/-!
# Constraints of a collection that are checked in the fabric

Document engines enforce no constraints, so rows are validated before they are written. The rows
of a create are those the engine has completed and coerced, and a write has passed the checks for
a missing filter and missing data.
-/
namespace DataFabric.RowConstraints
open JsValues

abbrev Doc := List (String × JsValue)

def Doc.has (d : Doc) (column : String) : Bool := (d.lookup column).isSome

def Doc.get (d : Doc) (column : String) : JsValue := (d.lookup column).getD .undefined

def Doc.set (d data : Doc) : Doc := data ++ d.filter fun field => !data.has field.1

structure ForeignKey where
  source : Option String
  schema : Option String
  table : String
  column : String
  deriving DecidableEq, Repr

structure ConstraintColumn where
  name : String
  notNull : Bool
  unique : Bool
  enum : Option (List String)
  fk : Option ForeignKey
  deriving DecidableEq, Repr

inductive CheckOp | REGEX | GT | GTE | LT | LTE | EQ | NEQ | IN | LEN_LTE | NOT_NULL | other (op : String)
  deriving DecidableEq, Repr

def CheckOp.text : CheckOp → String
  | REGEX => "REGEX"
  | GT => "GT"
  | GTE => "GTE"
  | LT => "LT"
  | LTE => "LTE"
  | EQ => "EQ"
  | NEQ => "NEQ"
  | IN => "IN"
  | LEN_LTE => "LEN_LTE"
  | NOT_NULL => "NOT_NULL"
  | other op => op

structure CheckRule where
  name : String
  column : String
  op : CheckOp
  value : JsValue
  deriving DecidableEq, Repr

structure ConstraintSpec where
  columns : List ConstraintColumn
  checks : List CheckRule
  deriving DecidableEq, Repr

structure Violation where
  constraint : String
  column : String
  rule : String
  detail : String
  deriving DecidableEq, Repr

structure Lookups where
  countWhere : String → JsValue → ℕ
  fkExists : ForeignKey → JsValue → Bool

/-- The language's `Number(v)`, and `new RegExp(p).test(s)`, which throws on some `p`. -/
structure Language where
  number : JsValue → ConnectorPools.Number
  regex : JsValue → String → Option Bool

inductive Op | create | update
  deriving DecidableEq, Repr

def less : ConnectorPools.Number → ConnectorPools.Number → Bool
  | .finite p, .finite q => p < q
  | .finite _, .infinite negative => !negative
  | .infinite negative, .finite _ => negative
  | .infinite a, .infinite b => a && !b
  | _, _ => false

def lessEq (a b : ConnectorPools.Number) : Bool := less a b || (a = b && a ≠ .nan)

def strictEq : JsValue → JsValue → Bool
  | .prim p, .prim q => p = q
  | _, _ => false

variable (js : Language)

def evalCheck (rule : CheckRule) (value : JsValue) : Bool :=
  if value.isNullish then rule.op ≠ .NOT_NULL
  else
    match rule.op with
    | .REGEX => (js.regex rule.value value.text).getD true
    | .GT => less (js.number rule.value) (js.number value)
    | .GTE => lessEq (js.number rule.value) (js.number value)
    | .LT => less (js.number value) (js.number rule.value)
    | .LTE => lessEq (js.number value) (js.number rule.value)
    | .EQ => strictEq value rule.value
    | .NEQ => !strictEq value rule.value
    | .IN => rule.value.elements.any (strictEq value)
    | .LEN_LTE => lessEq (.finite (CharText.utf16Length value.text)) (js.number rule.value)
    | .NOT_NULL | .other _ => true

/-- The violations of one column of a row, in the order of the rules. -/
def columnViolations (op : Op) (lookups : Lookups) (row : Doc) (col : ConstraintColumn) : List Violation :=
  let present := row.has col.name
  let val := row.get col.name
  let given := present && !val.isNullish
  (if col.notNull && (op = .create || present) && val.isNullish then
    [⟨col.name ++ "_not_null", col.name, "NOT_NULL", "column \"" ++ col.name ++ "\" must not be null"⟩]
  else []) ++
  (match col.enum with
  | some values =>
    if given && !values.any (strictEq val ∘ .str) then
      [⟨col.name ++ "_enum", col.name, "ENUM",
        "\"" ++ val.text ++ "\" not in \x7b" ++ ", ".intercalate values ++ "\x7d"⟩]
    else []
  | none => []) ++
  (if col.unique && given && lookups.countWhere col.name val > 0 then
    [⟨col.name ++ "_unique", col.name, "UNIQUE",
      "duplicate value \"" ++ val.text ++ "\" for unique column \"" ++ col.name ++ "\""⟩]
  else []) ++
  (match col.fk with
  | some fk =>
    if given && !lookups.fkExists fk val then
      [⟨col.name ++ "_fk", col.name, "FOREIGN_KEY",
        "\"" ++ val.text ++ "\" not present in " ++ fk.table ++ "." ++ fk.column⟩]
    else []
  | none => [])

def checkViolations (op : Op) (row : Doc) (chk : CheckRule) : List Violation :=
  if op = .update && !row.has chk.column then []
  else if evalCheck js chk (row.get chk.column) then []
  else
    [⟨chk.name, chk.column, "CHECK(" ++ chk.op.text ++ ")",
      "value \"" ++ (row.get chk.column).text ++ "\" fails check \"" ++ chk.name ++ "\""⟩]

def validate (rows : List Doc) (spec : ConstraintSpec) (op : Op) (lookups : Lookups) : List Violation :=
  rows.flatMap fun row =>
    spec.columns.flatMap (columnViolations op lookups row) ++ spec.checks.flatMap (checkViolations js op row)

/-- When two values are one for UNIQUE, and when the store's filter `{ [column]: value }` matches a stored value, which
need not be so for a value itself (a term on an analysed text). -/
structure Store where
  finds : String → JsValue → JsValue → Bool
  same : JsValue → JsValue → Bool
  refl : ∀ v, v.isNullish = false → same v v = true
  symm : ∀ v w, same v w = same w v
  nothing : ∀ v w, v.isNullish = true → w.isNullish = false → same v w = false

inductive Path | hub | remote
  deriving DecidableEq, Repr

inductive Write
  | create (rows : List Doc)
  | update (selects : Doc → Bool) (data : Doc)

variable (store : Store) (fkExists : ForeignKey → JsValue → Bool)

def found (docs : List Doc) (column : String) (value : JsValue) : List Doc :=
  (docs.filter fun d => store.finds column (d.get column) value).take 1

def lookups (path : Path) (docs : List Doc) : Lookups where
  countWhere column value := (found store docs column value).length
  fkExists := if path = .hub then fun _ _ => true else fkExists

def violations (spec : ConstraintSpec) (path : Path) (docs : List Doc) : Write → List Violation
  | .create rows => validate js rows spec .create (lookups store fkExists path docs)
  | .update _ data =>
    match path with
    | .hub => []
    | .remote => validate js [data] spec .update (lookups store fkExists path docs)

def applied (docs : List Doc) : Write → List Doc
  | .create rows => docs ++ rows
  | .update selects data => docs.map fun d => if selects d then d.set data else d

def perform (spec : ConstraintSpec) (path : Path) (docs : List Doc) (w : Write) : Except (List Violation) Unit × List Doc :=
  match violations js store fkExists spec path docs w with
  | [] => (.ok (), applied docs w)
  | vs => (.error vs, docs)

structure Obeys (spec : ConstraintSpec) (d : Doc) : Prop where
  notNull : ∀ col ∈ spec.columns, col.notNull = true → (d.get col.name).isNullish = false
  enum : ∀ col ∈ spec.columns, ∀ values ∈ col.enum, (d.get col.name).isNullish = false →
    ∃ s ∈ values, d.get col.name = .str s
  checks : ∀ chk ∈ spec.checks, evalCheck js chk (d.get chk.column) = true

def Distinct (column : String) (docs : List Doc) : Prop :=
  docs.Pairwise fun d e => (d.get column).isNullish = false → (e.get column).isNullish = false →
    store.same (d.get column) (e.get column) = false

structure Satisfies (spec : ConstraintSpec) (docs : List Doc) : Prop where
  obeys : ∀ d ∈ docs, Obeys js spec d
  distinct : ∀ col ∈ spec.columns, col.unique = true → Distinct store col.name docs

/-- The write is accepted if and only if the documents satisfy every rule after it, and a rejected
one changes nothing. -/
def Decides (spec : ConstraintSpec) (path : Path) (docs : List Doc) (w : Write) : Prop :=
  let outcome := perform js store fkExists spec path docs w
  (outcome.1.isOk = true ↔ Satisfies js store spec (applied docs w)) ∧ (outcome.1.isOk = false → outcome.2 = docs)

/-- The row, or the columns an update sets, break a rule by themselves. -/
def Breaks (spec : ConstraintSpec) (op : Op) (row : Doc) : Prop :=
  (∃ col ∈ spec.columns, (op = .create ∨ row.has col.name = true) ∧
    (col.notNull = true ∧ (row.get col.name).isNullish = true ∨
      ∃ values ∈ col.enum, (row.get col.name).isNullish = false ∧ ∀ s ∈ values, row.get col.name ≠ .str s)) ∨
  ∃ chk ∈ spec.checks, (op = .create ∨ row.has chk.column = true) ∧ evalCheck js chk (row.get chk.column) = false

def Taken (spec : ConstraintSpec) (docs : List Doc) (row : Doc) : Prop :=
  ∃ col ∈ spec.columns, col.unique = true ∧ (row.get col.name).isNullish = false ∧
    ∃ d ∈ docs, store.same (d.get col.name) (row.get col.name) = true

/-- The store's filter matches a document for a value of a unique column. -/
def Found (spec : ConstraintSpec) (docs : List Doc) (row : Doc) : Prop :=
  ∃ col ∈ spec.columns, col.unique = true ∧ (row.get col.name).isNullish = false ∧
    ∃ d ∈ docs, store.finds col.name (d.get col.name) (row.get col.name) = true

def SetsUnique (spec : ConstraintSpec) (data : Doc) : Prop :=
  ∃ col ∈ spec.columns, col.unique = true ∧ (data.get col.name).isNullish = false

/-- Two rows share a value of a unique column, or one has that of a document. -/
def Collide (spec : ConstraintSpec) (docs rows : List Doc) : Prop :=
  (∃ col ∈ spec.columns, col.unique = true ∧ ¬ Distinct store col.name rows) ∨ ∃ row ∈ rows, Taken store spec docs row

def Fits (spec : ConstraintSpec) (path : Path) (docs : List Doc) : Write → Prop
  | .create rows =>
    (∃ row ∈ rows, Breaks js spec .create row) ∨ ((∃ row ∈ rows, Found store spec docs row) ↔ Collide store spec docs rows)
  | .update selects data =>
    let others := docs.filter fun d => !selects d
    match path, docs.filter selects with
    | .hub, [] => True
    | .hub, [_] => ¬ Breaks js spec .update data ∧ ¬ Taken store spec others data
    | .hub, _ => ¬ Breaks js spec .update data ∧ ¬ SetsUnique spec data
    | .remote, [] => ¬ Breaks js spec .update data ∧ ¬ Found store spec docs data
    | .remote, [_] => Breaks js spec .update data ∨ (Found store spec docs data ↔ Taken store spec others data)
    | .remote, _ => Breaks js spec .update data ∨ (Found store spec docs data ↔ SetsUnique spec data)

end DataFabric.RowConstraints
