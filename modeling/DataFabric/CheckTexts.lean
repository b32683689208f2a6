import DataFabric.KeyDeletes
import DataFabric.RowConstraints

set_option autoImplicit false

/-!
# Rules taken from the text of a CHECK

The text of a CHECK is cut at every AND, and each part that looks like a comparison of a column with a
number, or with a regular expression, becomes a rule of its own. PostgreSQL reads the text as an expression
with three truth values and refuses a row only if it is false.
-/
namespace DataFabric.CheckTexts
open CharText JsValues RowConstraints
open KeyDeletes (readNumber)

def sameLetter (c d : Char) : Bool := c == d || c == d.toLower

def behindAnd (cs : List Char) : Option (List Char) :=
  match cs with
  | [] => none
  | c :: _ =>
    if isSpace c then
      match cs.dropWhile isSpace with
      | a :: n :: d :: s :: rest =>
        if sameLetter a 'A' && sameLetter n 'N' && sameLetter d 'D' && isSpace s then some (rest.dropWhile isSpace)
        else none
      | _ => none
    else none

/-- `split(/\s+AND\s+/i)`, with as many steps as there are characters. -/
def splitAnd : ℕ → List Char → List Char → List (List Char)
  | 0, part, cs => [part ++ cs]
  | _ + 1, part, [] => [part]
  | n + 1, part, c :: cs =>
    match behindAnd (c :: cs) with
    | some rest => part :: splitAnd n [] rest
    | none => splitAnd n (part ++ [c]) cs

def parts (expression : String) : List String :=
  (splitAnd expression.toList.length [] expression.toList).map fun cs => trim (String.ofList cs)

/-- `[a-zA-Z_]\w*`, and what comes behind it and behind spaces -/
def columnName (cs : List Char) : Option (String × List Char) :=
  match cs with
  | c :: rest =>
    if isWordStart c then some (String.ofList (c :: rest.takeWhile isWord), (rest.dropWhile isWord).dropWhile isSpace)
    else none
  | [] => none

def lineEnd (c : Char) : Bool := c.toNat ∈ [0xA, 0xD, 0x2028, 0x2029]

def quoted (cs : List Char) : Option String :=
  match cs with
  | '\'' :: rest =>
    let body := rest.dropLast
    if rest.getLast? = some '\'' && body ≠ [] && !body.any lineEnd then some (String.ofList body) else none
  | _ => none

def pattern (cs : List Char) : Option String :=
  match cs with
  | '~' :: '*' :: rest => quoted (rest.dropWhile isSpace)
  | '~' :: rest => quoted (rest.dropWhile isSpace)
  | _ => none

def operators : List (String × CheckOp) :=
  [(">=", .GTE), ("<=", .LTE), ("<>", .NEQ), ("!=", .NEQ), (">", .GT), ("<", .LT), ("=", .EQ)]

def isLiteral (cs : List Char) : Bool :=
  let digits := if cs.head? = some '-' then cs.tail else cs
  digits.takeWhile Char.isDigit ≠ [] && match digits.dropWhile Char.isDigit with
    | [] => true
    | '.' :: fraction => fraction ≠ [] && fraction.all Char.isDigit
    | _ => false

/-- `Number(text)`; a number beyond the floating-point ones stays a text. -/
def literalValue (js : Language) (text : String) : JsValue :=
  match js.number (.str text) with
  | .finite q => .num q
  | _ => .str text

def comparison (js : Language) (cs : List Char) : Option (CheckOp × JsValue) :=
  match operators.find? fun o => o.1.toList.isPrefixOf cs with
  | some o =>
    let literal := (cs.drop o.1.toList.length).dropWhile isSpace
    if isLiteral literal then some (o.2, literalValue js (String.ofList literal)) else none
  | none => none

def parseCheckExpression (js : Language) (name expr : String) : Option CheckRule :=
  match columnName (trim expr).toList with
  | none => none
  | some (column, rest) =>
    match pattern rest with
    | some p => some { name, column, op := .REGEX, value := .str p }
    | none => (comparison js rest).map fun c => { name, column, op := c.1, value := c.2 }

/-- The rules that `specFromManifestTable` takes from one CHECK. -/
def checkRules (js : Language) (name expression : String) : List CheckRule :=
  (parts expression).filterMap (parseCheckExpression js name)

inductive PgValue
  | number (q : ℚ)
  | text (s : String)
  /-- a value of another type -/
  | other (v : JsValue)
  deriving DecidableEq

inductive Expr
  | compare (column : String) (op : CheckOp) (q : ℚ)
  | regexMatch (column : String) (insensitive : Bool) (pattern : String)
  | isNull (column : String)
  | isIn (column : String) (values : List PgValue)
  | between (column : String) (low high : ℚ)
  /-- any other expression over the row -/
  | other (value : (String → Option PgValue) → Option Bool)
  | not (e : Expr)
  | and (e f : Expr)
  | or (e f : Expr)

def compares (op : CheckOp) (v q : ℚ) : Bool :=
  match op with
  | .GT => q < v
  | .GTE => q ≤ v
  | .LT => v < q
  | .LTE => v ≤ q
  | .EQ => v = q
  | .NEQ => v ≠ q
  | _ => true

/-- The server: how it reads the text of a CHECK, its regular expressions, and what a column makes of a value it takes. -/
structure Server where
  parse : String → Expr
  regex : (pattern : String) → (insensitive : Bool) → String → Option Bool
  stored : (column : String) → JsValue → Option PgValue

section

variable (pg : Server)

def pgRow (row : Doc) (column : String) : Option PgValue :=
  if (row.get column).isNullish then none else pg.stored column (row.get column)

def eval (row : String → Option PgValue) : Expr → Option Bool
  | .compare column op q =>
    match row column with
    | some (.number v) => some (compares op v q)
    | _ => none
  | .regexMatch column insensitive p =>
    match row column with
    | some (.text s) => pg.regex p insensitive s
    | _ => none
  | .isNull column => some (row column).isNone
  | .isIn column values => (row column).map fun v => v ∈ values
  | .between column low high =>
    match row column with
    | some (.number v) => some (low ≤ v && v ≤ high)
    | _ => none
  | .other value => value row
  | .not e => (eval row e).map fun b => !b
  | .and e f =>
    if eval row e = some false ∨ eval row f = some false then some false
    else if eval row e = some true ∧ eval row f = some true then some true
    else none
  | .or e f =>
    if eval row e = some true ∨ eval row f = some true then some true
    else if eval row e = some false ∧ eval row f = some false then some false
    else none

def conjuncts : Expr → List Expr
  | .and e f => conjuncts e ++ conjuncts f
  | e => [e]

/-- PostgreSQL stores the row: every column takes its value, and the CHECK is true or unknown. -/
structure Stores (expression : String) (row : Doc) : Prop where
  takes : ∀ column, (row.get column).isNullish = true ∨ (pg.stored column (row.get column)).isSome = true
  holds : eval pg (pgRow pg row) (pg.parse expression) ≠ some false

variable (js : Language)

def RejectsNone (name expression : String) (row : Doc) : Prop :=
  Stores pg expression row → ∀ rule ∈ checkRules js name expression, evalCheck js rule (row.get rule.column) = true

/-- The value compares as the number of the column; for an equality it is a number, not the text of one. -/
def ComparesAs (rule : CheckRule) (v : JsValue) : Prop :=
  ∃ x, pg.stored rule.column v = some (.number x) ∧ js.number v = .finite x ∧ (rule.op = .EQ → v = .num x)

/-- The expression of JavaScript accepts what the one of PostgreSQL matches. -/
def MatchesAs (p : String) (rule : CheckRule) (v : JsValue) : Prop :=
  ∃ s, pg.stored rule.column v = some (.text s) ∧ (pg.regex p false s ≠ some false →
    (js.regex rule.value v.text).getD true = true)

def Sound (rule : CheckRule) (v : JsValue) : Expr → Prop
  | .compare column op q => column = rule.column ∧ op = rule.op ∧ rule.op ∈ operators.map Prod.snd ∧
    rule.value = .num q ∧ js.number (.num q) = .finite q ∧ (v.isNullish = true ∨ ComparesAs pg js rule v)
  | .regexMatch column insensitive p => column = rule.column ∧ insensitive = false ∧ rule.op = .REGEX ∧
    (v.isNullish = true ∨ MatchesAs pg js p rule v)
  | _ => False

/-- Every rule is a conjunct of the expression, and says the same of the value of the row. -/
def HoldsWhen (name expression : String) (row : Doc) : Prop :=
  ∀ rule ∈ checkRules js name expression, ∃ e ∈ conjuncts (pg.parse expression), Sound pg js rule (row.get rule.column) e

end

section

variable {pg : Server} {js : Language} {row : String → Option PgValue}

theorem conjuncts_hold {e : Expr} (h : eval pg row e ≠ some false) : ∀ c ∈ conjuncts e, eval pg row c ≠ some false := by
  induction e with
  | and e f ihe ihf =>
    intro c hc
    have hboth : eval pg row e ≠ some false ∧ eval pg row f ≠ some false := by
      unfold eval at h
      constructor
      · intro he
        exact h (if_pos (.inl he))
      · intro hf
        exact h (if_pos (.inr hf))
    unfold conjuncts at hc
    rcases List.mem_append.mp hc with hc | hc
    · exact ihe hboth.1 c hc
    · exact ihf hboth.2 c hc
  | _ =>
    intro c hc
    rw [List.mem_singleton.mp hc]
    exact h

theorem evalCheck_null {rule : CheckRule} {v : JsValue} (hv : v.isNullish = true) (hop : rule.op ≠ .NOT_NULL) :
    evalCheck js rule v = true := by
  unfold evalCheck
  rw [if_pos hv]
  exact decide_eq_true hop

theorem strictEq_number {v : JsValue} {q : ℚ} (h : strictEq v (.num q) = true) : v = .num q := by
  cases v with
  | prim p =>
    have hprim : p = .number q := of_decide_eq_true h
    rw [hprim]
  | arr _ => cases h
  | obj _ => cases h

theorem compare_sound {rule : CheckRule} {v : JsValue} {q x : ℚ} (hop : rule.op ∈ operators.map Prod.snd)
    (hvalue : rule.value = .num q) (hq : js.number (.num q) = .finite q) (hnull : ¬ v.isNullish = true)
    (hx : js.number v = .finite x)
    (heq : rule.op = .EQ → v = .num x) (hholds : compares rule.op x q = true) : evalCheck js rule v = true := by
  unfold evalCheck
  rw [if_neg hnull, hvalue]
  have hops : rule.op = .GTE ∨ rule.op = .LTE ∨ rule.op = .NEQ ∨ rule.op = .GT ∨ rule.op = .LT ∨ rule.op = .EQ := by
    revert hop
    cases rule.op <;> simp [operators]
  rcases hops with h | h | h | h | h | h
  · rw [h] at hholds ⊢
    have hle : q ≤ x := of_decide_eq_true hholds
    change lessEq (js.number (.num q)) (js.number v) = true
    rw [hq, hx]
    unfold lessEq
    rcases lt_or_eq_of_le hle with hlt | hsame
    · rw [Bool.or_eq_true]
      exact .inl (decide_eq_true hlt)
    · rw [hsame, Bool.or_eq_true]
      exact .inr (by simp)
  · rw [h] at hholds ⊢
    have hle : x ≤ q := of_decide_eq_true hholds
    change lessEq (js.number v) (js.number (.num q)) = true
    rw [hq, hx]
    unfold lessEq
    rcases lt_or_eq_of_le hle with hlt | hsame
    · rw [Bool.or_eq_true]
      exact .inl (decide_eq_true hlt)
    · rw [hsame, Bool.or_eq_true]
      exact .inr (by simp)
  · rw [h] at hholds ⊢
    have hne : x ≠ q := of_decide_eq_true hholds
    change (!strictEq v (.num q)) = true
    rw [Bool.not_eq_true']
    cases hstrict : strictEq v (.num q) with
    | false => rfl
    | true =>
      rw [strictEq_number hstrict, hq] at hx
      exact absurd (ConnectorPools.Number.finite.inj hx).symm hne
  · rw [h] at hholds ⊢
    change less (js.number (.num q)) (js.number v) = true
    rw [hq, hx]
    exact hholds
  · rw [h] at hholds ⊢
    change less (js.number v) (js.number (.num q)) = true
    rw [hq, hx]
    exact hholds
  · rw [h] at hholds
    have hsame : x = q := of_decide_eq_true hholds
    rw [heq h, h, hsame]
    exact decide_eq_true rfl

theorem rule_sound {doc : Doc} {rule : CheckRule} {e : Expr} (hsound : Sound pg js rule (doc.get rule.column) e)
    (hholds : eval pg (pgRow pg doc) e ≠ some false) : evalCheck js rule (doc.get rule.column) = true := by
  by_cases hnull : (doc.get rule.column).isNullish = true
  · refine evalCheck_null hnull ?_
    cases e with
    | compare column op q =>
      intro hop
      have hmem := hsound.2.2.1
      rw [hop] at hmem
      revert hmem
      decide
    | regexMatch column insensitive p =>
      rw [hsound.2.2.1]
      decide
    | _ => exact hsound.elim
  · cases e with
    | compare column op q =>
      rcases hsound with ⟨rfl, rfl, hop, hvalue, hq, hcase⟩
      have ⟨x, hstored, hx, heq⟩ := hcase.resolve_left hnull
      refine compare_sound hop hvalue hq hnull hx heq ?_
      unfold eval pgRow at hholds
      rw [if_neg hnull, hstored] at hholds
      cases hcompare : compares rule.op x q with
      | true => rfl
      | false => exact absurd (congrArg some hcompare) hholds
    | regexMatch column insensitive p =>
      rcases hsound with ⟨rfl, rfl, hop, hcase⟩
      have ⟨s, hstored, hmatches⟩ := hcase.resolve_left hnull
      unfold eval pgRow at hholds
      rw [if_neg hnull, hstored] at hholds
      unfold evalCheck
      rw [if_neg hnull, hop]
      exact hmatches hholds
    | _ => exact hsound.elim

end

/-- Numbers and the texts of numbers; expressions never match. -/
def decimals : Language where
  number
    | .num q => .finite q
    | .str s => (readNumber s).elim .nan .finite
    | _ => .nan
  regex _ _ := some false

def reading (e : Expr) : Server where
  parse _ := e
  regex _ _ _ := some false
  stored
    | _, .num q => some (.number q)
    | _, .str s => some (.text s)
    | _, v => some (.other v)

def grownUp : Expr := .and (.compare "age" .GTE 18) (.compare "age" .LTE 99)

def mixed : Expr := .or (.compare "a" .GT 1) (.and (.compare "b" .GT 2) (.compare "c" .LT 3))

theorem stored_isSome (e : Expr) (column : String) (v : JsValue) : ((reading e).stored column v).isSome = true := by
  unfold reading
  simp only
  split <;> rfl

end DataFabric.CheckTexts
