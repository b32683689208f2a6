import DataFabric.TenantIdentifiers

set_option autoImplicit false

/-!
# The guard on SQL fragments

Text that a statement splices in because it is an expression or a view body:
a small token grammar, allow-listed calls, and no foreign schema qualifier.
-/
namespace DataFabric.SqlFragments
open CharText JsValues TenantIdentifiers

/-- The functions an expression may call, with the type names a cast may take. -/
def callableFunctions : List String :=
  ["count", "sum", "avg", "min", "max", "stddev", "variance", "array_agg", "string_agg", "bool_and",
    "bool_or", "row_number", "rank", "dense_rank", "percent_rank", "cume_dist", "ntile", "lag", "lead",
    "first_value", "last_value", "nth_value", "coalesce", "nullif", "greatest", "least", "lower",
    "upper", "length", "char_length", "trim", "ltrim", "rtrim", "btrim", "substr", "substring",
    "concat", "concat_ws", "replace", "left", "right", "abs", "round", "ceil", "ceiling", "floor",
    "power", "sqrt", "mod", "sign", "date_trunc", "date_part", "to_char", "to_date", "to_timestamp",
    "now", "age", "cast", "extract", "initcap", "md5", "varchar", "char", "character", "numeric",
    "decimal"]

/-- Words that stand bare in an expression without being columns. -/
def keywords : List String :=
  ["and", "or", "not", "is", "null", "in", "like", "ilike", "between", "as", "asc", "desc",
    "distinct", "case", "when", "then", "else", "end", "true", "false", "over", "partition", "by",
    "order", "rows", "range", "unbounded", "preceding", "following", "current", "row", "nulls",
    "first", "last", "filter"]

def statementWords : List String :=
  ["select", "from", "where", "union", "intersect", "except", "join", "inner", "outer", "cross",
    "lateral", "using", "on", "group", "having", "limit", "offset", "fetch", "with", "recursive",
    "all", "any", "some", "exists", "values"]

def alwaysBlocked : List String :=
  ["insert", "update", "delete", "drop", "alter", "create", "truncate", "grant", "revoke", "call",
    "execute", "exec", "copy", "set", "reset", "into", "returning", "do", "begin", "commit",
    "rollback", "savepoint", "vacuum", "analyze", "analyse", "listen", "notify", "unlisten",
    "prepare", "deallocate", "declare", "move", "lock", "comment", "security", "load", "refresh",
    "reindex", "cluster", "discard", "import", "abort", "checkpoint", "explain", "show", "language",
    "function", "procedure", "trigger", "extension", "owner", "role", "user", "session_user",
    "current_user", "pg_sleep"]

def queryKeywords : List String :=
  ["select", "from", "where", "union", "intersect", "except", "join", "inner", "outer", "left",
    "right", "full", "cross", "using", "on", "group", "having", "limit", "offset", "with",
    "recursive", "all", "distinct"]

/-- `/^(public|pg_[a-z0-9_]*|information_schema|fabric_[a-z0-9_]*|citus[a-z0-9_]*|metadata_catalog|admin_functions|auth|cron)$/i` -/
def systemQualifiers (s : String) : Bool :=
  matchesAnyName
    ["public", "information_schema", "metadata_catalog", "admin_functions", "auth", "cron"]
    ["pg_", "fabric_", "citus"] s

/-- `FORBIDDEN_RAW`: a statement end, a comment, a backslash, a dollar sign, a backquote or NUL. -/
def forbiddenRaw (s : String) : Bool :=
  s.toList.any (fun c => c ∈ [';', '\\', '$', '\x60', '\x00']) ||
    ["--", "/*", "*/"].any (containsText · s)

inductive TokenKind
  | str
  | qid
  | num
  | word
  | op
  | punct
  deriving DecidableEq, Repr

structure Token where
  kind : TokenKind
  text : String
  deriving DecidableEq, Repr

/-- What stands between quotes, and what follows the closing one. -/
def quotedRun (quote : Char) (inside : Char → Bool) (cs : List Char) :
    Option (List Char × List Char) :=
  match cs.dropWhile inside with
  | c :: rest => if c = quote then some (cs.takeWhile inside, rest) else none
  | [] => none

def isQuotedIdentChar (c : Char) : Bool := isWord c || c ∈ [' ', '.', '-']

def fractionRun : List Char → List Char × List Char
  | '.' :: d :: cs =>
    if d.isDigit then ('.' :: d :: cs.takeWhile Char.isDigit, cs.dropWhile Char.isDigit)
    else ([], '.' :: d :: cs)
  | cs => ([], cs)

def twoCharOps : List String := ["<=", ">=", "<>", "!=", "||"]

def oneSymbol (c : Char) (cs : List Char) : Option (Option Token × List Char) :=
  if c ∈ ['=', '<', '>', '+', '-', '*', '/', '%'] then some (some ⟨.op, String.ofList [c]⟩, cs)
  else if c ∈ ['(', ')', ',', '.'] then some (some ⟨.punct, String.ofList [c]⟩, cs)
  else none

def symbolToken (c : Char) (cs : List Char) : Option (Option Token × List Char) :=
  match cs with
  | d :: rest =>
    if String.ofList [c, d] ∈ twoCharOps then some (some ⟨.op, String.ofList [c, d]⟩, rest)
    else oneSymbol c cs
  | [] => oneSymbol c cs

/-- One match of `TOKEN_RE` at the head: the token, none for blanks, and the rest. -/
def nextToken : List Char → Option (Option Token × List Char)
  | [] => none
  | c :: cs =>
    if isSpace c then some (none, cs.dropWhile isSpace)
    else if c = '\'' then
      (quotedRun '\'' (fun d => d ≠ '\'' && d ≠ '\\' && d ≠ '\x00') cs).map fun (inside, rest) =>
        (some ⟨.str, String.ofList ('\'' :: inside ++ ['\''])⟩, rest)
    else if c = '"' then
      match quotedRun '"' isQuotedIdentChar cs with
      | some (inside, rest) =>
        if 1 ≤ inside.length ∧ inside.length ≤ 128 then
          some (some ⟨.qid, String.ofList ('"' :: inside ++ ['"'])⟩, rest)
        else none
      | none => none
    else if c.isDigit then
      let (fraction, rest) := fractionRun (cs.dropWhile Char.isDigit)
      some (some ⟨.num, String.ofList (c :: cs.takeWhile Char.isDigit ++ fraction)⟩, rest)
    else if isWordStart c then
      some (some ⟨.word, String.ofList (c :: cs.takeWhile isWord)⟩, cs.dropWhile isWord)
    else symbolToken c cs

/-- `tokenize`; every match is nonempty, so the length of the text is fuel enough. -/
def tokenizeFrom (what : String) : ℕ → List Char → Except FabricError (List Token)
  | _, [] => .ok []
  | 0, cs => .error (.sqlGuard
      s!"Invalid {what}: unsupported character or token near \"{slice 12 (String.ofList cs)}\"")
  | fuel + 1, cs =>
    match nextToken cs with
    | none => .error (.sqlGuard
        s!"Invalid {what}: unsupported character or token near \"{slice 12 (String.ofList cs)}\"")
    | some (none, rest) => tokenizeFrom what fuel rest
    | some (some t, rest) => (tokenizeFrom what fuel rest).map (t :: ·)

def tokenize (what src : String) : Except FabricError (List Token) :=
  tokenizeFrom what src.toList.length src.toList

private theorem length_dropWhile_le (p : Char → Bool) (cs : List Char) :
    (cs.dropWhile p).length ≤ cs.length := (List.dropWhile_suffix p).length_le

theorem quotedRun_shorter {quote : Char} {inside : Char → Bool} {cs : List Char}
    {r : List Char × List Char} (h : quotedRun quote inside cs = some r) :
    r.2.length < cs.length := by
  unfold quotedRun at h
  have hle := length_dropWhile_le inside cs
  split at h
  case h_1 c rest heq =>
    rw [heq, List.length_cons] at hle
    split at h
    · obtain rfl := Option.some.inj h
      exact hle
    · cases h
  case h_2 => cases h

theorem fractionRun_le (cs : List Char) : (fractionRun cs).2.length ≤ cs.length := by
  unfold fractionRun
  split
  · split
    · have := length_dropWhile_le Char.isDigit ‹List Char›
      simp only [List.length_cons]
      omega
    · exact le_rfl
  · exact le_rfl

theorem oneSymbol_rest {c : Char} {cs rest : List Char} {t : Option Token}
    (h : oneSymbol c cs = some (t, rest)) : rest = cs := by
  unfold oneSymbol at h
  split_ifs at h
  · exact (Prod.mk.inj (Option.some.inj h)).2.symm
  · exact (Prod.mk.inj (Option.some.inj h)).2.symm

theorem symbolToken_le {c : Char} {cs rest : List Char} {t : Option Token}
    (h : symbolToken c cs = some (t, rest)) : rest.length ≤ cs.length := by
  cases cs with
  | nil => exact (oneSymbol_rest h).symm ▸ le_rfl
  | cons d cs =>
    dsimp only [symbolToken] at h
    split_ifs at h
    · rw [← (Prod.mk.inj (Option.some.inj h)).2]
      exact Nat.le_succ _
    · exact (oneSymbol_rest h).symm ▸ le_rfl

theorem nextToken_shorter {cs : List Char} {t : Option Token} {rest : List Char}
    (h : nextToken cs = some (t, rest)) : rest.length < cs.length := by
  cases cs with
  | nil => cases h
  | cons c cs =>
    have hdrop := fun p => Nat.lt_succ_of_le (length_dropWhile_le p cs)
    dsimp only [nextToken] at h
    split_ifs at h with hspace hquote hdouble hdigit hword
    · obtain ⟨rfl, rfl⟩ := Prod.mk.inj (Option.some.inj h)
      exact hdrop _
    · obtain ⟨⟨inside, rest'⟩, hrun, heq⟩ := Option.map_eq_some_iff.mp h
      obtain ⟨rfl, rfl⟩ := Prod.mk.inj heq
      exact (quotedRun_shorter hrun).trans (Nat.lt_succ_self _)
    · cases hrun : quotedRun '"' isQuotedIdentChar cs with
      | none => simp [hrun] at h
      | some r =>
        simp only [hrun] at h
        split_ifs at h
        obtain ⟨rfl, rfl⟩ := Prod.mk.inj (Option.some.inj h)
        exact (quotedRun_shorter hrun).trans (Nat.lt_succ_self _)
    · obtain ⟨rfl, rfl⟩ := Prod.mk.inj (Option.some.inj h)
      exact Nat.lt_succ_of_le ((fractionRun_le _).trans (length_dropWhile_le _ cs))
    · obtain ⟨rfl, rfl⟩ := Prod.mk.inj (Option.some.inj h)
      exact hdrop _
    · exact Nat.lt_succ_of_le (symbolToken_le h)

theorem tokenizeFrom_fuel (what : String) (n : ℕ) (cs : List Char) (hn : cs.length ≤ n) :
    tokenizeFrom what n cs = tokenizeFrom what cs.length cs := by
  induction n using Nat.strong_induction_on generalizing cs with
  | _ n ih =>
    cases cs with
    | nil => cases n <;> rfl
    | cons c cs =>
      obtain ⟨n, rfl⟩ : ∃ m, n = m + 1 := ⟨n - 1, by simp only [List.length_cons] at hn; omega⟩
      rw [List.length_cons] at hn ⊢
      unfold tokenizeFrom
      cases hnext : nextToken (c :: cs) with
      | none => rfl
      | some r =>
        obtain ⟨t, rest⟩ := r
        have hlt := nextToken_shorter hnext
        rw [List.length_cons] at hlt
        have hrest : tokenizeFrom what n rest = tokenizeFrom what cs.length rest := by
          rw [ih n (by omega) rest (by omega)]
          by_cases hc : cs.length < n + 1
          · exact (ih cs.length hc rest (by omega)).symm
          · omega
        cases t <;> simp only [hrest]

structure GuardOptions where
  /-- a view body, where a query is allowed -/
  query : Bool := false
  /-- the tenant whose schemas may qualify a name -/
  tenantId : Option String := none
  maxLength : ℕ := 500
  deriving DecidableEq

def isPunct (text : String) (t : Option Token) : Bool :=
  match t with
  | some t => t.kind = .punct && t.text = text
  | none => false

/-- A qualifier of the caller: any name but a system schema and another tenant's `tenant_*`. -/
def qualifierAllowed (tenantId : Option String) (name : String) : Bool :=
  !systemQualifiers name &&
    (!startsWith (asciiLower name) "tenant_" ||
      match tenantId with
      | some t => t ≠ "" && belongsToTenant name t
      | none => false)

def checkWord (what : String) (opts : GuardOptions) (prev : Option Token) (t : Token)
    (next : Option Token) : Except FabricError Unit :=
  let w := asciiLower t.text
  let isCall := isPunct "(" next
  let qualifies := isPunct "." next
  let afterDot := isPunct "." prev
  if w ∈ alwaysBlocked && !afterDot then
    .error (.sqlGuard s!"Invalid {what}: keyword \"{t.text}\" is not allowed")
  else if qualifies && !afterDot && !qualifierAllowed opts.tenantId t.text then
    .error (.sqlGuard s!"Invalid {what}: schema \"{t.text}\" is not accessible")
  else if afterDot then .ok ()
  else if isCall then
    if w ∈ keywords || (opts.query && w ∈ queryKeywords) then .ok ()
    else if w ∈ callableFunctions then .ok ()
    else .error (.sqlGuard s!"Invalid {what}: function \"{t.text}\" is not allowed")
  else if opts.query then .ok ()
  else if w ∈ statementWords then
    .error (.sqlGuard s!"Invalid {what}: keyword \"{t.text}\" is not allowed in an expression")
  else .ok ()

/-- The loop over the tokens: `prev` is the token before, `depth` the open parentheses. -/
def checkTokens (what : String) (opts : GuardOptions) :
    Option Token → ℕ → List Token → Except FabricError ℕ
  | _, depth, [] => .ok depth
  | prev, depth, t :: ts =>
    match t.kind with
    | .punct =>
      if t.text = "(" then
        if depth + 1 > 12 then .error (.sqlGuard s!"Invalid {what}: nested too deeply")
        else checkTokens what opts (some t) (depth + 1) ts
      else if t.text = ")" then
        match depth with
        | 0 => .error (.sqlGuard s!"Invalid {what}: unbalanced parentheses")
        | depth + 1 => checkTokens what opts (some t) depth ts
      else checkTokens what opts (some t) depth ts
    | .qid =>
      if isPunct "(" ts.head? then
        .error (.sqlGuard s!"Invalid {what}: quoted identifiers cannot be called")
      else checkTokens what opts (some t) depth ts
    | .word =>
      match checkWord what opts prev t ts.head? with
      | .error e => .error e
      | .ok () => checkTokens what opts (some t) depth ts
    | .str | .num | .op => checkTokens what opts (some t) depth ts

def startsQuery (toks : List Token) : Bool :=
  match toks.head? with
  | some t => t.kind = .word && asciiLower t.text ∈ ["select", "with"]
  | none => false

def assertSafeExpression (expr : JsValue) (what : String) (opts : GuardOptions) :
    Except FabricError String :=
  match expr with
  | .str text => do
    let src := trim text
    if src = "" then .error (.sqlGuard s!"Invalid {what}: empty")
    else if utf16Length src > opts.maxLength then .error (.sqlGuard s!"Invalid {what}: too long")
    else if forbiddenRaw src then
      .error (.sqlGuard s!"Invalid {what}: contains a forbidden character sequence")
    else
      let toks ← tokenize what src
      if toks.length > (if opts.query then 2000 else 200) then
        .error (.sqlGuard s!"Invalid {what}: too complex")
      else if opts.query && !startsQuery toks then
        .error (.sqlGuard s!"Invalid {what}: must be a single SELECT statement")
      else
        let depth ← checkTokens what opts none 0 toks
        if depth ≠ 0 then .error (.sqlGuard s!"Invalid {what}: unbalanced parentheses")
        else .ok src
  | _ => .error (.sqlGuard s!"Invalid {what}: must be a string")

def assertSafeSelectQuery (sql : JsValue) (tenantId what : String) : Except FabricError String :=
  assertSafeExpression sql what { query := true, tenantId := some tenantId, maxLength := 20000 }

def strictPart (s : String) : Bool := matchesWord isWordStart isWord 0 s.length s

def isRelaxedChar (c : Char) : Bool := isWord c || c ∈ ['$', ' ', '-']

def relaxedName (s : String) : Bool := matchesWord (fun c => isWord c || c = '$') isRelaxedChar 0 127 s

/-- The parts of a dotted path: plain identifiers, and `*` as the last of several. -/
def dottedParts (parts : List String) : Bool :=
  match parts.reverse with
  | [] => false
  | last :: before =>
    ((strictPart last && utf16Length last ≤ 63) || (last = "*" && before ≠ [])) &&
      before.all fun p => strictPart p && utf16Length p ≤ 63

def isDottedIdent (v : String) : Bool :=
  v = "*" || (utf16Length v ≤ 200 && (split '.' v).length ≤ 3 && dottedParts (split '.' v))

def quoteDotted (v : String) (what : String) : Except FabricError String :=
  if !isDottedIdent v then .error (.sqlGuard s!"Invalid {what}: \"{slice 40 v}\"")
  else if v = "*" then .ok "*"
  else do
    let parts ← (split '.' v).mapM fun p =>
      if p = "*" then .ok "*" else quoteIdent (.str p) what
    .ok (".".intercalate parts)

def assertSafeName (v : JsValue) (what : String) : Except FabricError String :=
  match v with
  | .str s =>
    if s = "*" || isDottedIdent s || relaxedName s then .ok s
    else .error (.sqlGuard s!"Invalid {what}: \"{slice 40 s}\"")
  | _ => .error (.sqlGuard s!"Invalid {what}: must be a string")

/-- A select, group or order field: a quoted path, or a guarded expression as written. -/
def fieldToSql (v : JsValue) (what : String) (tenantId : Option String) : Except FabricError String :=
  match v with
  | .str s =>
    if s = "*" || isDottedIdent s then quoteDotted s what
    else assertSafeExpression (.str s) what { tenantId := tenantId.filter (· ≠ "") }
  | _ => .error (.sqlGuard s!"Invalid {what}: must be a string")

def digitsValue (cs : List Char) : Option ℕ :=
  if cs ≠ [] && cs.length ≤ 12 && cs.all Char.isDigit then
    some (cs.foldl (fun n c => 10 * n + (c.toNat - '0'.toNat)) 0)
  else none

/-- The number a value stands for: itself, or the number its text spells. -/
def asNumber : JsValue → Option ℚ
  | .num q => some q
  | .str s =>
    match (trim s).toList with
    | '-' :: cs => (digitsValue cs).map fun n => -(n : ℚ)
    | cs => (digitsValue cs).map fun n => (n : ℚ)
  | _ => none

def safeInt (v : JsValue) (what : String) (min max : ℤ) : Except FabricError ℤ :=
  match asNumber v with
  | some q =>
    if q.den = 1 ∧ min ≤ q.num ∧ q.num ≤ max then .ok q.num
    else .error (.sqlGuard s!"Invalid {what}: must be an integer between {min} and {max}")
  | none => .error (.sqlGuard s!"Invalid {what}: must be an integer between {min} and {max}")

end DataFabric.SqlFragments
