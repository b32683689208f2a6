import DataFabric.ColumnTypes
import DataFabric.HubReplicas
import DataFabric.SqlFragments
import DataFabric.PgLexer

set_option autoImplicit false

/-!
# The expressions of a manifest

Defaults, CHECK and GENERATED expressions, policies and trigger conditions are split into
tokens, and a closed grammar of them is let pass.
-/
namespace DataFabric.DdlExpressions
open CharText JsValues TenantIdentifiers ColumnTypes HubReplicas PgLexer

def forbiddenWords : List String :=
  ["SELECT", "INSERT", "UPDATE", "DELETE", "DROP", "ALTER", "CREATE", "TRUNCATE", "GRANT", "REVOKE", "COPY", "EXECUTE",
    "CALL", "DO", "WITH", "UNION", "INTERSECT", "EXCEPT", "VALUES", "RETURNING", "EXISTS", "LATERAL", "JOIN", "INTO",
    "RECURSIVE"]

def exprKeywords : List String :=
  ["AND", "OR", "NOT", "IS", "NULL", "TRUE", "FALSE", "IN", "LIKE", "ILIKE", "BETWEEN", "SIMILAR", "TO", "ESCAPE", "CASE",
    "WHEN", "THEN", "ELSE", "END", "DISTINCT", "FROM", "ANY", "ALL", "ARRAY", "AT", "TIME", "ZONE", "INTERVAL",
    "CURRENT_TIMESTAMP", "CURRENT_DATE", "CURRENT_TIME", "LOCALTIMESTAMP", "LOCALTIME", "CURRENT_USER", "AS", "ASC", "DESC",
    "COLLATE", "UNKNOWN", "NEW", "OLD", "ISNULL", "NOTNULL", "ONLY", "NULLS", "FIRST", "LAST"]

def forbiddenPrefixes : List String := ["pg_", "lo_", "dblink", "query_to_", "xpath", "ts_debug", "to_regclass"]

def forbiddenFunctions : List String :=
  ["setval", "set_config", "lastval", "dblink", "pg_sleep", "version", "current_database", "current_schema",
    "current_schemas", "current_catalog", "inet_server_addr", "inet_server_port", "inet_client_addr", "inet_client_port",
    "txid_current", "xmlparse", "table_to_xml", "database_to_xml", "schema_to_xml"]

def forbiddenFunction (name : String) : Bool :=
  forbiddenFunctions.contains name || forbiddenPrefixes.any (startsWith name)

def sequenceFunctions : List String := ["nextval", "currval"]

structure ExprOptions where
  allowCurrentSetting : Bool := true
  maxLength : ℕ := 1000

inductive Tok
  | ws (c : Char)
  | word (text : String)
  | qident (name : String)
  | str (text : String)
  | num (text : String)
  | sym (c : Char)
  deriving DecidableEq, Repr

def symbols : List Char :=
  ['(', ')', ',', '+', '-', '*', '/', '%', '^', '=', '<', '>', '!', '~', '|', '&', ':', '[', ']', '.', '#', '@']

def prefixed : Option Tok → Bool
  | some (.word w) => ["e", "u&", "b", "x", "n"].contains (asciiLower w)
  | _ => false

section

variable (fail : String → FabricError)

def strTok (prev : Option Tok) (cs : List Char) : Except FabricError (Tok × List Char) :=
  match quotedBody '\'' cs with
  | none =>
    if '\x00' ∈ cs then .error (fail "NUL bytes are not allowed") else .error (fail "unterminated string literal")
  | some (body, rest) =>
    if '\x00' ∈ body then .error (fail "NUL bytes are not allowed")
    else if prefixed prev then
      .error (fail "prefixed string literals (E'', B'', X'', U&'') are not allowed")
    else .ok (.str (String.ofList ('\'' :: body ++ ['\''])), rest)

def qidentTok (cs : List Char) : Except FabricError (Tok × List Char) :=
  let inner := String.ofList (cs.takeWhile (· ≠ '"'))
  match cs.dropWhile (· ≠ '"') with
  | [] => .error (fail "unterminated quoted identifier")
  | _ :: rest =>
    if identRe inner then .ok (.qident inner, rest) else .error (fail "quoted identifiers must be plain names")

def refused (c : Char) : FabricError := fail s!"character \"{printable (String.ofList [c]) 60}\" is not allowed"

def nextTok (prev : Option Tok) (c : Char) (cs : List Char) : Except FabricError (Tok × List Char) :=
  if c ∈ ['\x00', ';', '$', '\\', '\x60', '{', '}', '?'] then .error (refused fail c)
  else if c = ' ' ∨ c = '\t' then .ok (.ws c, cs)
  else if c = '\n' ∨ c = '\r' then .error (fail "line breaks are not allowed in expressions")
  else if c.toNat < 0x20 ∨ c.toNat = 0x7f then .error (fail "control characters are not allowed")
  else if c = '-' ∧ cs.head? = some '-' ∨ c = '/' ∧ cs.head? = some '*' ∨ c = '*' ∧ cs.head? = some '/' then
    .error (fail "comment tokens are not allowed")
  else if c = '\'' then strTok fail prev cs
  else if c = '"' then qidentTok fail cs
  else if c.isDigit then
    let fraction := SqlFragments.fractionRun (cs.dropWhile Char.isDigit)
    let power := exponentRun fraction.2
    .ok (.num (String.ofList (c :: cs.takeWhile Char.isDigit ++ fraction.1 ++ power.1)), power.2)
  else if isWordStart c then .ok (.word (String.ofList (c :: cs.takeWhile isWord)), cs.dropWhile isWord)
  else if c ∈ symbols then .ok (.sym c, cs)
  else .error (refused fail c)

/-- Every token takes a character, so the length of the text is fuel enough. -/
def tokenizeFrom : ℕ → Option Tok → List Char → Except FabricError (List Tok)
  | _, _, [] => .ok []
  | 0, _, c :: _ => .error (refused fail c)
  | fuel + 1, prev, c :: cs => do
    let step ← nextTok fail prev c cs
    let toks ← tokenizeFrom fuel (some step.1) step.2
    .ok (step.1 :: toks)

def tokenize (src : String) : Except FabricError (List Tok) := tokenizeFrom fail src.toList.length none src.toList

def castWords (toks : List Tok) : List String :=
  match toks with
  | .word a :: .word b :: .word c :: .word d :: .word e :: _ => [a, b, c, d, e]
  | .word a :: .word b :: .word c :: .word d :: _ => [a, b, c, d]
  | .word a :: .word b :: .word c :: _ => [a, b, c]
  | .word a :: .word b :: _ => [a, b]
  | .word a :: _ => [a]
  | _ => []

/-- How many of them name a type: the longest type of several words, else one. -/
def castLength (words : List String) : ℕ :=
  ([5, 4, 3, 2].find? fun n =>
    n ≤ words.length && multiWordTypes.contains (upperCase (" ".intercalate (words.take n)))).getD 1

def newOrOld : Option Tok → Bool
  | some (.word w) => ["new", "old"].contains (asciiLower w)
  | _ => false

def checkWord (opts : ExprOptions) (prev : Option Tok) (w : String) (after : List Tok) : Except FabricError Unit :=
  let up := upperCase w
  let lower := asciiLower w
  if forbiddenWords.contains up then .error (fail s!"keyword {up} is not allowed")
  else if after.head? = some (.sym '(') then
    if forbiddenFunction lower then .error (fail s!"function {lower}() is not allowed")
    else if lower = "current_setting" ∧ opts.allowCurrentSetting = false then
      .error (fail "current_setting() is not allowed here")
    else if sequenceFunctions.contains lower then
      match after.tail.head? with
      | some (.str text) =>
        if containsChar '.' text then .error (fail s!"{lower}() takes an unqualified sequence name literal") else .ok ()
      | _ => .error (fail s!"{lower}() takes an unqualified sequence name literal")
    else .ok ()
  else if prev = some (.sym '.') then .ok ()
  else if exprKeywords.contains up then .ok ()
  else if identRe w then .ok ()
  else .error (fail s!"bad identifier {printable w 60}")

/-- The tokens one after another, `skip` of them read already with a cast. -/
def checkTokens (opts : ExprOptions) : ℕ → Option Tok → ℕ → List Tok → Except FabricError Unit
  | _, _, depth, [] => if depth ≠ 0 then .error (fail "unbalanced parentheses") else .ok ()
  | skip + 1, _, depth, t :: ts => checkTokens opts skip (some t) depth ts
  | 0, prev, depth, .sym c :: ts =>
    if c = '(' then checkTokens opts 0 (some (.sym c)) (depth + 1) ts
    else if c = ')' then
      if depth = 0 then .error (fail "unbalanced parentheses") else checkTokens opts 0 (some (.sym c)) (depth - 1) ts
    else if c = '.' then
      if newOrOld prev then checkTokens opts 0 (some (.sym c)) depth ts
      else .error (fail "qualified names (a.b) are not allowed")
    else if c = ':' then
      if ts.head? = some (.sym ':') then
        let words := castWords ts.tail
        let typeName := " ".intercalate (words.take (castLength words))
        if words = [] then .error (fail "cast without a type")
        else if acceptedType [] typeName then checkTokens opts (1 + castLength words) (some (.sym c)) depth ts
        else .error (fail s!"cast to \"{printable typeName 60}\" is not allowed")
      else .error (fail "stray \":\"")
    else checkTokens opts 0 (some (.sym c)) depth ts
  | 0, prev, depth, .word w :: ts => do
    checkWord fail opts prev w ts
    checkTokens opts 0 (some (.word w)) depth ts
  | 0, _, depth, t :: ts => checkTokens opts 0 (some t) depth ts

end

def Tok.isWs : Tok → Bool
  | .ws _ => true
  | _ => false

def hasDollarQuote (text : String) : Bool :=
  text.toList.tails.any fun t =>
    match t with
    | '$' :: rest => (rest.dropWhile isWord).head? = some '$'
    | _ => false

def assertSafeExpression (expr : JsValue) (what : String) (opts : ExprOptions) (code : String) :
    Except FabricError String :=
  let fail (msg : String) : FabricError := .invalidRequest code s!"{what}: {msg}"
  match expr with
  | .str s =>
    let text := trim s
    if text = "" then .error (fail "must not be empty")
    else if opts.maxLength < utf16Length text then .error (fail s!"longer than {opts.maxLength} characters")
    else if hasDollarQuote text then .error (fail "dollar-quote delimiters are not allowed")
    else do
      let toks ← tokenize fail text
      checkTokens fail opts 0 none 0 (toks.filter fun t => !t.isWs)
      .ok text
  | _ => .error (fail "must be a string")

def undouble : List Char → List Char
  | '"' :: '"' :: cs => '"' :: undouble cs
  | c :: cs => c :: undouble cs
  | [] => []

def hexNumber (digits : List Char) : Option Char :=
  (digits.foldl (fun n d => n.bind fun n => (hexValue d).map fun v => 16 * n + v) (some 0)).map Char.ofNat

/-- The escapes of `U&".."`: four hexadecimal digits, six after a plus sign, or the escape itself. -/
def unescape (esc : Char) : List Char → Option (List Char)
  | [] => some []
  | c :: cs =>
    if c ≠ esc then (unescape esc cs).map (c :: ·)
    else
      match cs with
      | [] => none
      | a :: rest =>
        if a = esc then (unescape esc rest).map (esc :: ·)
        else
          match rest with
          | b :: d :: e :: more =>
            if a = '+' then
              match more with
              | f :: g :: h :: more =>
                (hexNumber [b, d, e, f, g, h]).bind fun x => (unescape esc more).map (x :: ·)
              | _ => none
            else (hexNumber [a, b, d, e]).bind fun x => (unescape esc more).map (x :: ·)
          | _ => none

def keywordFunctions : List String :=
  ["current_catalog", "current_date", "current_role", "current_schema", "current_time", "current_timestamp",
    "current_user", "localtime", "localtimestamp", "session_user", "system_user", "user"]

section

variable (toks : List PgToken)

def NamedCall (f : String) : Prop := ∃ w, [.name w, .symbol '('] <:+: toks ∧ asciiLower w = f

def QuotedCall (f : String) : Prop :=
  ∃ s : String, [.quoted s, .symbol '('] <:+: toks ∧ String.ofList (undouble s.toList) = f

def UnicodeCall (f : String) : Prop :=
  (∃ s : String, [.unicodeName s, .symbol '('] <:+: toks ∧ unescape '\\' (undouble s.toList) = some f.toList) ∨
    ∃ (s u : String) (esc : Char),
      [.unicodeName s, .name u, .string .plain (String.ofList [esc]), .symbol '('] <:+: toks ∧
        asciiLower u = "uescape" ∧ unescape esc (undouble s.toList) = some f.toList

def KeywordCall (f : String) : Prop :=
  f ∈ keywordFunctions ∧
    ∃ before w after, toks = before ++ .name w :: after ∧ asciiLower w = f ∧ before.getLast? ≠ some (.symbol '.')

def Invokes (f : String) : Prop := NamedCall toks f ∨ QuotedCall toks f ∨ UnicodeCall toks f ∨ KeywordCall toks f

/-- What an expression may do under PostgreSQL's lexical rules. -/
structure Harmless : Prop where
  calls : ∀ f, Invokes toks f → forbiddenFunction f = false
  noSubquery : ∀ w, [.symbol '(', .name w] <:+: toks → asciiLower w ∉ ["select", "values", "table", "with"]
  plainStrings : ∀ kind s, .string kind s ∈ toks → kind = .plain
  newOrOld : ∀ before after, toks = before ++ .symbol '.' :: after →
    ∃ start w, before = start ++ [.name w] ∧ asciiLower w ∈ ["new", "old"] ∧ start.getLast? ≠ some (.symbol '.')

structure Undisguised : Prop where
  quoted : ∀ f, QuotedCall toks f → forbiddenFunction f = false
  unicode : ∀ f, UnicodeCall toks f → forbiddenFunction f = false
  keywords : ∀ f, KeywordCall toks f → forbiddenFunction f = false
  noTable : ∀ w, [.symbol '(', .name w] <:+: toks → asciiLower w ≠ "table"
  noUnicodeStrings : ∀ s, .string .unicode s ∉ toks
  noLongPaths : ∀ w, ¬ [.symbol '.', .name w, .symbol '.'] <:+: toks

end

end DataFabric.DdlExpressions
