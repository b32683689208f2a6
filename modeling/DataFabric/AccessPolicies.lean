import DataFabric.CanonicalFilters
import Mathlib.Algebra.Group.Nat.Defs

set_option autoImplicit false

/-!
# Grants, row policies and masks

The stored rules are JSON a tenant wrote: what is not a list counts as an empty
one, and a missing entry inside a list makes the resolution throw.
-/
namespace DataFabric.AccessPolicies
open CharText JsValues OrderedRecords CanonicalFilters ExceptRules

structure SessionCtx where
  tenantId : String
  role : Option String := none
  region : Option String := none
  username : Option String := none
  deriving DecidableEq

abbrev Row := Record String JsValue

inductive GateError
  | unavailable
  | malformed
  | accessDenied (role table privilege : String)
  deriving DecidableEq

structure TableKey where
  schema : String
  table : String
  deriving DecidableEq

structure PolicyRow where
  policyName : String
  roles : JsValue
  rowFilter : JsValue
  masking : JsValue

/-- What the two catalog tables answer for a key of the tenant. -/
structure Gates where
  accessGrants : TableKey → Except GateError JsValue
  accessPolicies : TableKey → Except GateError (List PolicyRow)

def upperText (v : JsValue) : String := upperCase (if v.truthy then v.text else "")

def holdsPrivilege (g : JsValue) (privilege : String) : Except GateError Bool :=
  match g.get "privileges" with
  | .arr ps => .ok (ps.any fun p => upperCase p.text = privilege)
  | v => if v.truthy then .error .malformed else .ok false

def grantAllows (role privilege : String) (g : JsValue) : Except GateError Bool :=
  if g.isNullish then .error .malformed
  else if upperText (g.get "role") = role then holdsPrivilege g privilege
  else .ok false

def anyGrant (role privilege : String) : List JsValue → Except GateError Bool
  | [] => .ok false
  | g :: gs => do if ← grantAllows role privilege g then .ok true else anyGrant role privilege gs

def sessionRole (session : SessionCtx) : String := upperCase (session.role.getD "")

def hasLength : JsValue → Bool
  | .arr vs => vs ≠ []
  | .str t => t ≠ ""
  | v => (v.get "length").truthy

def passesEveryGrant (session : SessionCtx) : Bool :=
  sessionRole session = "ADMIN" || sessionRole session = "SYSTEM"

/-- `decide`: only declared grants govern a table, and two roles pass every grant. -/
def decideGrants (grants : JsValue) (session : SessionCtx) (privilege : String) : Except GateError Bool :=
  if !hasLength grants || passesEveryGrant session then .ok true
  else if grants.isArray then anyGrant (sessionRole session) privilege grants.elements
  else .error .malformed

def refuseUnless (allowed : Bool) (e : GateError) : Except GateError Unit :=
  if allowed then .ok () else .error e

def enforce (gates : Gates) (session : SessionCtx) (key : TableKey) (privilege : String) :
    Except GateError Unit := do
  let grants ← gates.accessGrants key
  let allowed ← decideGrants grants session privilege
  refuseUnless allowed
    (.accessDenied (session.role.getD "(none)") (key.schema ++ "." ++ key.table) privilege)

def roleMatches (roles : JsValue) (session : SessionCtx) : Bool :=
  match roles with
  | .arr [] => true
  | .arr rs => rs.any fun r => upperCase r.text = sessionRole session
  | _ => true

def optionalText (s : Option String) : JsValue := (s.map JsValue.str).getD .null

def resolveValue (value : JsValue) (session : SessionCtx) : JsValue :=
  match value with
  | .obj fields =>
    match fields.lookup "session" with
    | none => value
    | some ref =>
      if ref.text = "tenant_id" then .str session.tenantId
      else if ref.text = "region" then optionalText session.region
      else if ref.text = "role" then optionalText session.role
      else if ref.text = "username" then optionalText session.username
      else .null
  | v => v

def canonOp : List (String × CanonicalOp) :=
  [("EQ", .eq), ("NEQ", .ne), ("GT", .gt), ("GTE", .gte), ("LT", .lt), ("LTE", .lte),
    ("IN", .inList), ("LIKE", .like)]

/-- The operator and operand of a clause, none for an operator the table lacks. -/
def clauseCondition (c : JsValue) (session : SessionCtx) : Option (CanonicalOp × JsValue) :=
  let op := upperCase (if (c.get "operator").truthy then (c.get "operator").text else "EQ")
  if op = "IS_NULL" then some (.eq, .null)
  else if op = "IS_NOT_NULL" then some (.ne, .null)
  else (canonOp.lookup op).map fun canon => (canon, resolveValue (c.get "value") session)

def mergeCondition (filter : CanonicalFilter) (col : String) (op : CanonicalOp) (v : JsValue) :
    CanonicalFilter :=
  if col = "__proto__" then filter
  else filter.assign col (((filter.get? col).getD .empty).assign op v)

def compileClause (session : SessionCtx) (filter : CanonicalFilter) (c : JsValue) : CanonicalFilter :=
  if (c.get "column").truthy then
    match clauseCondition c session with
    | some (op, v) => mergeCondition filter (c.get "column").text op v
    | none => filter
  else filter

def compileFilter (clauses : List JsValue) (session : SessionCtx) : CanonicalFilter :=
  clauses.foldl (compileClause session) .empty

/-- Every column of the fragment takes its conditions to the filter, over those it has. -/
def mergeIntoFilter (existing fragment : CanonicalFilter) : CanonicalFilter :=
  fragment.entries.foldl
    (fun acc e => acc.assign e.1 (((acc.get? e.1).getD .empty).spread e.2)) existing

structure MaskRule where
  column : String
  strategy : JsValue
  deriving DecidableEq

structure Resolved where
  filter : CanonicalFilter
  masks : List MaskRule

/-- The masks of a policy that target the session; a missing rule has no `roles` to read. -/
def rowMasks (session : SessionCtx) : List JsValue → Except GateError (List MaskRule)
  | [] => .ok []
  | m :: ms => do
    if m.isNullish then .error .malformed
    else
      let rest ← rowMasks session ms
      if roleMatches (m.get "roles") session then
        .ok (⟨(m.get "column").text, m.get "strategy"⟩ :: rest)
      else .ok rest

def resolveRow (session : SessionCtx) (acc : Resolved) (row : PolicyRow) : Except GateError Resolved :=
  if roleMatches row.roles session then do
    let masks ← rowMasks session row.masking.elements
    .ok ⟨mergeIntoFilter acc.filter (compileFilter row.rowFilter.elements session), acc.masks ++ masks⟩
  else .ok acc

def resolve (gates : Gates) (session : SessionCtx) (key : TableKey) : Except GateError Resolved := do
  let rows ← gates.accessPolicies key
  rows.foldlM (resolveRow session) ⟨.empty, []⟩

def utf16Units (s : String) : List ℕ :=
  s.toList.flatMap fun c =>
    if c.toNat < 0x10000 then [c.toNat]
    else [0xD800 + (c.toNat - 0x10000) / 0x400, 0xDC00 + (c.toNat - 0x10000) % 0x400]

def cheapHash (s : String) : ℕ := (utf16Units s).foldl (fun h u => (33 * h + u) % 2 ^ 32) 5381

def hexText (n : ℕ) : String :=
  let digits := Nat.toDigits 16 n
  String.ofList (List.replicate (8 - digits.length) '0' ++ digits)

def lastFour (s : String) : String := String.ofList (utf16Take 4 s.toList.reverse).reverse

def partialText (s : String) : String :=
  if utf16Length s ≤ 4 then "****"
  else String.ofList (List.replicate (utf16Length s - 4) '*') ++ lastFour s

def maskValue (v strategy : JsValue) : JsValue :=
  if v.isNullish then v
  else if strategy = .str "NULL" then .null
  else if strategy = .str "REDACT" then .str "***REDACTED***"
  else if strategy = .str "HASH" then .str ("sha256:" ++ hexText (cheapHash v.text))
  else if strategy = .str "PARTIAL" then .str (partialText v.text)
  else v

def maskColumn (r : Row) (m : MaskRule) : Row :=
  match r.get? m.column with
  | none => r
  | some v => r.assign m.column (maskValue v m.strategy)

def applyMasks (masks : List MaskRule) (r : Row) : Row := masks.foldl maskColumn r

abbrev Meets := String → CanonicalOp → JsValue → Row → Bool

def satisfies (meets : Meets) (filter : CanonicalFilter) (r : Row) : Bool :=
  filter.entries.all fun (col, ops) => ops.entries.all fun (op, v) => meets col op v r

theorem satisfies_iff (meets : Meets) (filter : CanonicalFilter) (r : Row) :
    satisfies meets filter r = true ↔
      ∀ key v, operand filter key = some v → meets key.1 key.2 v r = true := by
  unfold satisfies operand
  rw [List.all_eq_true]
  constructor
  · intro h key v hv
    obtain ⟨ops, hops, hop⟩ := Option.bind_eq_some_iff.mp hv
    have hcol := h (key.1, ops) ((filter.get?_eq_some_iff key.1 ops).mp hops)
    exact List.all_eq_true.mp hcol (key.2, v) ((ops.get?_eq_some_iff key.2 v).mp hop)
  · intro h e he
    refine List.all_eq_true.mpr ?_
    intro o ho
    refine h (e.1, o.1) o.2 ?_
    have hcol : filter.get? e.1 = some e.2 := (filter.get?_eq_some_iff e.1 e.2).mpr he
    rw [hcol]
    exact (e.2.get?_eq_some_iff o.1 o.2).mpr ho

theorem operand_spread (acc : CanonicalFilter) (col : String) (ops : Record CanonicalOp JsValue)
    (key : String × CanonicalOp) :
    operand (acc.assign col (((acc.get? col).getD .empty).spread ops)) key =
      if key.1 = col then (ops.get? key.2).or (operand acc key) else operand acc key := by
  unfold operand
  rw [Record.get?_assign]
  by_cases hcol : key.1 = col
  · rw [if_pos hcol, if_pos hcol, hcol, Option.bind_some, Record.get?_spread]
    cases acc.get? col <;> rfl
  · rw [if_neg hcol, if_neg hcol]

theorem operand_assignEntries (es : List (String × Record CanonicalOp JsValue))
    (hes : (es.map Prod.fst).Nodup) (acc : CanonicalFilter) (key : String × CanonicalOp) :
    operand (es.foldl
      (fun acc e => acc.assign e.1 (((acc.get? e.1).getD .empty).spread e.2)) acc) key =
      ((es.lookup key.1).bind (·.get? key.2)).or (operand acc key) := by
  induction es generalizing acc with
  | nil => rfl
  | cons e es ih =>
    obtain ⟨col, ops⟩ := e
    rw [List.map_cons, List.nodup_cons] at hes
    rw [List.foldl_cons, ih hes.2, operand_spread, lookup_cons_ite]
    by_cases hcol : key.1 = col
    · have hnone : es.lookup key.1 = none := by
        cases hl : es.lookup key.1 with
        | none => rfl
        | some other =>
          have hmem := (lookup_eq_some_iff hes.2 key.1 other).mp hl
          exact absurd (List.mem_map.mpr ⟨_, hmem, hcol⟩) hes.1
      simp [hcol, hcol ▸ hnone]
    · simp [hcol]

theorem operand_mergeIntoFilter (existing fragment : CanonicalFilter) (key : String × CanonicalOp) :
    operand (mergeIntoFilter existing fragment) key =
      (operand fragment key).or (operand existing key) :=
  operand_assignEntries fragment.entries fragment.distinct existing key

theorem satisfies_merge {meets : Meets} {existing fragment : CanonicalFilter} {r : Row}
    (h : satisfies meets (mergeIntoFilter existing fragment) r = true) :
    satisfies meets fragment r = true := by
  rw [satisfies_iff] at h ⊢
  intro key v hv
  refine h key v ?_
  rw [operand_mergeIntoFilter, hv, Option.some_or]

theorem satisfies_every_iff (filter : CanonicalFilter) (r : Row) :
    (∀ meets : Meets, satisfies meets filter r = true) ↔ ∀ key, operand filter key = none := by
  constructor
  · intro h key
    cases hkey : operand filter key with
    | none => rfl
    | some v =>
      have hfalse := (satisfies_iff _ filter r).mp (h fun _ _ _ _ => false) key v hkey
      cases hfalse
  · intro h meets
    rw [satisfies_iff]
    intro key v hv
    rw [h key] at hv
    cases hv

end DataFabric.AccessPolicies
