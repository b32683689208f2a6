import DataFabric.CharText
import DataFabric.JsValues

set_option autoImplicit false

/-! # Identifiers that reach a statement, and the errors that refuse them -/
namespace DataFabric.TenantIdentifiers
open CharText JsValues

/-- The errors of the services, with the text a caller sees. -/
inductive FabricError
  | identifier (message : String)
  | sqlGuard (message : String)
  | accessDenied (message : String)
  | notFound (message : String)
  | tenantIdOverlap (conflictsWith : String)
  /-- an `Error` carrying status 400 and a code -/
  | invalidRequest (code message : String)
  | unexpected (message : String)
  deriving DecidableEq, Repr

namespace FabricError

/-- The HTTP status an error carries, none for a plain `Error`. -/
def status : FabricError → Option ℕ
  | identifier _ | sqlGuard _ | invalidRequest _ _ => some 400
  | accessDenied _ => some 403
  | notFound _ => some 404
  | tenantIdOverlap _ => some 409
  | unexpected _ => none

def code : FabricError → Option String
  | identifier _ => some "INVALID_IDENTIFIER"
  | sqlGuard _ => some "INVALID_SQL_FRAGMENT"
  | accessDenied _ => some "ACCESS_DENIED"
  | notFound _ => some "NOT_FOUND"
  | tenantIdOverlap _ => some "TENANT_ID_OVERLAP"
  | invalidRequest c _ => some c
  | unexpected _ => none

end FabricError

def accessDenied (message : String) : FabricError :=
  .accessDenied (if startsWith message "ACCESS DENIED" then message else "ACCESS DENIED: " ++ message)

def identRe (s : String) : Bool := matchesWord isWordStart isWord 0 62 s

def tenantIdRe (s : String) : Bool := matchesWord Char.isAlpha isWord 1 40 s

def assertIdent (value : JsValue) (what : String) : Except FabricError String :=
  match value with
  | .str s =>
    if identRe s then .ok s
    else .error (.identifier s!"Invalid {what}: must match [A-Za-z_][A-Za-z0-9_]\x7b0,62\x7d")
  | _ => .error (.identifier s!"Invalid {what}: must match [A-Za-z_][A-Za-z0-9_]\x7b0,62\x7d")

def doubleQuotes (s : String) : String :=
  String.ofList (s.toList.flatMap fun c => if c = '"' then ['"', '"'] else [c])

def quoted (s : String) : String := "\"" ++ s ++ "\""

def quoteIdent (value : JsValue) (what : String) : Except FabricError String :=
  (assertIdent value what).map quoted

/-- What `quoteAnyIdent` accepts: a text of 1 to 128 units without NUL. -/
def quotable (s : String) : Bool :=
  s ≠ "" && !containsChar '\x00' s && utf16Length s ≤ 128

def quoteAnyIdent (s : String) : Except FabricError String :=
  if quotable s then .ok (quoted (doubleQuotes s)) else .error (.identifier "Invalid identifier")

def assertTenantId (value : JsValue) : Except FabricError String :=
  match value with
  | .str s =>
    if tenantIdRe s then .ok s
    else .error (.identifier
      "Invalid tenant id: letters, digits and underscores, starting with a letter (2-41 chars)")
  | _ => .error (.identifier
      "Invalid tenant id: letters, digits and underscores, starting with a letter (2-41 chars)")

def assertTenantIdSafe (id : String) : Except FabricError String :=
  if matchesWord isWord isWord 0 55 id then .ok id else .error (.identifier "Invalid tenant id")

/-- `tenant_<id>`, the name every schema of the tenant starts with. -/
def tenantBase (tenantId : String) : String := "tenant_" ++ tenantId

def belongsToTenant (schemaName tenantId : String) : Bool :=
  schemaName = tenantBase tenantId || startsWith schemaName (tenantBase tenantId ++ "_")

theorem assertTenantIdSafe_ok {id r : String} (h : assertTenantIdSafe id = .ok r) : r = id := by
  unfold assertTenantIdSafe at h
  split at h
  · exact (Except.ok.inj h).symm
  · cases h

theorem assertTenantId_ok_iff {t r : String} :
    assertTenantId (.str t) = .ok r ↔ tenantIdRe t = true ∧ r = t := by
  change (if tenantIdRe t then Except.ok t else _) = Except.ok r ↔ _
  split
  · simp [*, eq_comm]
  · simp [*]

theorem quoteAnyIdent_ok_iff {s r : String} :
    quoteAnyIdent s = .ok r ↔ quotable s = true ∧ r = quoted (doubleQuotes s) := by
  unfold quoteAnyIdent
  split
  · simp [*, eq_comm]
  · simp [*]

theorem belongsToTenant_base (t : String) : belongsToTenant (tenantBase t) t = true := by
  simp [belongsToTenant]

theorem belongsToTenant_logical (t x : String) :
    belongsToTenant (tenantBase t ++ "_" ++ x) t = true := by
  unfold belongsToTenant
  rw [Bool.or_eq_true, startsWith_iff]
  exact .inr ⟨x.toList, String.toList_append.symm⟩

end DataFabric.TenantIdentifiers
