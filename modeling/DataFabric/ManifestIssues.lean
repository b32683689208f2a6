import DataFabric.HubReplicas

set_option autoImplicit false

/-! # The issues a manifest is refused with -/
namespace DataFabric.ManifestIssues
open CharText TenantIdentifiers HubReplicas

structure ManifestIssue where
  code : String
  path : String
  message : String
  deriving DecidableEq, Repr

def ident (v what path : String) : List ManifestIssue :=
  if identRe v then []
  else [⟨"INVALID_IDENTIFIER", path,
    s!"{what}: Invalid {what}: must match [A-Za-z_][A-Za-z0-9_]\x7b0,62\x7d (got \"{printable v 40}\")"⟩]

/-- `/^(postgres|fabric_admin|authenticator|web_anon|pg_.*|citus.*|public)$/i` -/
def reservedRoles (r : String) : Bool :=
  matchesAnyName ["postgres", "fabric_admin", "authenticator", "web_anon", "public"] ["pg_", "citus"] r

def role (v path : String) : List ManifestIssue :=
  if upperCase v = "PUBLIC" then []
  else if identRe v then
    if reservedRoles v then
      [⟨"RESERVED_ROLE", path, s!"role \"{v}\" cannot be used in a manifest"⟩]
    else []
  else ident v "role" path

theorem role_ne_empty {v path : String} (h : role v path = []) : v ≠ "" := by
  rintro rfl
  cases h

end DataFabric.ManifestIssues
