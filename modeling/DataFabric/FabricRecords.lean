import DataFabric.ManifestPlans

set_option autoImplicit false

/-!
# What an apply records besides the schemas

The rows of the policy, grant and constraint services for the tables of a manifest.
-/
namespace DataFabric.FabricRecords
open CharText ColumnTypes Manifests

deriving instance DecidableEq, Repr for TableGrants.GrantRule

inductive Service | PolicyService | GrantService | ConstraintService
  deriving DecidableEq, Repr

structure ConstraintColumn where
  name : String
  notNull : Bool
  unique : Bool
  enum : Option (List String)
  deriving DecidableEq, Repr

structure CheckRule where
  name : String
  column : String
  op : String
  value : String
  deriving DecidableEq, Repr

structure ConstraintSpec where
  columns : List ConstraintColumn
  checks : List CheckRule
  deriving DecidableEq, Repr

inductive RecordValue
  | policy (roles rowFilter : List String) (masking : List FabricMask)
  | grants (rules : List TableGrants.GrantRule)
  | spec (spec : ConstraintSpec)
  deriving DecidableEq, Repr

structure RecordKey where
  service : Service
  tenant : String
  schema : String
  table : String
  name : String
  deriving DecidableEq, Repr

structure Record where
  key : RecordKey
  value : RecordValue
  updatedAt : ℕ
  deriving DecidableEq, Repr

/-- The services' tables, once they are created, with their rows. -/
structure Services where
  tables : List Service
  rows : List Record
  deriving DecidableEq, Repr

inductive ServiceWrite
  | ensureTable (service : Service)
  | upsert (key : RecordKey) (value : RecordValue)
  deriving DecidableEq, Repr

def Services.latest (τ : Services) : ℕ := τ.rows.foldr (fun row acc => max row.updatedAt acc) 0

def Services.write (τ : Services) : ServiceWrite → Services
  | .ensureTable service =>
    if service ∈ τ.tables then τ else { τ with tables := τ.tables ++ [service] }
  | .upsert key value =>
    { τ with rows := τ.rows.filter (·.key ≠ key) ++ [⟨key, value, τ.latest + 1⟩] }

theorem latest_append (rows : List Record) (row : Record) (tables : List Service) :
    Services.latest ⟨tables, rows ++ [row]⟩ = max (Services.latest ⟨tables, rows⟩) row.updatedAt := by
  unfold Services.latest
  induction rows with
  | nil => exact max_comm _ _
  | cons r rows ih =>
    rw [List.cons_append, List.foldr_cons, ih, List.foldr_cons, max_assoc]

theorem latest_filter (rows : List Record) (keep : Record → Bool) (tables : List Service) :
    Services.latest ⟨tables, rows.filter keep⟩ ≤ Services.latest ⟨tables, rows⟩ := by
  unfold Services.latest
  induction rows with
  | nil => exact le_refl _
  | cons r rows ih =>
    rw [List.foldr_cons]
    cases hkeep : keep r with
    | true =>
      rw [List.filter_cons_of_pos hkeep, List.foldr_cons]
      exact max_le_max (le_refl _) ih
    | false =>
      rw [List.filter_cons_of_neg (by simp [hkeep])]
      exact ih.trans (le_max_right _ _)

theorem latest_upsert (τ : Services) (key : RecordKey) (value : RecordValue) :
    (τ.write (.upsert key value)).latest = τ.latest + 1 := by
  have hfilter := latest_filter τ.rows (·.key ≠ key) τ.tables
  change Services.latest ⟨τ.tables, _ ++ [_]⟩ = _
  rw [latest_append]
  change max _ (τ.latest + 1) = _
  change _ ≤ τ.latest at hfilter
  omega

def Idle (τ : Services) : ServiceWrite → Prop
  | .ensureTable service => service ∈ τ.tables
  | .upsert _ _ => False

def Grown (τ₀ τ : Services) : Prop := τ₀.latest < τ.latest ∨ ∃ service ∈ τ.tables, service ∉ τ₀.tables

theorem Grown.ne {τ₀ τ : Services} (h : Grown τ₀ τ) : τ ≠ τ₀ := by
  rintro rfl
  rcases h with h | ⟨service, hin, hout⟩
  · omega
  · exact hout hin

theorem idle_write {τ : Services} {w : ServiceWrite} (h : Idle τ w) : τ.write w = τ := by
  cases w with
  | ensureTable service => exact if_pos h
  | upsert key value => cases h

theorem grown_of_not_idle {τ : Services} {w : ServiceWrite} (h : ¬ Idle τ w) : Grown τ (τ.write w) := by
  cases w with
  | ensureTable service =>
    have hout : service ∉ τ.tables := h
    right
    rw [Services.write, if_neg hout]
    exact ⟨service, List.mem_append_right _ List.mem_cons_self, h⟩
  | upsert key value =>
    left
    rw [latest_upsert]
    omega

theorem Grown.write {τ₀ τ : Services} (h : Grown τ₀ τ) (w : ServiceWrite) : Grown τ₀ (τ.write w) := by
  cases w with
  | ensureTable service =>
    rw [Services.write]
    split
    · exact h
    · refine h.imp id fun ⟨service', hin, hout⟩ => ⟨service', List.mem_append_left _ hin, hout⟩
  | upsert key value =>
    refine h.imp (fun hlt => ?_) id
    rw [latest_upsert]
    omega

def maskStrategy (expression : String) : String :=
  if containsText "null" (asciiLower expression) then "NULL"
  else if containsText "hash" (asciiLower expression) then "HASH"
  else if containsText "partial" (asciiLower expression) || containsText "last4" (asciiLower expression) then
    "PARTIAL"
  else "REDACT"

-- The CHECK rules that can be read off a table's constraints.
variable (checksOf : TableDefinition → List CheckRule)

def specColumn (s : SchemaDefinition) (c : ColumnDefinition) : ConstraintColumn where
  name := c.name
  notNull := c.nullable = some false || c.primaryKey
  unique := c.unique || c.primaryKey
  enum := if isEnumPlaceholder c.type then
      (c.ref.filter (· ≠ "")).bind fun ref =>
        s.resources.findSome? fun
          | .enum e => if e.name = ref then some e.values else none
          | _ => none
    else none

def specFromManifestTable (s : SchemaDefinition) (tb : TableDefinition) : ConstraintSpec where
  columns := (tb.columns.map (specColumn s)).filter fun c => c.notNull || c.unique || c.enum.isSome
  checks := checksOf tb

/-- What `persistMetadataState` has the services store for a table. -/
def serviceRecords (t S : String) (s : SchemaDefinition) (tb : TableDefinition) :
    List (RecordKey × RecordValue) :=
  tb.accessPolicies.map (fun p =>
    (⟨.PolicyService, t, S, tb.name, p.name⟩, .policy p.roles p.rowFilter p.masking)) ++
  (if tb.grants.isEmpty then []
  else [(⟨.GrantService, t, S, tb.name, ""⟩, .grants (tb.grants.map fun g => ⟨g.role, g.privileges⟩))]) ++
  (if tb.masking.isEmpty then []
  else [(⟨.PolicyService, t, S, tb.name, tb.name ++ "_masking"⟩,
    .policy [] [] (tb.masking.map fun m => ⟨m.column, some m.roles, maskStrategy (m.expression.getD "")⟩))]) ++
  let spec := specFromManifestTable checksOf s tb
  if spec.columns.isEmpty && spec.checks.isEmpty then []
  else [(⟨.ConstraintService, t, S, tb.name, ""⟩, .spec spec)]

end DataFabric.FabricRecords
