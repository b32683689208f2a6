import DataFabric.HubStatements

set_option autoImplicit false

/-!
# Which statements stay inside the tenant's schemas

Every path but the lookup by name puts the schema under the tenant's prefix;
the lookup by name copies the physical name of the catalog row.
-/
namespace DataFabric.TargetConfinement
open CharText JsValues TenantIdentifiers TenantNamespaces CatalogResolution HubStatements ExceptRules

/-- The catalog row a request without table id finds by name. -/
def nameRow (cat : Catalog) (tenantId : String) (ref : TargetRef) : Option CatalogRow :=
  match present ref.tableId, toTenantSchemaName tenantId ref.schema with
  | none, .ok byConvention =>
    match startingSchema cat tenantId ref byConvention with
    | .ok start =>
      if ref.tableName = "" then none else lookupByName cat tenantId start ref.tableName ref
    | .error _ => none
  | _, _ => none

/-- The names of that row, when its schema lies outside the tenant's. -/
def foreignCopy (cat : Catalog) (tenantId : String) (ref : TargetRef) : Option (String × String) :=
  match nameRow cat tenantId ref with
  | some row =>
    match present row.schema.physicalName with
    | some p =>
      if belongsToTenant p tenantId then none
      else some (p, (present row.table.physicalName).getD ref.tableName)
    | none => none
  | none => none

/-- The row found by name carries a foreign schema, and names a statement can quote. -/
def CopiesForeignSchema (cat : Catalog) (tenantId : String) (ref : TargetRef) : Prop :=
  ∃ c ∈ foreignCopy cat tenantId ref, quotable c.1 = true ∧ quotable c.2 = true

instance (cat : Catalog) (tenantId : String) (ref : TargetRef) :
    Decidable (CopiesForeignSchema cat tenantId ref) :=
  inferInstanceAs (Decidable (∃ c ∈ foreignCopy cat tenantId ref, _))

theorem startingSchema_belongs {cat : Catalog} {tenantId byConvention s : String} {ref : TargetRef}
    (hconv : belongsToTenant byConvention tenantId = true)
    (h : startingSchema cat tenantId ref byConvention = .ok s) :
    belongsToTenant s tenantId = true := by
  unfold startingSchema at h
  split at h
  · exact Except.ok.inj h ▸ hconv
  · split_ifs at h
    split at h
    · cases h
    · exact hubSchemaFor_belongs h

theorem resolveById_belongs {cat : Catalog} {tenantId tableId : String} {r : ResolvedTarget}
    (h : resolveById cat tenantId tableId = .ok r) :
    belongsToTenant r.schemaName tenantId = true := by
  unfold resolveById at h
  split_ifs at h
  split at h
  · cases h
  · obtain ⟨s, hs, h⟩ := bind_ok h
    obtain rfl := Except.ok.inj h
    exact hubSchemaFor_belongs hs

theorem resolveTarget_schema {cat : Catalog} {override : Option String} {tenantId : String}
    {ref : TargetRef} {r : ResolvedTarget} (h : resolveTarget cat override tenantId ref = .ok r) :
    belongsToTenant r.schemaName tenantId = true ∨
      foreignCopy cat tenantId ref = some (r.schemaName, r.tableName) := by
  unfold resolveTarget at h
  obtain ⟨byConvention, hconv, h⟩ := bind_ok h
  split at h
  case h_1 tableId _ => exact .inl (resolveById_belongs h)
  case h_2 hid =>
    obtain ⟨start, hstart, h⟩ := bind_ok h
    obtain rfl := Except.ok.inj h
    have hown := startingSchema_belongs (toTenantSchemaName_belongs hconv) hstart
    unfold resolveByName foreignCopy nameRow
    simp only [hid, hconv, hstart]
    by_cases hname : ref.tableName = ""
    · simp only [hname, if_true]
      exact .inl hown
    · simp only [hname, if_false]
      cases lookupByName cat tenantId start ref.tableName ref with
      | none => exact .inl hown
      | some row =>
        cases hp : present row.schema.physicalName with
        | none =>
          simp only [hp, Option.getD_none]
          exact .inl hown
        | some p =>
          simp only [hp, Option.getD_some]
          by_cases hb : belongsToTenant p tenantId = true
          · exact .inl hb
          · rw [if_neg hb]
            exact .inr rfl

theorem resolveTarget_foreign {cat : Catalog} (override : Option String) {tenantId p table : String}
    {ref : TargetRef} (h : foreignCopy cat tenantId ref = some (p, table)) :
    ∃ r, resolveTarget cat override tenantId ref = .ok r ∧ r.schemaName = p ∧ r.tableName = table := by
  unfold foreignCopy at h
  split at h
  case h_2 => cases h
  case h_1 row hrow =>
    split at h
    case h_2 => cases h
    case h_1 physical hp =>
      split_ifs at h
      obtain ⟨rfl, rfl⟩ := Prod.mk.inj (Option.some.inj h)
      unfold nameRow at hrow
      split at hrow
      case h_2 => cases hrow
      case h_1 byConvention hid hconv =>
        split at hrow
        case h_2 => cases hrow
        case h_1 start hstart =>
          split_ifs at hrow with hname
          refine ⟨resolveByName cat override tenantId start ref, ?_, ?_, ?_⟩
          · unfold resolveTarget
            rw [hconv]
            change (match present ref.tableId with
              | some tableId => _
              | none => _) = _
            rw [hid]
            change (startingSchema cat tenantId ref byConvention >>= _) = _
            rw [hstart]
            rfl
          · simp only [resolveByName, hname, if_false, hrow, hp, Option.getD_some]
          · simp only [resolveByName, hname, if_false, hrow]

theorem generateSql_target {json : JsonColumns} {cat : Catalog} {override : Option String}
    {tenantId s : String} {config : QueryConfig} {stmt : HubStatement}
    (h : generateSql json cat override tenantId config = .ok stmt)
    (hs : stmt.targetSchema = some s) :
    ∃ r, resolveTarget cat override tenantId config.target = .ok r ∧ r.schemaName = s ∧
      quotable s = true ∧ (r.tableName ≠ "" → quotable r.tableName = true) := by
  unfold generateSql at h
  split_ifs at h
  obtain ⟨clean, _, h⟩ := bind_ok h
  obtain ⟨r, hr, h⟩ := bind_ok h
  obtain ⟨schema, hschema, h⟩ := bind_ok h
  obtain ⟨quotedText, htable, h⟩ := bind_ok h
  obtain ⟨cte, _, h⟩ := bind_ok h
  obtain ⟨body, hbody, h⟩ := bind_ok h
  obtain ⟨filter, _, h⟩ := bind_ok h
  obtain ⟨tail, _, h⟩ := bind_ok h
  obtain rfl := Except.ok.inj h
  obtain ⟨hname, hquot⟩ := quotedName_ok hschema
  obtain rfl : r.schemaName = schema := by simpa using hname
  obtain rfl := statementBody_target hbody hs
  refine ⟨r, hr, rfl, hquot, fun hne => ?_⟩
  unfold quotedTable statementTable at htable
  rw [if_neg hne, if_neg hne] at htable
  exact (quoteAnyIdent_ok_iff.mp htable).1

/-- A request for a schema, the statement that needs nothing but its target. -/
def createSchemaConfig (ref : TargetRef) : QueryConfig := { type := "CREATE_SCHEMA", target := ref }

theorem createSchema_target (json : JsonColumns) {cat : Catalog} {override : Option String}
    {tenantId : String} {ref : TargetRef} {r : ResolvedTarget} (hid : assertTenantIdSafe tenantId = .ok tenantId)
    (h : resolveTarget cat override tenantId ref = .ok r) (hs : quotable r.schemaName = true)
    (hne : r.tableName ≠ "") (ht : quotable r.tableName = true) :
    ∃ stmt, generateSql json cat override tenantId (createSchemaConfig ref) = .ok stmt ∧
      stmt.targetSchema = some r.schemaName := by
  have htenant : tenantId ≠ "" := by
    rintro rfl
    cases hid
  have hschema : quotedName (.str r.schemaName) = .ok r.schemaName := by
    change (quoteAnyIdent r.schemaName).map (fun _ => r.schemaName) = _
    rw [quoteAnyIdent_ok_iff.mpr ⟨hs, rfl⟩]
    rfl
  have htable : quotedTable (statementTable r ref) = .ok (quoted (doubleQuotes r.tableName)) := by
    unfold quotedTable statementTable
    rw [if_neg hne, if_neg hne]
    exact quoteAnyIdent_ok_iff.mpr ⟨ht, rfl⟩
  refine ⟨⟨none, .createSchema r.schemaName, [], {}⟩, ?_, rfl⟩
  unfold generateSql
  rw [if_neg htenant, hid]
  change (resolveTarget cat override tenantId ref >>= _) = _
  rw [h]
  change (quotedName (.str r.schemaName) >>= _) = _
  rw [hschema]
  change (quotedTable (statementTable r ref) >>= _) = _
  rw [htable]
  rfl

theorem foreignCopy_names {cat : Catalog} {tenantId p table : String} {ref : TargetRef}
    (h : foreignCopy cat tenantId ref = some (p, table)) :
    belongsToTenant p tenantId = false ∧ table ≠ "" ∧ assertTenantIdSafe tenantId = .ok tenantId := by
  unfold foreignCopy nameRow at h
  split at h
  case h_2 => cases h
  case h_1 row hrow =>
    split at hrow
    case h_2 => cases hrow
    case h_1 byConvention hid hconv =>
      split at hrow
      case h_2 => cases hrow
      case h_1 start hstart =>
        split_ifs at hrow with hname
        split at h
        case h_2 => cases h
        case h_1 physical hp =>
          split_ifs at h with hb
          obtain ⟨rfl, rfl⟩ := Prod.mk.inj (Option.some.inj h)
          refine ⟨Bool.eq_false_iff.mpr hb, ?_, ?_⟩
          · cases htable : present row.table.physicalName with
            | none => exact hname
            | some t => simpa using (Option.filter_eq_some_iff.mp htable).2
          · obtain ⟨clean, hclean, _⟩ := bind_ok hconv
            rw [hclean, assertTenantIdSafe_ok hclean]

/-- Whatever the rest of the request, the statement stays in the tenant's schemas exactly when
the target is not found by name in a foreign schema. -/
theorem generateSql_confined_iff (json : JsonColumns) (cat : Catalog) (override : Option String)
    (tenantId : String) (ref : TargetRef) :
    (∀ config stmt s, config.target = ref →
      generateSql json cat override tenantId config = .ok stmt → stmt.targetSchema = some s →
        belongsToTenant s tenantId = true) ↔
    ¬ CopiesForeignSchema cat tenantId ref := by
  constructor
  · rintro h ⟨⟨p, table⟩, hcopy, hp, htable⟩
    obtain ⟨r, hr, rfl, rfl⟩ := resolveTarget_foreign override hcopy
    obtain ⟨hforeign, hne, hid⟩ := foreignCopy_names hcopy
    obtain ⟨stmt, hstmt, hs⟩ := createSchema_target json hid hr hp hne htable
    have hown := h (createSchemaConfig ref) stmt _ rfl hstmt hs
    rw [hforeign] at hown
    cases hown
  · rintro hno config stmt s rfl hstmt hs
    obtain ⟨r, hr, rfl, hq, ht⟩ := generateSql_target hstmt hs
    rcases resolveTarget_schema hr with hown | hcopy
    · exact hown
    · exact absurd ⟨_, hcopy, hq, ht (foreignCopy_names hcopy).2.1⟩ hno

/-- A source of `acme` whose remote server exposes a schema called `tenant_victim`. -/
def hostileCatalog : Catalog where
  sources := [⟨"s1", "acme", "crm", "POSTGRES", .obj []⟩]
  schemas := [⟨"c1", some "s1", "sales", some "tenant_victim"⟩]
  tables := [⟨"t1", "c1", "users", some "users", "TABLE"⟩]

theorem generateSql_reads_victim :
    ¬ ∀ (json : JsonColumns) (cat : Catalog) (override : Option String) (tenantId : String)
      (config : QueryConfig) (stmt : HubStatement) (s : String),
      generateSql json cat override tenantId config = .ok stmt → stmt.targetSchema = some s →
        belongsToTenant s tenantId = true := by
  intro h
  have hown := h (fun _ _ _ => false) hostileCatalog none "acme"
    { type := "SELECT", target := { table := some "users" } }
    ⟨none, .select ["*"] ⟨"tenant_victim", "users"⟩ [], [], {}⟩ "tenant_victim" (by decide) rfl
  revert hown
  decide

end DataFabric.TargetConfinement
