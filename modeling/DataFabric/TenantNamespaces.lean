import DataFabric.SeparatedNames
import DataFabric.TransitionRuns
import DataFabric.TenantIdentifiers

set_option autoImplicit false

/-!
# Tenant ids and the schemas they own

Ids may contain the separator, so ownership rests on the creation check: no id
continues another one, letter case ignored.
-/
namespace DataFabric.TenantNamespaces
open CharText JsValues TenantIdentifiers

/-- `/^(public|pg_[a-z0-9_]*|information_schema|fabric_[a-z0-9_]*|citus[a-z0-9_]*|metadata_catalog|admin_functions|cron)$/i` -/
def reservedSchemaRe (s : String) : Bool :=
  matchesAnyName ["public", "information_schema", "metadata_catalog", "admin_functions", "cron"]
    ["pg_", "fabric_", "citus"] s

/-- The physical schema of a logical one; `none` is an absent or empty argument. -/
def toTenantSchemaName (tenantId : String) (schema : Option String) : Except FabricError String := do
  let cleanTenant ← assertTenantIdSafe tenantId
  match schema with
  | none => .ok (tenantBase cleanTenant)
  | some "" => .ok (tenantBase cleanTenant)
  | some x =>
    let safeSchema := keepOnly isWord x
    if safeSchema = "" then .error (.sqlGuard "Invalid schema name")
    else if belongsToTenant safeSchema cleanTenant then .ok safeSchema
    else if reservedSchemaRe safeSchema then
      .error (accessDenied s!"schema \"{safeSchema}\" is not accessible")
    else .ok (tenantBase cleanTenant ++ "_" ++ safeSchema)

/-- Hub schema of a catalog name: the tenant's own as it is, any other under its prefix. -/
def hubSchemaFor (tenantId physical : String) : Except FabricError String := do
  let tid ← assertTenantIdSafe tenantId
  let clean := keepOnly isWord physical
  if clean = "" then .ok (tenantBase tid)
  else .ok (if belongsToTenant clean tid then clean else tenantBase tid ++ "_" ++ clean)

/-- One existing id against a new one: `left(lower(new), length(id) + 1) = lower(id) || '_'`, or the reverse. -/
def overlaps (id new : String) : Bool :=
  asciiLower id ≠ asciiLower new &&
    ((asciiLower new).toList.take ((asciiLower id).toList.length + 1) = (asciiLower id).toList ++ ['_'] ||
      (asciiLower id).toList.take ((asciiLower new).toList.length + 1) = (asciiLower new).toList ++ ['_'])

def findTenantIdOverlap (tenants : List String) (id : String) : Option String :=
  tenants.find? (overlaps · id)

def assertCreatableTenantId (tenants : List String) (id : JsValue) : Except FabricError String := do
  let tid ← assertTenantId id
  match findTenantIdOverlap tenants tid with
  | some clash => .error (.tenantIdOverlap clash)
  | none => .ok tid

inductive TenantEvent
  | create (id : JsValue)
  | delete (id : String)
  deriving DecidableEq

/-- A creation that passes the check inserts its row, the primary key keeping one row an id;
a refused one ends in an error and changes nothing. -/
def stepTenants (tenants : List String) : TenantEvent → Option (List String)
  | .create id =>
    match assertCreatableTenantId tenants id with
    | .error _ => some tenants
    | .ok tid => if tid ∈ tenants then some tenants else some (tid :: tenants)
  | .delete id => some (tenants.filter (· ≠ id))

def Existing (tenants : List String) : Prop :=
  TransitionRuns.Reachable {[]} stepTenants tenants

def folded (tenants : List String) : Set (List Char) := {w | ∃ t ∈ tenants, w = (asciiLower t).toList}

/-- No id of the table continues another, letter case ignored. -/
def Unambiguous (tenants : List String) : Prop := SeparatedNames.Separated '_' (folded tenants)

theorem belongsToTenant_iff (s t : String) :
    belongsToTenant s t = true ↔ SeparatedNames.Owns '_' (tenantBase t).toList s.toList := by
  unfold belongsToTenant SeparatedNames.Owns SeparatedNames.Continues
  rw [Bool.or_eq_true, startsWith_iff, decide_eq_true_eq, String.toList_append, String.toList_inj]
  rfl

theorem continues_folded {t u : String}
    (h : SeparatedNames.Continues '_' (tenantBase t).toList (tenantBase u).toList) :
    SeparatedNames.Continues '_' (asciiLower t).toList (asciiLower u).toList := by
  unfold tenantBase at h
  rw [String.toList_append, String.toList_append, SeparatedNames.continues_append_left] at h
  rw [asciiLower_toList, asciiLower_toList]
  exact SeparatedNames.continues_map Char.toLower h

theorem overlaps_iff (id new : String) :
    overlaps id new = true ↔
      SeparatedNames.Continues '_' (asciiLower id).toList (asciiLower new).toList ∨
        SeparatedNames.Continues '_' (asciiLower new).toList (asciiLower id).toList := by
  unfold overlaps
  rw [Bool.and_eq_true, Bool.or_eq_true, decide_eq_true_eq, decide_eq_true_eq, decide_eq_true_eq,
    ← SeparatedNames.continues_iff_take, ← SeparatedNames.continues_iff_take, and_iff_right_iff_imp]
  rintro (hc | hc) heq
  · exact SeparatedNames.continues_irrefl _ (heq ▸ hc)
  · exact SeparatedNames.continues_irrefl _ (heq ▸ hc)

theorem assertCreatableTenantId_ok {tenants : List String} {id : JsValue} {tid : String}
    (h : assertCreatableTenantId tenants id = .ok tid) :
    ∀ t ∈ tenants, overlaps t tid = false := by
  unfold assertCreatableTenantId at h
  cases hid : assertTenantId id with
  | error e =>
    rw [hid] at h
    cases h
  | ok s =>
    rw [hid] at h
    change (match findTenantIdOverlap tenants s with
      | some clash => Except.error (FabricError.tenantIdOverlap clash)
      | none => Except.ok s) = Except.ok tid at h
    cases hfind : findTenantIdOverlap tenants s with
    | some clash =>
      rw [hfind] at h
      cases h
    | none =>
      rw [hfind] at h
      obtain rfl : s = tid := Except.ok.inj h
      intro t ht
      simpa using List.find?_eq_none.mp hfind t ht

theorem folded_cons (tid : String) (tenants : List String) :
    folded (tid :: tenants) = insert (asciiLower tid).toList (folded tenants) := by
  ext w
  constructor
  · rintro ⟨t, ht, rfl⟩
    rcases List.mem_cons.mp ht with rfl | ht
    · exact .inl rfl
    · exact .inr ⟨t, ht, rfl⟩
  · rintro (rfl | ⟨t, ht, rfl⟩)
    · exact ⟨tid, List.mem_cons_self, rfl⟩
    · exact ⟨t, List.mem_cons_of_mem _ ht, rfl⟩

theorem unambiguous_create {tenants : List String} {tid : String} (hs : Unambiguous tenants)
    (hclear : ∀ t ∈ tenants, overlaps t tid = false) : Unambiguous (tid :: tenants) := by
  unfold Unambiguous
  rw [folded_cons]
  refine SeparatedNames.separated_insert hs ?_ ?_
  · rintro w ⟨t, ht, rfl⟩
    exact fun hc => ne_true_of_eq_false (hclear t ht) ((overlaps_iff _ _).mpr (.inr hc))
  · rintro w ⟨t, ht, rfl⟩
    exact fun hc => ne_true_of_eq_false (hclear t ht) ((overlaps_iff _ _).mpr (.inl hc))

theorem unambiguous_delete {tenants : List String} (hs : Unambiguous tenants) (id : String) :
    Unambiguous (tenants.filter (· ≠ id)) := by
  refine SeparatedNames.separated_mono ?_ hs
  rintro w ⟨t, ht, rfl⟩
  exact ⟨t, (List.mem_filter.mp ht).1, rfl⟩

theorem unambiguous_step {tenants tenants' : List String} {e : TenantEvent}
    (hs : Unambiguous tenants) (h : stepTenants tenants e = some tenants') :
    Unambiguous tenants' := by
  cases e with
  | delete id =>
    obtain rfl := Option.some.inj h
    exact unambiguous_delete hs id
  | create id =>
    change (match assertCreatableTenantId tenants id with
      | .error _ => some tenants
      | .ok tid => if tid ∈ tenants then some tenants else some (tid :: tenants)) = some tenants' at h
    cases hid : assertCreatableTenantId tenants id with
    | error err =>
      rw [hid] at h
      exact Option.some.inj h ▸ hs
    | ok tid =>
      rw [hid] at h
      have hclear := assertCreatableTenantId_ok hid
      by_cases hmem : tid ∈ tenants
      · simp only [hmem, if_true] at h
        exact Option.some.inj h ▸ hs
      · simp only [hmem, if_false] at h
        exact Option.some.inj h ▸ unambiguous_create hs hclear

theorem existing_unambiguous {tenants : List String} (h : Existing tenants) : Unambiguous tenants := by
  refine TransitionRuns.invariant (P := Unambiguous) ?_ (fun _ _ _ => unambiguous_step) h
  rintro s rfl
  rintro w ⟨t, ht, _⟩
  cases ht

theorem belongsToTenant_unique {tenants : List String} (h : Existing tenants) {t u s : String}
    (ht : t ∈ tenants) (hu : u ∈ tenants) (hst : belongsToTenant s t = true)
    (hsu : belongsToTenant s u = true) : t = u := by
  have hsep := existing_unambiguous h
  rcases SeparatedNames.owns_common ((belongsToTenant_iff s t).mp hst)
      ((belongsToTenant_iff s u).mp hsu) with heq | hc | hc
  · have hbase : tenantBase t = tenantBase u := String.toList_inj.mp heq
    unfold tenantBase at hbase
    exact (String.append_right_inj _).mp hbase
  · exact absurd (continues_folded hc) (hsep _ ⟨t, ht, rfl⟩ _ ⟨u, hu, rfl⟩)
  · exact absurd (continues_folded hc) (hsep _ ⟨u, hu, rfl⟩ _ ⟨t, ht, rfl⟩)

theorem toTenantSchemaName_belongs {t s : String} {x : Option String}
    (h : toTenantSchemaName t x = .ok s) : belongsToTenant s t = true := by
  unfold toTenantSchemaName at h
  cases hid : assertTenantIdSafe t with
  | error e =>
    rw [hid] at h
    cases h
  | ok r =>
    rw [hid] at h
    obtain rfl := assertTenantIdSafe_ok hid
    change (match x with
      | none => Except.ok (tenantBase r)
      | some "" => Except.ok (tenantBase r)
      | some x => _) = Except.ok s at h
    split at h
    · exact Except.ok.inj h ▸ belongsToTenant_base r
    · exact Except.ok.inj h ▸ belongsToTenant_base r
    · dsimp only at h
      split_ifs at h with hempty hown hres
      · exact Except.ok.inj h ▸ hown
      · exact Except.ok.inj h ▸ belongsToTenant_logical r _

theorem hubSchemaFor_belongs {t s physical : String} (h : hubSchemaFor t physical = .ok s) :
    belongsToTenant s t = true := by
  unfold hubSchemaFor at h
  cases hid : assertTenantIdSafe t with
  | error e =>
    rw [hid] at h
    cases h
  | ok r =>
    rw [hid] at h
    obtain rfl := assertTenantIdSafe_ok hid
    change (if keepOnly isWord physical = "" then Except.ok (tenantBase r) else _) = Except.ok s at h
    split_ifs at h with hempty hown
    · exact Except.ok.inj h ▸ belongsToTenant_base r
    · exact Except.ok.inj h ▸ hown
    · exact Except.ok.inj h ▸ belongsToTenant_logical r _

/-- After any creations and deletions no schema belongs to two tenants, and a name computed for
one tenant is refused or belongs to that tenant alone. -/
theorem tenantSchemas_exclusive (events : List TenantEvent) (tenants : List String)
    (hrun : TransitionRuns.run stepTenants [] events = some tenants) :
    (∀ t ∈ tenants, ∀ u ∈ tenants, t ≠ u →
      ∀ s, ¬ (belongsToTenant s t = true ∧ belongsToTenant s u = true)) ∧
    ∀ t ∈ tenants, ∀ x : Option String,
      (∃ e, toTenantSchemaName t x = .error e) ∨
      ∃ s, toTenantSchemaName t x = .ok s ∧ belongsToTenant s t = true ∧
        ∀ u ∈ tenants, u ≠ t → belongsToTenant s u = false := by
  have hex : Existing tenants := TransitionRuns.reachable_run (.init rfl) hrun
  refine ⟨fun t ht u hu hne s hs => hne (belongsToTenant_unique hex ht hu hs.1 hs.2), ?_⟩
  intro t ht x
  cases hx : toTenantSchemaName t x with
  | error e => exact .inl ⟨e, rfl⟩
  | ok s =>
    have hown := toTenantSchemaName_belongs hx
    refine .inr ⟨s, rfl, hown, fun u hu hne => Bool.eq_false_iff.mpr fun hsu => ?_⟩
    exact hne (belongsToTenant_unique hex hu ht hsu hown)

/-- `acme_x` is refused beside `acme` and accepted once `acme` is gone. -/
theorem tenantSchemas_exclusive_acme :
    (∀ t ∈ ["acme_x", "Beta"], ∀ u ∈ ["acme_x", "Beta"], t ≠ u →
      ∀ s, ¬ (belongsToTenant s t = true ∧ belongsToTenant s u = true)) ∧
    ∀ t ∈ ["acme_x", "Beta"], ∀ x : Option String,
      (∃ e, toTenantSchemaName t x = .error e) ∨
      ∃ s, toTenantSchemaName t x = .ok s ∧ belongsToTenant s t = true ∧
        ∀ u ∈ ["acme_x", "Beta"], u ≠ t → belongsToTenant s u = false :=
  tenantSchemas_exclusive
    [.create (.str "acme"), .create (.str "acme_x"), .create (.str "Beta"), .delete "acme",
      .create (.str "acme_x")]
    ["acme_x", "Beta"] (by decide)

end DataFabric.TenantNamespaces
