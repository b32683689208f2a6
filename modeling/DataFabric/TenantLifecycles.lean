import DataFabric.TenantNamespaces
import Mathlib.Logic.Function.Basic

set_option autoImplicit false

/-!
# The life of a tenant

The registry of tenants and the schemas of the hub change together: a creation makes a namespace, a deletion and the
nightly cleanup drop schemas by their names, and requests write under names computed for their tenant.
-/
namespace DataFabric.TenantLifecycles
open CharText JsValues TenantIdentifiers TenantNamespaces TransitionRuns

variable {σ : Type*}

/-- `public.tenants`, and the schemas of the hub with what they hold. -/
structure Hub (σ : Type*) where
  tenants : List String
  schemas : String → Option σ

inductive Event (σ : Type*)
  | create (id : JsValue)
  /-- An administrator names the tenant. -/
  | delete (id : String)
  /-- The nightly cleanup of a tenant of the registry. A step that fails leaves what it found. -/
  | purge (id : String) (dropped : String → Bool) (recreated : Bool)
  /-- `CREATE_SCHEMA` without a schema. -/
  | createSchema (tenant : String)
  /-- A request writes into a logical schema. -/
  | query (tenant : String) (schema : Option String) (content : σ)
  /-- A manifest is applied to a schema of the catalog. -/
  | manifest (tenant physical : String) (content : σ)

def Event.owner : Event σ → Option String
  | .create (.str id) => some id
  | .create _ => none
  | .delete id | .purge id _ _ => some id
  | .createSchema t | .query t _ _ | .manifest t _ _ => some t

section Step
variable (empty : σ)

/-- `fabric_admin.create_tenant_namespace`: what the schema held before is dropped. -/
def createTenantNamespace (h : Hub σ) (id : String) : Hub σ :=
  { h with schemas := Function.update h.schemas (tenantBase id) (some empty) }

def createTenant (h : Hub σ) (id : JsValue) : Hub σ :=
  match assertCreatableTenantId h.tenants id with
  | .error _ => h
  | .ok tid =>
    if tid ∈ h.tenants then h else createTenantNamespace empty { h with tenants := tid :: h.tenants } tid

/-- Every schema of the name, or whose name continues it, is dropped. -/
def deleteTenant (h : Hub σ) (id : String) : Hub σ :=
  match assertTenantIdSafe id with
  | .error _ => h
  | .ok tid => ⟨h.tenants.filter (· ≠ id), fun s => if belongsToTenant s tid then none else h.schemas s⟩

def purgeTenant (h : Hub σ) (id : String) (dropped : String → Bool) (recreated : Bool) : Hub σ :=
  match assertTenantIdSafe id with
  | .error _ => h
  | .ok tid =>
    let cleared : Hub σ := { h with
      schemas := fun s => if belongsToTenant s tid && dropped s then none else h.schemas s }
    if recreated then createTenantNamespace empty cleared tid else cleared

/-- Writes under a computed name; a refused name changes nothing. -/
def writeTo (h : Hub σ) (content : σ) : Except FabricError String → Hub σ
  | .error _ => h
  | .ok s => { h with schemas := Function.update h.schemas s (some content) }

/-- The cleanup comes for tenants of the registry, requests for whatever tenant the token names. -/
def step (h : Hub σ) : Event σ → Option (Hub σ)
  | .create id => some (createTenant empty h id)
  | .delete id => some (deleteTenant h id)
  | .purge id dropped recreated => if id ∈ h.tenants then some (purgeTenant empty h id dropped recreated) else none
  | .createSchema t =>
    some (match assertTenantIdSafe t with
      | .error _ => h
      | .ok tid => if (h.schemas (tenantBase tid)).isSome then h else createTenantNamespace empty h tid)
  | .query t x content => some (writeTo h content (toTenantSchemaName t x))
  | .manifest t physical content => some (writeTo h content (hubSchemaFor t physical))

/-- A request comes for a tenant of the registry. -/
def Registered (h : Hub σ) : Event σ → Prop
  | .createSchema t | .query t _ _ | .manifest t _ _ => t ∈ h.tenants
  | _ => True

instance (h : Hub σ) (e : Event σ) : Decidable (Registered h e) := by
  unfold Registered
  split <;> infer_instance

/-- A schema of the platform: its name does not start as those of tenants do. -/
def Platform (s : String) : Prop := startsWith s "tenant_" = false

/-- At first there are no tenants, and only schemas of the platform. -/
def start (schemas : String → Option σ) : Set (Hub σ) :=
  {h | h.tenants = [] ∧ h.schemas = schemas ∧ ∀ s, h.schemas s ≠ none → Platform s}

end Step

variable {empty content : σ} {h h' : Hub σ} {schemas : String → Option σ} {s t u id : String}

theorem platform_unowned (hs : Platform s) (t : String) : belongsToTenant s t = false := by
  rw [Bool.eq_false_iff]
  intro owned
  have continued : startsWith s "tenant_" = true := by
    rw [belongsToTenant, Bool.or_eq_true, decide_eq_true_eq, startsWith_iff] at owned
    rw [startsWith_iff]
    rcases owned with rfl | further
    · exact ⟨t.toList, String.toList_append.symm⟩
    · refine List.IsPrefix.trans ?_ further
      rw [String.toList_append, tenantBase, String.toList_append, List.append_assoc]
      exact List.prefix_append _ _
  rw [hs] at continued
  cases continued

theorem creatable_id {tenants : List String} {id : JsValue} {tid : String}
    (h : assertCreatableTenantId tenants id = .ok tid) : id = .str tid := by
  unfold assertCreatableTenantId at h
  cases hid : assertTenantId id with
  | error e =>
    rw [hid] at h
    cases h
  | ok r =>
    rw [hid] at h
    dsimp only [bind, Except.bind] at h
    split at h
    · cases h
    · cases h
      unfold assertTenantId at hid
      split at hid
      · split at hid <;> cases hid
        rfl
      · cases hid

theorem writeTo_local {name : Except FabricError String} (owned : ∀ s', name = .ok s' → belongsToTenant s' t = true)
    (other : belongsToTenant s t = false) : (writeTo h content name).schemas s = h.schemas s := by
  cases name with
  | error e => rfl
  | ok s' =>
    apply Function.update_of_ne
    rintro rfl
    rw [owned s rfl] at other
    cases other

theorem namespace_local (h : Hub σ) (other : belongsToTenant s t = false) :
    (createTenantNamespace empty h t).schemas s = h.schemas s := by
  apply Function.update_of_ne
  rintro rfl
  rw [belongsToTenant_base] at other
  cases other

theorem step_local {e : Event σ} (taken : step empty h e = some h')
    (other : ∀ t, e.owner = some t → belongsToTenant s t = false) : h'.schemas s = h.schemas s := by
  cases e with
  | create id =>
    cases taken
    unfold createTenant
    cases hid : assertCreatableTenantId h.tenants id with
    | error e => rfl
    | ok tid =>
      dsimp only
      split
      · rfl
      · rw [creatable_id hid] at other
        exact namespace_local _ (other tid rfl)
  | delete id =>
    cases taken
    unfold deleteTenant
    cases hid : assertTenantIdSafe id with
    | error e => rfl
    | ok tid =>
      rw [assertTenantIdSafe_ok hid]
      simp [other id rfl]
  | purge id dropped recreated =>
    obtain ⟨_, same⟩ := Option.ite_none_right_eq_some.mp taken
    cases same
    unfold purgeTenant
    cases hid : assertTenantIdSafe id with
    | error e => rfl
    | ok tid =>
      have unowned := other id rfl
      rw [assertTenantIdSafe_ok hid]
      dsimp only
      split
      · rw [namespace_local _ unowned]
        simp [unowned]
      · simp [unowned]
  | createSchema t =>
    cases taken
    cases hid : assertTenantIdSafe t with
    | error e => rfl
    | ok tid =>
      rw [assertTenantIdSafe_ok hid]
      dsimp only
      split
      · rfl
      · exact namespace_local h (other t rfl)
  | query t x content =>
    cases taken
    exact writeTo_local (fun s' => toTenantSchemaName_belongs) (other t rfl)
  | manifest t physical content =>
    cases taken
    exact writeTo_local (fun s' => hubSchemaFor_belongs) (other t rfl)

theorem tenants_same {e : Event σ} (taken : step empty h e = some h') (created : ∀ id, e ≠ .create id)
    (deleted : ∀ id, e ≠ .delete id) : h'.tenants = h.tenants := by
  cases e with
  | create id => exact absurd rfl (created id)
  | delete id => exact absurd rfl (deleted id)
  | purge id dropped recreated =>
    obtain ⟨_, same⟩ := Option.ite_none_right_eq_some.mp taken
    cases same
    unfold purgeTenant
    cases assertTenantIdSafe id with
    | error e => rfl
    | ok tid => cases recreated <;> rfl
  | createSchema t =>
    cases taken
    cases assertTenantIdSafe t with
    | error e => rfl
    | ok tid =>
      dsimp only
      split <;> rfl
  | query t x content =>
    cases taken
    cases toTenantSchemaName t x <;> rfl
  | manifest t physical content =>
    cases taken
    cases hubSchemaFor t physical <;> rfl

theorem step_tenants {e : Event σ} (taken : step empty h e = some h') :
    h'.tenants = h.tenants ∨ ∃ e', stepTenants h.tenants e' = some h'.tenants := by
  cases e with
  | create id =>
    cases taken
    right
    refine ⟨.create id, ?_⟩
    cases hid : assertCreatableTenantId h.tenants id with
    | error e => simp only [stepTenants, createTenant, hid]
    | ok tid =>
      by_cases present : tid ∈ h.tenants
      · simp only [stepTenants, createTenant, hid, if_pos present]
      · simp only [stepTenants, createTenant, hid, if_neg present]
        rfl
  | delete id =>
    cases taken
    unfold deleteTenant
    cases assertTenantIdSafe id with
    | error e => exact .inl rfl
    | ok tid => exact .inr ⟨.delete id, rfl⟩
  | _ => exact .inl (tenants_same taken (by simp) (by simp))

theorem step_owner {e : Event σ} (taken : step empty h e = some h')
    (known : ∀ t, e.owner = some t → (∃ id, e = .create id) ∨ t ∈ h.tenants) (changed : h' ≠ h) (owner : e.owner = some t) :
    t ∈ h.tenants ∨ t ∈ h'.tenants := by
  rcases known t owner with ⟨id, rfl⟩ | registered
  · cases taken
    right
    unfold createTenant at changed ⊢
    cases hid : assertCreatableTenantId h.tenants id with
    | error e => exact absurd (by rw [hid]) changed
    | ok tid =>
      rw [creatable_id hid] at owner
      cases owner
      dsimp only
      split
      · assumption
      · exact List.mem_cons_self
  · exact .inl registered

theorem known_registered {e : Event σ} (taken : step empty h e = some h') (registered : Registered h e)
    (kept : ∀ id, e ≠ .delete id) (owner : e.owner = some t) : (∃ id, e = .create id) ∨ t ∈ h.tenants := by
  cases e with
  | create id => exact .inl ⟨id, rfl⟩
  | delete id => exact absurd rfl (kept id)
  | purge id dropped recreated =>
    cases owner
    exact .inr (Option.ite_none_right_eq_some.mp taken).1
  | createSchema t =>
    cases owner
    exact .inr registered
  | query t x content =>
    cases owner
    exact .inr registered
  | manifest t physical content =>
    cases owner
    exact .inr registered

theorem existing_step {e : Event σ} (h₀ : Existing h.tenants) (taken : step empty h e = some h') :
    Existing h'.tenants := by
  rcases step_tenants taken with same | ⟨e', taken'⟩
  · rwa [same]
  · exact .step h₀ taken'

theorem owned_step {e : Event σ} (taken : step empty h e = some h') (registered : Registered h e) (present : h'.schemas s ≠ none) :
    h'.schemas s = h.schemas s ∧ (∀ t ∈ h.tenants, belongsToTenant s t = true → t ∈ h'.tenants) ∨
      ∃ t ∈ h'.tenants, belongsToTenant s t = true := by
  by_cases deletion : ∃ id, e = .delete id
  · obtain ⟨id, rfl⟩ := deletion
    cases taken
    left
    unfold deleteTenant at present ⊢
    cases hid : assertTenantIdSafe id with
    | error e => exact ⟨rfl, fun t ht _ => ht⟩
    | ok tid =>
      rw [hid] at present
      rw [assertTenantIdSafe_ok hid] at present ⊢
      dsimp only at present ⊢
      cases dropped : belongsToTenant s id with
      | true =>
        rw [if_pos dropped] at present
        exact absurd rfl present
      | false =>
        refine ⟨if_neg Bool.false_ne_true, fun t ht own => List.mem_filter.mpr ⟨ht, ?_⟩⟩
        rw [decide_eq_true_eq]
        rintro rfl
        rw [dropped] at own
        cases own
  · have kept : ∀ t ∈ h.tenants, t ∈ h'.tenants := by
      intro t ht
      cases e with
      | create id =>
        cases taken
        unfold createTenant
        cases assertCreatableTenantId h.tenants id with
        | error e => exact ht
        | ok tid =>
          dsimp only
          split
          · exact ht
          · exact List.mem_cons_of_mem _ ht
      | delete id => exact absurd ⟨id, rfl⟩ deletion
      | _ => exact (tenants_same taken (by simp) (by simp)) ▸ ht
    by_cases changed : h'.schemas s = h.schemas s
    · exact .inl ⟨changed, fun t ht _ => kept t ht⟩
    · right
      have own : ∃ t, e.owner = some t ∧ belongsToTenant s t = true := by
        by_contra none
        exact changed (step_local taken fun t owner => Bool.eq_false_iff.mpr fun own => none ⟨t, owner, own⟩)
      obtain ⟨t, owner, own⟩ := own
      refine ⟨t, ?_, own⟩
      have known := step_owner taken
        (fun _ => known_registered taken registered fun id same => deletion ⟨id, same⟩) (fun same => changed (by rw [same])) owner
      exact known.elim (kept t) id

structure Inv (schemas : String → Option σ) (h : Hub σ) : Prop where
  existing : Existing h.tenants
  platform : ∀ s, Platform s → h.schemas s = schemas s

theorem inv_start (hh : h ∈ start schemas) : Inv schemas h where
  existing := .init hh.1
  platform s _ := congrFun hh.2.1 s

theorem inv_step {e : Event σ} (inv : Inv schemas h) (taken : step empty h e = some h') : Inv schemas h' where
  existing := existing_step inv.existing taken
  platform s hs := (step_local taken fun t _ => platform_unowned hs t).trans (inv.platform s hs)

theorem inv_reachable (reach : Reachable (start schemas) (step empty) h) : Inv schemas h :=
  invariant (fun _ => inv_start) (fun _ _ _ => inv_step) reach

def Owned (h : Hub σ) : Prop := ∀ s, h.schemas s ≠ none → Platform s ∨ ∃ t ∈ h.tenants, belongsToTenant s t = true

theorem owned_reachable (reach : Reachable (start schemas) (restrict Registered (step empty)) h) : Owned h := by
  refine invariant (fun h hh s present => .inl (hh.2.2 s present)) (fun h e h' owned taken s present => ?_) reach
  obtain ⟨registered, taken⟩ := restrict_some taken
  rcases owned_step taken registered present with ⟨same, kept⟩ | owner
  · rw [same] at present
    exact (owned s present).imp_right fun ⟨t, ht, own⟩ => ⟨t, kept t ht own, own⟩
  · exact .inr owner

theorem reachable_unrestricted (reach : Reachable (start schemas) (restrict Registered (step empty)) h) :
    Reachable (start schemas) (step empty) h := by
  induction reach with
  | init hh => exact .init hh
  | step _ taken ih => exact .step ih (restrict_some taken).2

def atFirst (s : String) : Option ℕ := if s = "public" then some 0 else none

def opening : List (Event ℕ) := [.create (.str "acme_eu"), .create (.str "Beta"), .query "acme_eu" (some "sales") 7]

def rented : Hub ℕ := (run (step 1) ⟨[], atFirst⟩ opening).getD ⟨[], atFirst⟩

theorem rented_registered : Reachable (start atFirst) (restrict Registered (step 1)) rented := by
  have hrun : run (restrict Registered (step 1)) ⟨[], atFirst⟩ opening = some rented := rfl
  refine reachable_run (.init ⟨rfl, rfl, fun s present => ?_⟩) hrun
  by_cases platform : s = "public"
  · rw [platform]
    change startsWith "public" "tenant_" = false
    decide
  · exact absurd (if_neg platform) present

/-- An event of another tenant. One that is not in the registry is created, or is none that a schema of `u` could be
named for, or its deletion meets no such schema. -/
def Foreign (u : String) (h : Hub σ) (e : Event σ) : Prop :=
  e.owner ≠ some u ∧ ∀ t, e.owner = some t → (∃ id, e = .create id) ∨ t ∈ h.tenants ∨
    ∀ s, belongsToTenant s u = true → belongsToTenant s t = true → e = .delete t ∧ h.schemas s = none

theorem foreign_step {e : Event σ} (existing : Existing h.tenants) (hu : u ∈ h.tenants) (foreign : Foreign u h e)
    (taken : step empty h e = some h') :
    u ∈ h'.tenants ∧ ∀ s, belongsToTenant s u = true → h'.schemas s = h.schemas s := by
  have remains : u ∈ h'.tenants := by
    cases e with
    | create id =>
      cases taken
      unfold createTenant
      cases assertCreatableTenantId h.tenants id with
      | error e => exact hu
      | ok tid =>
        dsimp only
        split
        · exact hu
        · exact List.mem_cons_of_mem _ hu
    | delete id =>
      cases taken
      unfold deleteTenant
      cases assertTenantIdSafe id with
      | error e => exact hu
      | ok tid =>
        refine List.mem_filter.mpr ⟨hu, ?_⟩
        rw [decide_eq_true_eq]
        rintro rfl
        exact foreign.1 rfl
    | _ => exact (tenants_same taken (by simp) (by simp)) ▸ hu
  refine ⟨remains, fun s own => ?_⟩
  by_cases changed : h' = h
  · rw [changed]
  by_cases named : ∃ t, e.owner = some t ∧ belongsToTenant s t = true
  · obtain ⟨t, owner, own'⟩ := named
    have known : (∃ id, e = .create id) ∨ t ∈ h.tenants → t = u := by
      intro known
      have listed : ∀ t', e.owner = some t' → (∃ id, e = .create id) ∨ t' ∈ h.tenants := by
        intro t' owner'
        rw [owner] at owner'
        cases owner'
        exact known
      rcases step_owner taken listed changed owner with before | since
      · exact belongsToTenant_unique existing before hu own' own
      · exact belongsToTenant_unique (existing_step existing taken) since remains own' own
    rcases foreign.2 t owner with created | registered | apart
    · exact absurd (owner.trans (congrArg some (known (.inl created)))) foreign.1
    · exact absurd (owner.trans (congrArg some (known (.inr registered)))) foreign.1
    · obtain ⟨rfl, nothing⟩ := apart s own own'
      cases taken
      unfold deleteTenant
      cases hid : assertTenantIdSafe t with
      | error e => rfl
      | ok tid =>
        dsimp only
        split
        · exact nothing.symm
        · rfl
  · exact step_local taken fun t owner => Bool.eq_false_iff.mpr fun own' => named ⟨t, owner, own'⟩

/-- A deletion checks the form of the id only. It spares the other tenants exactly when the registry has the id, or
no schema of theirs is named for it. -/
theorem deletion_spares_iff (reach : Reachable (start schemas) (step empty) h) (formed : assertTenantIdSafe id = .ok id) :
    (∀ u ∈ h.tenants, u ≠ id → ∀ s, belongsToTenant s u = true → (deleteTenant h id).schemas s = h.schemas s) ↔
      id ∈ h.tenants ∨
        ∀ u ∈ h.tenants, ∀ s, belongsToTenant s u = true → belongsToTenant s id = true → h.schemas s = none := by
  have inv := inv_reachable reach
  have deleted : ∀ s, (deleteTenant h id).schemas s = if belongsToTenant s id then none else h.schemas s := by
    intro s
    unfold deleteTenant
    rw [formed]
  constructor
  · intro spared
    by_cases registered : id ∈ h.tenants
    · exact .inl registered
    · right
      intro u hu s own named
      have same := spared u hu (fun equal => registered (equal ▸ hu)) s own
      rw [deleted, if_pos named] at same
      exact same.symm
  · intro harmless u hu other s own
    rw [deleted]
    split
    · rename_i named
      rcases harmless with registered | nothing
      · exact absurd (belongsToTenant_unique inv.existing hu registered own named) other
      · exact (nothing u hu s own named).symm
    · rfl

/-- `acme` is not of the registry, but schemas of `acme_eu` are named for it. -/
theorem deletion_spares_acme :
    ¬ ∀ u ∈ rented.tenants, u ≠ "acme" → ∀ s, belongsToTenant s u = true →
      (deleteTenant rented "acme").schemas s = rented.schemas s := by
  rw [deletion_spares_iff (reachable_unrestricted rented_registered) (by decide)]
  rintro (registered | nothing)
  · revert registered
    decide
  · have gone := nothing "acme_eu" (by decide) "tenant_acme_eu" (by decide) (by decide)
    revert gone
    decide

end DataFabric.TenantLifecycles
