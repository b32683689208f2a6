import DataFabric.SourceRemoval
import DataFabric.TenantNamespaces
import DataFabric.TriggerSites

set_option autoImplicit false

/-!
# The search index of a table

The service that provisions the indices names one after the logical schema; the worker that
carries mutations over starts from the physical schema and takes a tenant prefix off.
-/
namespace DataFabric.SearchIndices
open CharText JsValues TenantIdentifiers TenantNamespaces HubReplicas SeparatedNames

def stripTenant (schemaName : String) : String :=
  if startsWith schemaName "tenant_" then
    let rest := schemaName.toList.drop "tenant_".toList.length
    match rest.takeWhile (· ≠ '_'), rest.dropWhile (· ≠ '_') with
    | _ :: _, _ :: after => String.ofList after
    | _, _ => schemaName
  else schemaName

def workerIndex (tenantId schemaName tableName : String) : String :=
  asciiLower (tenantId ++ "_" ++ stripTenant schemaName ++ "_" ++ tableName)

/-- The index that is provisioned for a table of a manifest. -/
def provisionedIndex (tenantId schema resource : String) : String :=
  asciiLower (tenantId ++ "_" ++ schema ++ "_" ++ resource)

inductive IndexOf (t : String) : String → Prop
  | provisioned {schema table : String} : identRe schema = true → identRe table = true →
      IndexOf t (provisionedIndex t schema table)
  | written {schema table physical : String} : physicalSchemaName t (.str schema) = .ok physical →
      identRe table = true → IndexOf t (workerIndex t physical table)

def Consistent (tenants : List String) : Prop :=
  ∀ t ∈ tenants, ∀ schema table physical : String, physicalSchemaName t (.str schema) = .ok physical →
    identRe table = true → workerIndex t physical table = provisionedIndex t schema table

def Private (tenants : List String) : Prop :=
  ∀ t ∈ tenants, ∀ u ∈ tenants, t ≠ u → ∀ index, ¬ (IndexOf t index ∧ IndexOf u index)

section

variable {t schema table physical index : String}

theorem physicalSchemaName_ok (h : physicalSchemaName t (.str schema) = .ok physical) :
    tenantIdRe t = true ∧ physical = "tenant_" ++ t ++ "_" ++ schema := by
  unfold physicalSchemaName at h
  obtain ⟨r, tenant, rest⟩ := ExceptRules.bind_ok h
  obtain ⟨plain, rfl⟩ := assertTenantId_ok_iff.mp tenant
  obtain ⟨l, logical, last⟩ := ExceptRules.bind_ok rest
  obtain ⟨same, _⟩ := TriggerSites.assertIdent_ok logical
  cases same
  dsimp only at last
  split_ifs at last
  cases last
  exact ⟨plain, rfl⟩

theorem physicalSchemaName_letter (tenant : tenantIdRe t = true) :
    physicalSchemaName t (.str "a") = .ok ("tenant_" ++ t ++ "_" ++ "a") := by
  obtain ⟨word, short⟩ := SourceRemoval.tenantIdRe_word tenant
  have chars : ∀ c ∈ ("tenant_" ++ t ++ "_" ++ "a").toList, isWord c = true := by
    simp only [String.toList_append, List.mem_append]
    rintro c (((start | own) | line) | letter)
    · exact List.all_eq_true.mp (by decide) c start
    · exact word c own
    · exact List.all_eq_true.mp (by decide) c line
    · exact List.all_eq_true.mp (by decide) c letter
  have bound : utf16Length ("tenant_" ++ t ++ "_" ++ "a") ≤ 63 := by
    rw [utf16Length_word chars]
    simp only [String.toList_append, List.length_append]
    have pieces : "tenant_".toList.length = 7 ∧ "_".toList.length = 1 ∧ "a".toList.length = 1 := by decide
    omega
  have own : belongsToTenant ("tenant_" ++ t ++ "_" ++ "a") t = true := belongsToTenant_logical t "a"
  have accepted : assertTenantId (.str t) = .ok t := assertTenantId_ok_iff.mpr ⟨tenant, rfl⟩
  have plain : assertIdent (.str "a") "schema name" = .ok "a" := TriggerSites.assertIdent_str (by decide)
  unfold physicalSchemaName
  rw [accepted, ExceptRules.ok_bind, plain, ExceptRules.ok_bind]
  dsimp only
  rw [if_neg]
  simp [own, bound]

theorem lower_continues (t rest : String) : Continues '_' (asciiLower t).toList (asciiLower (t ++ "_" ++ rest)).toList := by
  refine ⟨(asciiLower rest).toList, ?_⟩
  simp only [asciiLower_toList, String.toList_append, List.map_append]
  rfl

theorem indexOf_continues (own : IndexOf t index) : Continues '_' (asciiLower t).toList index.toList := by
  cases own with
  | provisioned =>
    unfold provisionedIndex
    rw [String.append_assoc, String.append_assoc]
    exact lower_continues t _
  | written =>
    unfold workerIndex
    rw [String.append_assoc, String.append_assoc]
    exact lower_continues t _

theorem stripTenant_cut {first after : List Char} (filled : first ≠ []) (plain : '_' ∉ first) {name : String}
    (split : name.toList = "tenant_".toList ++ (first ++ '_' :: after)) : stripTenant name = String.ofList after := by
  have kept : ∀ c ∈ first, decide (c ≠ '_') = true := by
    intro c inside
    rw [decide_eq_true_eq]
    rintro rfl
    exact plain inside
  have starts : startsWith name "tenant_" = true := by
    rw [startsWith_iff, split]
    exact List.prefix_append _ _
  unfold stripTenant
  rw [if_pos starts]
  dsimp only
  rw [split, List.drop_left, List.takeWhile_append_of_pos kept, List.dropWhile_append_of_pos kept]
  obtain ⟨c, cs, rfl⟩ := List.exists_cons_of_ne_nil filled
  simp

theorem stripTenant_plain (tenant : tenantIdRe t = true) (plain : '_' ∉ t.toList) (schema : String) :
    stripTenant ("tenant_" ++ t ++ "_" ++ schema) = schema := by
  have filled : t.toList ≠ [] := by
    intro empty
    rw [String.toList_eq_nil_iff] at empty
    subst empty
    cases tenant
  have split : ("tenant_" ++ t ++ "_" ++ schema).toList =
      "tenant_".toList ++ (t.toList ++ '_' :: schema.toList) := by
    simp only [String.toList_append, List.append_assoc]
    rfl
  rw [stripTenant_cut filled plain split, String.ofList_toList]

theorem worker_agrees (plain : '_' ∉ t.toList) (h : physicalSchemaName t (.str schema) = .ok physical) (table : String) :
    workerIndex t physical table = provisionedIndex t schema table := by
  obtain ⟨tenant, rfl⟩ := physicalSchemaName_ok h
  rw [workerIndex, stripTenant_plain tenant plain, provisionedIndex]

theorem worker_differs (tenant : tenantIdRe t = true) (separator : '_' ∈ t.toList) (schema table : String) :
    workerIndex t ("tenant_" ++ t ++ "_" ++ schema) table ≠ provisionedIndex t schema table := by
  obtain ⟨first, rest, split, plain⟩ := List.eq_append_cons_of_mem separator
  have filled : first ≠ [] := by
    rintro rfl
    unfold tenantIdRe matchesWord at tenant
    rw [split] at tenant
    cases tenant
  have whole : ("tenant_" ++ t ++ "_" ++ schema).toList =
      "tenant_".toList ++ (first ++ '_' :: (rest ++ '_' :: schema.toList)) := by
    simp only [String.toList_append, split, List.append_assoc]
    rfl
  have cut := stripTenant_cut filled plain whole
  intro same
  have lengths := congrArg (fun s => s.toList.length) same
  simp only [workerIndex, provisionedIndex, cut, asciiLower_toList, String.toList_append, String.toList_ofList,
    List.length_map, List.length_append, List.length_cons] at lengths
  omega

end

section

variable {tenants : List String}

theorem existing_valid (h : Existing tenants) : ∀ t ∈ tenants, tenantIdRe t = true := by
  refine TransitionRuns.invariant (P := fun tenants => ∀ t ∈ tenants, tenantIdRe t = true) ?_ ?_ h
  · rintro s rfl t inside
    cases inside
  · intro s e s' own stepped
    cases e with
    | delete id =>
      obtain rfl := Option.some.inj stepped
      exact fun t inside => own t (List.mem_of_mem_filter inside)
    | create id =>
      simp only [stepTenants] at stepped
      split at stepped
      · exact Option.some.inj stepped ▸ own
      · rename_i tid accepted
        split_ifs at stepped
        · exact Option.some.inj stepped ▸ own
        · cases stepped
          intro t inside
          rcases List.mem_cons.mp inside with rfl | inRest
          · obtain ⟨r, plain, rest⟩ := ExceptRules.bind_ok accepted
            have same : r = t := by
              split at rest
              · cases rest
              · exact Except.ok.inj rest
            subst same
            unfold assertTenantId at plain
            split at plain
            · split_ifs at plain with valid
              cases plain
              exact valid
            · cases plain
          · exact own t inRest

theorem consistent_iff (h : Existing tenants) : Consistent tenants ↔ ∀ t ∈ tenants, '_' ∉ t.toList := by
  constructor
  · intro agrees t inside separator
    have tenant := existing_valid h t inside
    exact worker_differs tenant separator "a" "a"
      (agrees t inside "a" "a" _ (physicalSchemaName_letter tenant) (by decide))
  · intro plain t inside schema table physical mapped _
    exact worker_agrees (plain t inside) mapped table

theorem private_iff (h : Existing tenants) :
    Private tenants ↔ ∀ t ∈ tenants, ∀ u ∈ tenants, asciiLower t = asciiLower u → t = u := by
  constructor
  · intro apart t inT u inU same
    by_contra distinct
    refine apart t inT u inU distinct (provisionedIndex t "a" "a") ⟨.provisioned (by decide) (by decide), ?_⟩
    have alike : provisionedIndex t "a" "a" = provisionedIndex u "a" "a" := by
      apply String.toList_inj.mp
      have lower := congrArg String.toList same
      rw [asciiLower_toList, asciiLower_toList] at lower
      simp only [provisionedIndex, asciiLower_toList, String.toList_append, List.map_append, lower]
    rw [alike]
    exact .provisioned (by decide) (by decide)
  · rintro folded t inT u inU distinct index ⟨ofT, ofU⟩
    have separated := existing_unambiguous h
    rcases owns_common (.inr (indexOf_continues ofT)) (.inr (indexOf_continues ofU)) with same | longer | shorter
    · exact distinct (folded t inT u inU (String.toList_inj.mp same))
    · exact separated _ ⟨t, inT, rfl⟩ _ ⟨u, inU, rfl⟩ longer
    · exact separated _ ⟨u, inU, rfl⟩ _ ⟨t, inT, rfl⟩ shorter

/-- After any creations and deletions: the two sides agree and no index is shared if and only if no id
has an underscore and no two differ in letter case only. -/
theorem indices_sound_iff (events : List TenantEvent) (h : TransitionRuns.run stepTenants [] events = some tenants) :
    (Consistent tenants ∧ Private tenants) ↔
      (∀ t ∈ tenants, '_' ∉ t.toList) ∧ ∀ t ∈ tenants, ∀ u ∈ tenants, asciiLower t = asciiLower u → t = u := by
  have existing : Existing tenants := TransitionRuns.reachable_run (.init rfl) h
  rw [consistent_iff existing, private_iff existing]

end

theorem acme_indices_sound : Consistent ["Beta", "acme"] ∧ Private ["Beta", "acme"] :=
  (indices_sound_iff [.create (.str "acme"), .create (.str "Beta")] (by decide)).mpr ⟨by decide, by decide⟩

theorem acme_eu_index_differs : ¬ ∀ (events : List TenantEvent) (tenants : List String),
    TransitionRuns.run stepTenants [] events = some tenants → Consistent tenants ∧ Private tenants := by
  intro always
  have sound := always [.create (.str "acme_eu")] ["acme_eu"] (by decide)
  have agrees := sound.1 "acme_eu" (by decide) "sales" "orders" "tenant_acme_eu_sales" (by decide) (by decide)
  exact absurd agrees (by decide)

end DataFabric.SearchIndices
