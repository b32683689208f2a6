import DataFabric.JsValues
import DataFabric.OrderedRecords
import Mathlib.Data.Rat.Floor
import Mathlib.Order.WithBot

set_option autoImplicit false

/-!
# The limits of a workspace

Plan, overrides and licence are merged key by key, -1 standing for no limit.
-/
namespace DataFabric.LimitsResolver
open JsValues OrderedRecords

def limitKeys : List String :=
  ["max_connections", "max_records_per_table", "max_tables", "max_triggers", "max_replication_tables",
    "max_replication_rows", "max_replication_rows_per_table", "max_replications", "max_tenants", "rate_limit_per_min",
    "rate_limit_per_hour", "rate_limit_per_day", "rate_limit_per_month", "max_workers", "max_api_tokens_per_user",
    "max_users_per_workspace", "max_saved_analytics", "max_query_rows", "max_manifest_size_mb"]

def builtinTrialLimits : Record String ℚ where
  entries := [("max_connections", 2), ("max_records_per_table", 1000), ("max_tables", 5), ("max_triggers", 3),
    ("max_replication_tables", 2), ("max_replication_rows", 500), ("max_replication_rows_per_table", 250),
    ("max_replications", 2), ("max_tenants", 3), ("rate_limit_per_min", 10), ("rate_limit_per_hour", 100),
    ("rate_limit_per_day", 1000), ("rate_limit_per_month", 10000), ("max_workers", 2), ("max_api_tokens_per_user", 5),
    ("max_users_per_workspace", 5), ("max_saved_analytics", 20), ("max_query_rows", 10000), ("max_manifest_size_mb", 5)]
  distinct := by decide

inductive PlanSource | workspace | subscription | default | licence | builtin
  deriving DecidableEq

structure PlanRow where
  name : String
  limits : Record String JsValue
  features : Record String JsValue

structure Subscription where
  plan : PlanRow
  snapshotLimits : Option (Record String JsValue)
  snapshotFeatures : Option (Record String JsValue)
  start : ℤ

structure PlanTables where
  named : String → Option PlanRow
  active : (userId : String) → Option Subscription
  standard : Option PlanRow

structure SystemSettings where
  planLimitsEnabled : Bool
  defaultPlan : Option String

structure LicensePayload where
  licensee : String
  name : Option String
  expiresAt : String
  selfHosted : Bool
  limits : Record String JsValue
  features : Record String JsValue

inductive LicenseStatus | none | valid | invalid | expired | wrong_instance | revoked
  deriving DecidableEq

structure LicenseState where
  status : LicenseStatus
  payload : Option LicensePayload

structure TenantRow where
  userId : Option String
  planName : Option String
  planStartedAt : Option ℤ
  planExpiresAt : Option ℤ
  planOverrides : Record String JsValue
  createdAt : Option ℤ

structure Inputs where
  sys : SystemSettings
  lic : LicenseState
  tenant : Option TenantRow
  tables : PlanTables
  now : ℤ

structure Trial where
  startedAt : ℤ
  endsAt : Option ℤ
  expired : Bool
  days : ℚ

structure EffectiveLimits where
  tenantId : String
  planName : String
  planSource : PlanSource
  limits : Record String ℚ
  features : Record String JsValue
  trial : Trial
  licenceStatus : LicenseStatus
  licensee : Option String
  selfHosted : Bool
  expiresAt : Option String
  planLimitsEnabled : Bool

def num : JsValue → Option ℚ
  | .num q => some q
  | _ => none

def capLimit (value : ℚ) (ceiling : Option ℚ) : ℚ :=
  match ceiling with
  | none => value
  | some c => if c = -1 then value else if value = -1 then c else min value c

/-- `r[k] = v`; without a field of that name `__proto__` is left alone. -/
def setKey {ν : Type} (r : Record String ν) (k : String) (v : ν) : Record String ν :=
  if k = "__proto__" ∧ (r.get? k).isNone then r else r.assign k v

def planRow (i : Inputs) : PlanRow × PlanSource × Option ℤ :=
  let byDefault : PlanRow × PlanSource × Option ℤ :=
    match i.sys.defaultPlan.elim i.tables.standard i.tables.named with
    | some row => (row, .default, none)
    | none =>
      ({ name := "trial"
         limits := ⟨builtinTrialLimits.entries.map fun e => (e.1, .num e.2), by decide⟩
         features := ⟨[("trial_period_days", .num 7)], by decide⟩ }, .builtin, none)
  match i.tenant.bind fun t => (t.planName.bind i.tables.named).map fun row => (row, t.planStartedAt) with
  | some (row, start) => (row, .workspace, start)
  | none =>
    match (i.tenant.bind (·.userId)).bind i.tables.active with
    | some s =>
      ({ s.plan with
         limits := s.snapshotLimits.getD s.plan.limits
         features := s.snapshotFeatures.getD s.plan.features }, .subscription, some s.start)
    | none => byDefault

def writeNumbers (base : Record String ℚ) (stated : Record String JsValue) : Record String ℚ :=
  stated.entries.foldl (fun base e => (num e.2).elim base (setKey base e.1)) base

def unlimited : Record String ℚ := ⟨limitKeys.map fun k => (k, -1), by decide⟩

def licPayload (i : Inputs) : Option LicensePayload := if i.lic.status = .valid then i.lic.payload else none

def selfHosted (i : Inputs) : Bool := (licPayload i).any (·.selfHosted)

def base (i : Inputs) : Record String ℚ :=
  let planned := writeNumbers builtinTrialLimits (planRow i).1.limits
  let chosen :=
    match (licPayload i).filter (·.selfHosted) with
    | some lic => writeNumbers unlimited lic.limits
    | none => if i.sys.planLimitsEnabled then planned else unlimited
  if i.sys.planLimitsEnabled || selfHosted i then
    i.tenant.elim chosen fun t => writeNumbers chosen t.planOverrides
  else chosen

def capped (lic : LicensePayload) (base : Record String ℚ) : Record String ℚ :=
  limitKeys.foldl (fun base k =>
    match (lic.limits.get? k).bind num with
    | some c => setKey base k (capLimit ((base.get? k).getD (-1)) (some c))
    | none => base) base

def mergeFeature (features : Record String JsValue) (e : String × JsValue) : Record String JsValue :=
  match e.2 with
  | .bool b => setKey features e.1 (if features.get? e.1 = some (.bool false) then .bool false else .bool b)
  | .num q => setKey features e.1 (.num q)
  | _ => features

def millisPerDay : ℚ := 86400000

def dateOf (q : ℚ) : Option ℤ :=
  if |q| ≤ 8640000000000000 then some (if 0 ≤ q then ⌊q⌋ else ⌈q⌉) else none

def compute (tenantId : String) (i : Inputs) : Option EffectiveLimits :=
  let (row, planSource, planStart) := planRow i
  let lic := licPayload i
  let hosted := selfHosted i
  let source := if hosted then .licence else planSource
  let features := (lic.elim [] (·.features.entries)).foldl mergeFeature row.features
  let days := ((features.get? "trial_period_days").bind num).getD 7
  let start := (((i.tenant.bind (·.planStartedAt)).or planStart).or (i.tenant.bind (·.createdAt))).getD i.now
  let expires := i.tenant.bind (·.planExpiresAt)
  let noExpiry := hosted || !i.sys.planLimitsEnabled ||
    (source ≠ .default && source ≠ .builtin && expires.isNone && days = -1)
  let ends : Option (Option ℤ) :=
    match expires with
    | some e => some (some e)
    | none => if days = -1 then some none else (dateOf (start + days * millisPerDay)).map some
  let trial : Option Trial :=
    if noExpiry then some ⟨start, none, false, days⟩
    else ends.map fun e => ⟨start, e, e.any (· < i.now), days⟩
  trial.map fun trial =>
    { tenantId
      planName := if hosted then (lic.bind (·.name)).getD "selfhost" else row.name
      planSource := source
      limits := lic.elim (base i) fun lic => capped lic (base i)
      features, trial
      licenceStatus := i.lic.status
      licensee := lic.map (·.licensee)
      selfHosted := hosted
      expiresAt := lic.map (·.expiresAt)
      planLimitsEnabled := i.sys.planLimitsEnabled }

def level (limit : Option ℚ) : WithTop ℚ := limit.elim ⊤ fun q => if q = -1 then ⊤ else (q : WithTop ℚ)

theorem level_none : level none = ⊤ := rfl

theorem level_unlimited : level (some (-1)) = ⊤ := by
  rw [level, Option.elim_some, if_pos rfl]

theorem level_some {q : ℚ} (h : q ≠ -1) : level (some q) = (q : WithTop ℚ) := by
  rw [level, Option.elim_some, if_neg h]

theorem level_capLimit (value : ℚ) (ceiling : Option ℚ) :
    level (some (capLimit value ceiling)) = min (level (some value)) (level ceiling) := by
  cases ceiling with
  | none => rw [capLimit, level_none, min_top_right]
  | some c =>
    by_cases hc : c = -1
    · rw [capLimit, if_pos hc, hc, level_unlimited, min_top_right]
    · by_cases hv : value = -1
      · rw [capLimit, if_neg hc, if_pos hv, hv, level_unlimited, min_top_left]
      · have hmin : min value c ≠ -1 := by
          rcases min_choice value c with h | h <;> rw [h] <;> assumption
        rw [capLimit, if_neg hc, if_neg hv, level_some hmin, level_some hv, level_some hc, WithTop.coe_min]

theorem level_getD (limit : Option ℚ) : level (some (limit.getD (-1))) = level limit := by
  cases limit with
  | none => exact level_unlimited
  | some q => rfl

def numberAt (stated : Record String JsValue) (k : String) : Option ℚ :=
  if k = "__proto__" then none else (stated.get? k).bind num

def planLimit (i : Inputs) (k : String) : Option ℚ :=
  (numberAt (planRow i).1.limits k).or (builtinTrialLimits.get? k)

def override (i : Inputs) (k : String) : Option ℚ := i.tenant.bind fun t => numberAt t.planOverrides k

def licenceLimit (i : Inputs) (k : String) : Option ℚ := (licPayload i).bind fun lic => numberAt lic.limits k

def underneath (i : Inputs) (k : String) : WithTop ℚ :=
  if selfHosted i then level (licenceLimit i k)
  else if i.sys.planLimitsEnabled then level (planLimit i k) else ⊤

/-- The override of a key is lowered, set below what it replaces, or taken away above it. -/
inductive OverrideLowered (i i' : Inputs) (k : String) : Prop
  | absent : override i k = none → override i' k = none → OverrideLowered i i' k
  | lowered (q q' : ℚ) : override i k = some q → override i' k = some q' → level (some q) ≤ level (some q') →
      OverrideLowered i i' k
  | added (q : ℚ) : override i k = some q → override i' k = none → level (some q) ≤ underneath i' k →
      OverrideLowered i i' k
  | removed (q' : ℚ) : override i k = none → override i' k = some q' → underneath i' k ≤ level (some q') →
      OverrideLowered i i' k

/-- Plan, overrides and licence are at most those of other inputs, in the same mode. -/
structure Lowered (i i' : Inputs) : Prop where
  mode : i.sys.planLimitsEnabled = i'.sys.planLimitsEnabled
  hosted : selfHosted i = selfHosted i'
  plan : ∀ k, level (planLimit i k) ≤ level (planLimit i' k)
  overrides : ∀ k, OverrideLowered i i' k
  licence : ∀ k, level (licenceLimit i k) ≤ level (licenceLimit i' k)

theorem get?_setKey (r : Record String ℚ) {k : String} (hk : k ≠ "__proto__") (v : ℚ) (l : String) :
    (setKey r k v).get? l = if l = k then some v else r.get? l := by
  rw [setKey, if_neg fun h => hk h.1, Record.get?_assign]

theorem setKey_proto {r : Record String ℚ} (hr : r.get? "__proto__" = none) (v : ℚ) : setKey r "__proto__" v = r :=
  if_pos ⟨rfl, by rw [hr]; rfl⟩

theorem lookup_none {ν : Type} {es : List (String × ν)} {k : String} (h : k ∉ es.map Prod.fst) :
    es.lookup k = none := by
  induction es with
  | nil => rfl
  | cons e es ih =>
    rw [List.map_cons, List.mem_cons, not_or] at h
    rw [List.lookup_cons, beq_eq_false_iff_ne.mpr h.1]
    exact ih h.2

theorem get?_foldl_numbers {es : List (String × JsValue)} (h : (es.map Prod.fst).Nodup) {r : Record String ℚ}
    (hr : r.get? "__proto__" = none) (k : String) :
    (es.foldl (fun base e => (num e.2).elim base (setKey base e.1)) r).get? k =
      (if k = "__proto__" then none else (es.lookup k).bind num).or (r.get? k) := by
  induction es generalizing r with
  | nil =>
    rw [List.foldl_nil]
    split <;> rfl
  | cons e es ih =>
    rw [List.map_cons, List.nodup_cons] at h
    have hlookup : es.lookup e.1 = none := lookup_none h.1
    rw [List.foldl_cons]
    cases hnum : num e.2 with
    | none =>
      rw [Option.elim_none, ih h.2 hr, List.lookup_cons]
      by_cases hk : k = e.1
      · rw [beq_iff_eq.mpr hk, hk, hlookup, Option.bind_none, Option.bind_some, hnum]
      · rw [beq_eq_false_iff_ne.mpr hk]
    | some q =>
      rw [Option.elim_some]
      by_cases hproto : e.1 = "__proto__"
      · rw [hproto, setKey_proto hr, ih h.2 hr, List.lookup_cons]
        by_cases hk : k = "__proto__"
        · rw [if_pos hk, if_pos hk]
        · rw [if_neg hk, if_neg hk, hproto, beq_eq_false_iff_ne.mpr hk]
      · rw [ih h.2 (by rw [get?_setKey r hproto, if_neg fun heq => hproto heq.symm, hr]), get?_setKey r hproto,
          List.lookup_cons]
        by_cases hk : k = e.1
        · subst hk
          rw [if_pos rfl, if_neg hproto, if_neg hproto, hlookup, BEq.rfl, Option.bind_none, Option.none_or]
          exact congrArg (Option.or · _) hnum.symm
        · rw [beq_eq_false_iff_ne.mpr hk, if_neg hk]

theorem get?_writeNumbers {base : Record String ℚ} (hbase : base.get? "__proto__" = none)
    (stated : Record String JsValue) (k : String) :
    (writeNumbers base stated).get? k = (numberAt stated k).or (base.get? k) :=
  get?_foldl_numbers stated.distinct hbase k

theorem writeNumbers_proto {base : Record String ℚ} (hbase : base.get? "__proto__" = none)
    (stated : Record String JsValue) : (writeNumbers base stated).get? "__proto__" = none := by
  rw [get?_writeNumbers hbase, hbase, numberAt, if_pos rfl, Option.none_or]

theorem level_unlimited_get (k : String) : level (unlimited.get? k) = ⊤ := by
  cases h : unlimited.get? k with
  | none => rfl
  | some q =>
    have hmem := (Record.get?_eq_some_iff unlimited k q).mp h
    obtain ⟨l, -, heq⟩ := List.mem_map.mp hmem
    rw [← (Prod.mk.inj heq).2]
    exact level_unlimited

theorem proto_not_key : "__proto__" ∉ limitKeys := by decide

theorem get?_foldl_capped (lic : LicensePayload) {ks : List String} (hks : ks.Nodup) (hproto : "__proto__" ∉ ks)
    (r : Record String ℚ) (k : String) :
    (ks.foldl (fun base k =>
      match (lic.limits.get? k).bind num with
      | some c => setKey base k (capLimit ((base.get? k).getD (-1)) (some c))
      | none => base) r).get? k =
      if k ∈ ks then ((numberAt lic.limits k).map fun c => capLimit ((r.get? k).getD (-1)) (some c)).or (r.get? k)
      else r.get? k := by
  induction ks generalizing r with
  | nil => rfl
  | cons l ks ih =>
    rw [List.nodup_cons] at hks
    rw [List.mem_cons, not_or] at hproto
    have hl : numberAt lic.limits l = (lic.limits.get? l).bind num := if_neg fun h => hproto.1 h.symm
    rw [List.foldl_cons, ih hks.2 hproto.2]
    cases hnum : (lic.limits.get? l).bind num with
    | none =>
      dsimp only
      by_cases hk : k = l
      · rw [hk, if_neg hks.1, if_pos List.mem_cons_self, hl, hnum]
        rfl
      · simp only [List.mem_cons, or_iff_right hk]
    | some c =>
      dsimp only
      rw [get?_setKey r fun h => hproto.1 h.symm]
      by_cases hk : k = l
      · rw [hk, if_neg hks.1, if_pos rfl, if_pos List.mem_cons_self, hl, hnum]
        rfl
      · simp only [List.mem_cons, or_iff_right hk, if_neg hk]

theorem level_capped (lic : LicensePayload) (r : Record String ℚ) (k : String) :
    level ((capped lic r).get? k) =
      if k ∈ limitKeys then min (level (r.get? k)) (level (numberAt lic.limits k)) else level (r.get? k) := by
  unfold capped
  rw [get?_foldl_capped lic (by decide) proto_not_key]
  by_cases hk : k ∈ limitKeys
  · rw [if_pos hk, if_pos hk]
    cases numberAt lic.limits k with
    | none => rw [Option.map_none, Option.none_or, level_none, min_top_right]
    | some c => rw [Option.map_some, Option.some_or, level_capLimit, level_getD]
  · rw [if_neg hk, if_neg hk]

theorem builtin_proto : builtinTrialLimits.get? "__proto__" = none := by decide

theorem unlimited_proto : unlimited.get? "__proto__" = none := by decide

theorem level_or (a b : Option ℚ) : level (a.or b) = (a.map fun q => level (some q)).getD (level b) := by
  cases a <;> rfl

theorem licPayload_hosted {i : Inputs} (h : selfHosted i = true) :
    ∃ lic, licPayload i = some lic ∧ (licPayload i).filter (·.selfHosted) = some lic := by
  unfold selfHosted at h
  cases hlic : licPayload i with
  | none =>
    rw [hlic] at h
    cases h
  | some lic =>
    rw [hlic] at h
    exact ⟨lic, rfl, Option.filter_eq_some_iff.mpr ⟨rfl, h⟩⟩

theorem level_base (i : Inputs) (k : String) : level ((base i).get? k) =
    if i.sys.planLimitsEnabled = true ∨ selfHosted i = true then
      ((override i k).map fun q => level (some q)).getD (underneath i k)
    else ⊤ := by
  have hwritten : ∀ (chosen : Record String ℚ), chosen.get? "__proto__" = none →
      level ((i.tenant.elim chosen fun t => writeNumbers chosen t.planOverrides).get? k) =
        ((override i k).map fun q => level (some q)).getD (level (chosen.get? k)) := by
    intro chosen hchosen
    unfold override
    cases i.tenant with
    | none => rfl
    | some t => rw [Option.elim_some, get?_writeNumbers hchosen, level_or, Option.bind_some]
  unfold base
  by_cases hhosted : selfHosted i = true
  · obtain ⟨lic, hlic, hfilter⟩ := licPayload_hosted hhosted
    rw [hfilter, hhosted, Bool.or_true, if_pos rfl, if_pos (Or.inr rfl)]
    dsimp only
    rw [hwritten _ (writeNumbers_proto unlimited_proto _), get?_writeNumbers unlimited_proto, level_or,
      level_unlimited_get, underneath, if_pos hhosted, licenceLimit, hlic, Option.bind_some]
    cases numberAt lic.limits k <;> rfl
  · have hfilter : (licPayload i).filter (·.selfHosted) = none := by
      unfold selfHosted at hhosted
      cases hlic : licPayload i with
      | none => rfl
      | some lic =>
        rw [hlic] at hhosted
        exact if_neg hhosted
    rw [hfilter, Bool.eq_false_iff.mpr hhosted, Bool.or_false]
    dsimp only
    by_cases henabled : i.sys.planLimitsEnabled = true
    · rw [if_pos henabled, if_pos henabled, if_pos (Or.inl henabled), hwritten _ (writeNumbers_proto builtin_proto _),
        get?_writeNumbers builtin_proto, underneath, if_neg hhosted, if_pos henabled, planLimit]
    · rw [if_neg henabled, if_neg henabled, level_unlimited_get,
        if_neg fun h => h.elim henabled fun heq => by cases heq]

theorem level_effective {tenantId : String} {i : Inputs} {eff : EffectiveLimits} (h : compute tenantId i = some eff)
    (k : String) : level (eff.limits.get? k) =
      if k ∈ limitKeys then min (level ((base i).get? k)) (level (licenceLimit i k)) else level ((base i).get? k) := by
  unfold compute at h
  dsimp only at h
  obtain ⟨trial, -, rfl⟩ := Option.map_eq_some_iff.mp h
  dsimp only
  unfold licenceLimit
  cases licPayload i with
  | none => rw [Option.elim_none, Option.bind_none, level_none, min_top_right, ite_self]
  | some lic => rw [Option.elim_some, Option.bind_some, level_capped]

section

variable {i i' : Inputs}

theorem underneath_mono (h : Lowered i i') (k : String) : underneath i k ≤ underneath i' k := by
  unfold underneath
  rw [h.hosted, h.mode]
  by_cases hhosted : selfHosted i' = true
  · rw [if_pos hhosted, if_pos hhosted]
    exact h.licence k
  · rw [if_neg hhosted, if_neg hhosted]
    by_cases henabled : i'.sys.planLimitsEnabled = true
    · rw [if_pos henabled, if_pos henabled]
      exact h.plan k
    · rw [if_neg henabled, if_neg henabled]

theorem base_mono (h : Lowered i i') (k : String) : level ((base i).get? k) ≤ level ((base i').get? k) := by
  rw [level_base, level_base, h.mode, h.hosted]
  by_cases honoured : i'.sys.planLimitsEnabled = true ∨ selfHosted i' = true
  · rw [if_pos honoured, if_pos honoured]
    have hunder := underneath_mono h k
    cases h.overrides k with
    | absent hi hi' =>
      rw [hi, hi']
      exact hunder
    | lowered q q' hi hi' hle =>
      rw [hi, hi']
      exact hle
    | added q hi hi' hle =>
      rw [hi, hi']
      exact hle
    | removed q' hi hi' hle =>
      rw [hi, hi']
      exact hunder.trans hle
  · rw [if_neg honoured, if_neg honoured]

end

/-- What overrides and plan say of a key, before the ceiling. -/
def beforeCeiling (i : Inputs) (k : String) : WithTop ℚ :=
  if i.sys.planLimitsEnabled = true ∨ selfHosted i = true then
    ((override i k).map fun q => level (some q)).getD (underneath i k)
  else ⊤

/-- Overrides and plan keep to what the licence states under any other name than those of `LIMIT_KEYS`. -/
def HoldsWhen (i : Inputs) : Prop :=
  ∀ k ∉ limitKeys, ∀ c, licenceLimit i k = some c → beforeCeiling i k ≤ level (some c)

/-- The limits that the licence states are ceilings, and no limit rises where plan, overrides or licence are lowered:
exactly when nothing above the licence is stated outside `LIMIT_KEYS`. -/
theorem limits_capped_iff {tenantId : String} {i : Inputs} {eff : EffectiveLimits} (h : compute tenantId i = some eff) :
    ((∀ k c, licenceLimit i k = some c → level (eff.limits.get? k) ≤ level (some c)) ∧
      ∀ {tenantId' : String} {i' : Inputs} {eff' : EffectiveLimits}, compute tenantId' i' = some eff' →
        Lowered i i' → ∀ k, level (eff.limits.get? k) ≤ level (eff'.limits.get? k)) ↔ HoldsWhen i := by
  constructor
  · intro claim k hk c hc
    have capped := claim.1 k c hc
    rw [level_effective h, if_neg hk, level_base] at capped
    exact capped
  · intro holds
    refine ⟨fun k c hc => ?_, fun h' hlowered k => ?_⟩
    · rw [level_effective h]
      by_cases hk : k ∈ limitKeys
      · rw [if_pos hk, hc]
        exact min_le_right _ _
      · rw [if_neg hk, level_base]
        exact holds k hk c hc
    · rw [level_effective h, level_effective h']
      have hbase := base_mono hlowered k
      by_cases hk : k ∈ limitKeys
      · rw [if_pos hk, if_pos hk]
        exact min_le_min hbase (hlowered.licence k)
      · rw [if_neg hk, if_neg hk]
        exact hbase

/-- A licence for some tables and an hour of cleaning. -/
def licensed (limits : Record String JsValue) (plan : Option PlanRow) (overrides : Record String JsValue) : Inputs where
  sys := ⟨true, none⟩
  lic := ⟨.valid, some ⟨"Acme Corp", none, "2027-10-19T00:00:00Z", false, limits, .empty⟩⟩
  tenant := some ⟨none, none, none, none, overrides, some 0⟩
  tables := ⟨fun _ => none, fun _ => none, plan⟩
  now := 0

def tables (q : ℚ) : Record String JsValue := ⟨[("max_tables", .num q)], by simp⟩

theorem numberAt_tables (q : ℚ) (k : String) : numberAt (tables q) k = if k = "max_tables" then some q else none := by
  unfold numberAt Record.get? tables
  by_cases own : k = "max_tables"
  · subst own
    rw [if_pos rfl]
    rfl
  · rw [if_neg own, List.lookup_cons, beq_eq_false_iff_ne.mpr own]
    exact ite_self none

/-- The licence sinks from 25 tables to 10, under an override that lifts the limit. -/
theorem limits_capped_licensed : ∃ eff eff', compute "acme" (licensed (tables 10) none (tables (-1))) = some eff ∧
    compute "acme" (licensed (tables 25) none (tables (-1))) = some eff' ∧
    level (eff.limits.get? "max_tables") ≤ level (some 10) ∧
    ∀ k, level (eff.limits.get? k) ≤ level (eff'.limits.get? k) := by
  obtain ⟨eff, h⟩ := Option.isSome_iff_exists.mp
    (by decide +kernel : (compute "acme" (licensed (tables 10) none (tables (-1)))).isSome = true)
  obtain ⟨eff', h'⟩ := Option.isSome_iff_exists.mp
    (by decide +kernel : (compute "acme" (licensed (tables 25) none (tables (-1)))).isSome = true)
  have licence (q : ℚ) (k : String) : licenceLimit (licensed (tables q) none (tables (-1))) k =
      if k = "max_tables" then some q else none := numberAt_tables q k
  have overrides (k : String) : OverrideLowered (licensed (tables 10) none (tables (-1)))
      (licensed (tables 25) none (tables (-1))) k := by
    have stated (q : ℚ) : override (licensed (tables q) none (tables (-1))) k = if k = "max_tables" then some (-1) else none :=
      numberAt_tables (-1) k
    by_cases own : k = "max_tables"
    · exact .lowered (-1) (-1) ((stated 10).trans (if_pos own)) ((stated 25).trans (if_pos own)) le_rfl
    · exact .absent ((stated 10).trans (if_neg own)) ((stated 25).trans (if_neg own))
  have lowered : Lowered (licensed (tables 10) none (tables (-1))) (licensed (tables 25) none (tables (-1))) := by
    refine ⟨rfl, rfl, fun k => le_rfl, overrides, fun k => ?_⟩
    rw [licence, licence]
    by_cases own : k = "max_tables"
    · rw [if_pos own, if_pos own]
      decide +kernel
    · rw [if_neg own, if_neg own]
  have holds : HoldsWhen (licensed (tables 10) none (tables (-1))) := by
    intro k hk c hc
    have other : k ≠ "max_tables" := by
      rintro rfl
      exact hk (by decide)
    rw [licence, if_neg other] at hc
    cases hc
  have claim := (limits_capped_iff h).mpr holds
  exact ⟨eff, eff', h, h', claim.1 "max_tables" 10 ((licence 10 "max_tables").trans (if_pos rfl)), claim.2 h' lowered⟩

/-- The hour at which data is cleaned is a limit of the licence, but no key of `LIMIT_KEYS`: the plan's 22 stays above
its 3. -/
theorem cleanup_hour_uncapped : ¬ ∀ (tenantId : String) (i : Inputs) (eff : EffectiveLimits),
    compute tenantId i = some eff → ∀ k c, licenceLimit i k = some c → level (eff.limits.get? k) ≤ level (some c) := by
  intro claim
  have computed : (compute "acme" (licensed ⟨[("data_cleanup_hour", .num 3)], by simp⟩
      (some ⟨"pro", ⟨[("data_cleanup_hour", .num 22)], by simp⟩, .empty⟩) .empty)).any
      (fun eff => eff.limits.get? "data_cleanup_hour" = some 22) = true := by
    decide +kernel
  obtain ⟨eff, h, hour⟩ := (Option.any_eq_true ..).mp computed
  have capped := claim _ _ eff h "data_cleanup_hour" 3 (by decide +kernel)
  rw [of_decide_eq_true hour] at capped
  exact absurd capped (by decide +kernel)

end DataFabric.LimitsResolver
