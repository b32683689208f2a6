import DataFabric.PassedStates
import DataFabric.SeparatedNames
import DataFabric.TenantIdentifiers
import Mathlib.Logic.Function.Basic

set_option autoImplicit false

/-!
# The legs a planner keeps

Every pod keeps the legs it resolved under a key that its parts are written into. A pod that changes the catalog
clears its own and tells the others, who may never hear of it.
-/
namespace DataFabric.PlannedLegs
open CharText TransitionRuns PassedStates TenantIdentifiers SeparatedNames

def legTtl : ℕ := 60000

variable {γ leg : Type*}

def legKey (override tenant source resource : String) : String :=
  tenant ++ "::" ++ source ++ "::" ++ resource ++ "::" ++ override

structure CachedLeg (leg : Type*) where
  leg : leg
  expiresAt : ℕ

/-- A call of `resolveLeg` that missed; `leg` is there once the catalog has answered. -/
structure Resolving (leg : Type*) where
  pod : ℕ
  tenant : String
  source : String
  resource : String
  now : ℕ
  leg : Option leg

structure Pods (γ leg : Type*) where
  now : ℕ
  catalog : γ
  legCache : ℕ → String → Option (CachedLeg leg)
  calls : ℕ → Option (Resolving leg)

inductive Event (γ : Type*)
  | pass (ms : ℕ)
  | change (catalog : γ)
  | miss (call pod : ℕ) (tenant source resource : String)
  | resolve (call : ℕ)
  | store (call : ℕ)
  /-- `clearLegCache`, or a broadcast that arrives. -/
  | clear (pod : ℕ)

def isTenant (tenant : String) : Bool := (assertTenantIdSafe tenant).toBool

section Step
variable (resolveLegUncached : γ → String → String → String → Option leg) (override : String)

def cachedLeg (s : Pods γ leg) (pod : ℕ) (tenant source resource : String) : Option leg :=
  match s.legCache pod (legKey override tenant source resource) with
  | some c => if s.now < c.expiresAt then some c.leg else none
  | none => none

def step (s : Pods γ leg) : Event γ → Option (Pods γ leg)
  | .pass ms => some { s with now := s.now + ms }
  | .change catalog => some { s with catalog }
  | .miss call pod tenant source resource =>
    match s.calls call, cachedLeg override s pod tenant source resource with
    | none, none =>
      if isTenant tenant then
        some { s with calls := Function.update s.calls call (some ⟨pod, tenant, source, resource, s.now, none⟩) }
      else none
    | _, _ => none
  | .resolve call =>
    match s.calls call with
    | some ⟨pod, tenant, source, resource, now, none⟩ =>
      -- a reference that does not resolve is thrown to the caller
      some { s with
        calls := Function.update s.calls call ((resolveLegUncached s.catalog tenant source resource).map fun found =>
          ⟨pod, tenant, source, resource, now, some found⟩) }
    | _ => none
  | .store call =>
    match s.calls call with
    | some ⟨pod, tenant, source, resource, now, some found⟩ =>
      some { s with
        calls := Function.update s.calls call none
        legCache := Function.update s.legCache pod
          (Function.update (s.legCache pod) (legKey override tenant source resource) (some ⟨found, now + legTtl⟩)) }
    | _ => none
  | .clear pod => some { s with legCache := Function.update s.legCache pod fun _ => none }

end Step

variable {resolveLegUncached : γ → String → String → String → Option leg} {override : String}
variable {init s s' : Pods γ leg} {es : List (Event γ)} {ev : Event γ} {pod : ℕ}

theorem colon_notMem {t : String} (ht : isTenant t = true) : ':' ∉ t.toList := by
  have word : matchesWord isWord isWord 0 55 t = true := by
    by_contra refused
    rw [isTenant, assertTenantIdSafe, if_neg refused] at ht
    cases ht
  unfold matchesWord at word
  cases chars : t.toList with
  | nil => exact List.not_mem_nil
  | cons c cs =>
    rw [chars] at word
    simp only [Bool.and_eq_true, List.all_eq_true] at word
    intro inside
    rcases List.mem_cons.mp inside with rfl | later
    · exact absurd word.1.1 (by decide)
    · exact absurd (word.1.2 _ later) (by decide)

theorem legKey_inj {t t' a b a' b' : String} (ht : isTenant t = true) (ht' : isTenant t' = true)
    (same : legKey override t a b = legKey override t' a' b') : t = t' ∧ a ++ "::" ++ b = a' ++ "::" ++ b' := by
  have chars := congrArg String.toList same
  have colons : "::".toList = [':', ':'] := rfl
  simp only [legKey, String.toList_append, colons, List.append_assoc, List.cons_append, List.nil_append] at chars
  have ⟨tenants, rest⟩ := glue_inj_left (colon_notMem ht) (colon_notMem ht') chars
  refine ⟨String.toList_inj.mp tenants, String.toList_inj.mp ?_⟩
  simp only [String.toList_append, colons, List.append_assoc, List.cons_append, List.nil_append]
  have tails := (List.cons.inj rest).2
  -- what follows the reference is the same in both
  have trailing : a.toList ++ ':' :: ':' :: b.toList ++ ':' :: ':' :: override.toList =
      a'.toList ++ ':' :: ':' :: b'.toList ++ ':' :: ':' :: override.toList := by
    simpa using tails
  exact List.append_cancel_right trailing

structure Bare (pod : ℕ) (s : Pods γ leg) : Prop where
  legCache : ∀ key, s.legCache pod key = none
  calls : ∀ call f, s.calls call = some f → f.pod ≠ pod

/-- What the pod keeps and what its calls were given is of the run. -/
structure Sourced (resolveLegUncached : γ → String → String → String → Option leg) (override : String) (pod : ℕ)
    (init : Pods γ leg) (es : List (Event γ)) (s : Pods γ leg) : Prop where
  calls : ∀ call f, s.calls call = some f → f.pod = pod → isTenant f.tenant = true ∧ f.now ≤ s.now ∧
    ∀ found, f.leg = some found → ∃ m, Passes (step resolveLegUncached override) init es m ∧
      resolveLegUncached m.catalog f.tenant f.source f.resource = some found ∧ f.now ≤ m.now
  legCache : ∀ key c, s.legCache pod key = some c → ∃ m tenant source resource,
    Passes (step resolveLegUncached override) init es m ∧ isTenant tenant = true ∧
      key = legKey override tenant source resource ∧
      resolveLegUncached m.catalog tenant source resource = some c.leg ∧ c.expiresAt ≤ m.now + legTtl

theorem sourced_step (ran : run (step resolveLegUncached override) init es = some s)
    (sourced : Sourced resolveLegUncached override pod init es s)
    (stepped : step resolveLegUncached override s ev = some s') :
    Sourced resolveLegUncached override pod init (es ++ [ev]) s' := by
  have oldCall : ∀ call f, s.calls call = some f → f.pod = pod → isTenant f.tenant = true ∧ f.now ≤ s.now ∧
      ∀ found, f.leg = some found → ∃ m, Passes (step resolveLegUncached override) init (es ++ [ev]) m ∧
        resolveLegUncached m.catalog f.tenant f.source f.resource = some found ∧ f.now ≤ m.now := by
    intro call f calling own
    have ⟨word, early, given⟩ := sourced.calls call f calling own
    refine ⟨word, early, fun found there => ?_⟩
    obtain ⟨m, passes, rest⟩ := given found there
    exact ⟨m, passes.snoc ev, rest⟩
  have oldLeg : ∀ key c, s.legCache pod key = some c → ∃ m tenant source resource,
      Passes (step resolveLegUncached override) init (es ++ [ev]) m ∧ isTenant tenant = true ∧
        key = legKey override tenant source resource ∧
        resolveLegUncached m.catalog tenant source resource = some c.leg ∧ c.expiresAt ≤ m.now + legTtl := by
    intro key c kept
    obtain ⟨m, tenant, source, resource, passes, rest⟩ := sourced.legCache key c kept
    exact ⟨m, tenant, source, resource, passes.snoc ev, rest⟩
  cases ev with
  | pass ms =>
    rw [step, Option.some.injEq] at stepped
    subst stepped
    refine ⟨fun call f calling own => ?_, oldLeg⟩
    have ⟨word, early, given⟩ := oldCall call f calling own
    exact ⟨word, early.trans (Nat.le_add_right ..), given⟩
  | change catalog =>
    rw [step, Option.some.injEq] at stepped
    subst stepped
    exact ⟨oldCall, oldLeg⟩
  | miss call p tenant source resource =>
    rw [step] at stepped
    split at stepped
    · by_cases word : isTenant tenant = true
      · rw [if_pos word, Option.some.injEq] at stepped
        subst stepped
        refine ⟨fun other f calling own => ?_, oldLeg⟩
        change Function.update s.calls call _ other = some f at calling
        by_cases same : other = call
        · rw [same, Function.update_self, Option.some.injEq] at calling
          subst calling
          exact ⟨word, Nat.le_refl _, fun _ there => by cases there⟩
        · rw [Function.update_of_ne same] at calling
          exact oldCall other f calling own
      · rw [if_neg word] at stepped
        cases stepped
    · cases stepped
  | resolve call =>
    rw [step] at stepped
    split at stepped
    · rename_i p tenant source resource now calling
      rw [Option.some.injEq] at stepped
      subst stepped
      refine ⟨fun other f there own => ?_, oldLeg⟩
      change Function.update s.calls call _ other = some f at there
      by_cases same : other = call
      · rw [same, Function.update_self, Option.map_eq_some_iff] at there
        obtain ⟨found, resolved, rfl⟩ := there
        have ⟨word, early, _⟩ := oldCall call _ calling own
        refine ⟨word, early, fun given answer => ?_⟩
        rw [← Option.some.inj answer]
        exact ⟨s, passes_before ran _, resolved, early⟩
      · rw [Function.update_of_ne same] at there
        exact oldCall other f there own
    · cases stepped
  | store call =>
    rw [step] at stepped
    split at stepped
    · rename_i p tenant source resource now found calling
      rw [Option.some.injEq] at stepped
      subst stepped
      constructor
      · intro other f there own
        change Function.update s.calls call none other = some f at there
        by_cases same : other = call
        · rw [same, Function.update_self] at there
          cases there
        · rw [Function.update_of_ne same] at there
          exact oldCall other f there own
      · intro key c kept
        change Function.update s.legCache p _ pod key = some c at kept
        by_cases here : pod = p
        · rw [here, Function.update_self] at kept
          by_cases new : key = legKey override tenant source resource
          · rw [new, Function.update_self, Option.some.injEq] at kept
            subst kept
            have ⟨word, _, given⟩ := oldCall call _ calling here.symm
            obtain ⟨m, passes, resolved, late⟩ := given found rfl
            exact ⟨m, tenant, source, resource, passes, word, new, resolved, Nat.add_le_add_right late _⟩
          · rw [Function.update_of_ne new, ← here] at kept
            exact oldLeg key c kept
        · rw [Function.update_of_ne here] at kept
          exact oldLeg key c kept
    · cases stepped
  | clear p =>
    rw [step, Option.some.injEq] at stepped
    subst stepped
    refine ⟨oldCall, fun key c kept => ?_⟩
    change Function.update s.legCache p (fun _ => none) pod key = some c at kept
    by_cases here : pod = p
    · rw [here, Function.update_self] at kept
      cases kept
    · rw [Function.update_of_ne here] at kept
      exact oldLeg key c kept

/-- From a state in which a pod keeps nothing, it serves only what the catalog gave in the run since, to the same
tenant, less than `LEG_CACHE_TTL_MS` ago, whatever the other pods do and whichever broadcasts are lost; the reference
may be another that is written the same. -/
theorem legs_served {tenant source resource : String} {served : leg} (bare : Bare pod init)
    (ran : run (step resolveLegUncached override) init es = some s) (word : isTenant tenant = true)
    (hit : cachedLeg override s pod tenant source resource = some served) :
    ∃ m a b, Passes (step resolveLegUncached override) init es m ∧ a ++ "::" ++ b = source ++ "::" ++ resource ∧
      resolveLegUncached m.catalog tenant a b = some served ∧ s.now < m.now + legTtl := by
  have start : Sourced resolveLegUncached override pod init [] init := by
    constructor
    · exact fun call f calling own => absurd own (bare.calls call f calling)
    · intro key c kept
      rw [bare.legCache key] at kept
      cases kept
  have sourced : Sourced resolveLegUncached override pod init es s :=
    run_looking_back (Q := fun _ _ => True) ran (fun _ _ _ _ _ _ => trivial) start
      fun _ _ _ _ before kept _ stepped => sourced_step before kept stepped
  unfold cachedLeg at hit
  split at hit
  · rename_i c kept
    by_cases fresh : s.now < c.expiresAt
    · rw [if_pos fresh, Option.some.injEq] at hit
      obtain ⟨m, t, a, b, passes, own, key, resolved, bound⟩ := sourced.legCache _ c kept
      obtain ⟨rfl, written⟩ := legKey_inj word own key
      exact ⟨m, a, b, passes, written.symm, hit ▸ resolved, by omega⟩
    · rw [if_neg fresh] at hit
      cases hit
  · cases hit

def versioned (catalog : ℕ) (tenant _ resource : String) : Option (String × ℕ) :=
  if resource = "orders" then some (tenant, catalog) else none

def idlePods : Pods ℕ (String × ℕ) := ⟨0, 1, fun _ _ => none, fun _ => none⟩

/-- The catalog changes, and all pods are cleared, while a call resolves. -/
def overtaken : List (Event ℕ) :=
  [.miss 0 0 "acme" "crm" "orders", .resolve 0, .change 2, .clear 0, .clear 1, .store 0, .pass 59999]

theorem overtaken_run : (run (step versioned "") idlePods overtaken).isSome = true := by decide +kernel

theorem legs_served_overtaken :
    ∃ m a b, Passes (step versioned "") idlePods overtaken m ∧ a ++ "::" ++ b = "crm" ++ "::" ++ "orders" ∧
      versioned m.catalog "acme" a b = some ("acme", 1) ∧
      ((run (step versioned "") idlePods overtaken).get overtaken_run).now < m.now + legTtl := by
  have bare : Bare 0 idlePods := ⟨fun _ => rfl, fun _ _ calling => by cases calling⟩
  have hit : cachedLeg "" ((run (step versioned "") idlePods overtaken).get overtaken_run) 0 "acme" "crm" "orders" =
      some ("acme", 1) := by
    decide +kernel
  exact legs_served bare (Option.some_get overtaken_run).symm (by decide) hit

end DataFabric.PlannedLegs
