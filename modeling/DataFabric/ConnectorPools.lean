import DataFabric.TriggerDefinitions

set_option autoImplicit false

/-!
# The pools of the PostgreSQL connectors

Pools are kept for the whole process, under a text made of some of the
parameters they are opened with.
-/
namespace DataFabric.ConnectorPools
open JsValues TriggerDefinitions

inductive Number
  | finite (q : ℚ)
  | infinite (negative : Bool)
  | nan
  deriving DecidableEq, Repr

def Number.text : Number → String
  | .finite q => JsValue.numberText q
  | .infinite negative => if negative then "-Infinity" else "Infinity"
  | .nan => "NaN"

@[ext] structure Address where
  host : String
  port : Number
  database : String
  user : String
  password : Option String
  deriving DecidableEq, Repr

inductive Parameters
  | connectionString (s : String)
  | address (a : Address) (ssl : Bool)
  deriving DecidableEq, Repr

def Address.key (a : Address) : String :=
  a.user ++ "@" ++ a.host ++ ":" ++ a.port.text ++ "/" ++ a.database

section

variable (number : JsValue → Number)

/-- The `poolConfig` of the constructor; `number` is the language's `Number(v)`. -/
def addressOf (config : JsValue) : Address where
  host := orText (config.get "host") "localhost"
  port := number (either (config.get "port") (.num 5432))
  database := orText (either (either (config.get "dbName") (config.get "database")) (config.get "db")) "postgres"
  user := orText (config.get "user") "postgres"
  password :=
    match either (config.get "pass") (config.get "password") with
    | .str s => if s = "" then none else some s
    | _ => none

def poolKey (config : JsValue) : String :=
  if (config.get "connectionString").truthy then (config.get "connectionString").text
  else (addressOf number config).key

/-- What `getOrCreatePool` opens a pool with: nothing of `advanced`. -/
def poolConfig (config : JsValue) : Parameters :=
  if (config.get "connectionString").truthy then .connectionString (config.get "connectionString").text
  else .address (addressOf number config) false

/-- What the configuration asks for: its connection string, or its fields and `advanced.ssl`. -/
def parameters (config : JsValue) : Parameters :=
  if (config.get "connectionString").truthy then .connectionString (config.get "connectionString").text
  else .address (addressOf number config) ((config.get "advanced").get "ssl").truthy

structure Connector where
  config : JsValue
  /-- what the pool it uses was opened with -/
  pool : Parameters
  deriving DecidableEq

structure World where
  pools : String → Option Parameters
  /-- every connector constructed so far -/
  connectors : List Connector

inductive Event
  | construct (config : JsValue)
  | closeAllPools

def getOrCreatePool (w : World) (key : String) (options : Parameters) : Parameters × World :=
  match w.pools key with
  | some p => (p, w)
  | none => (options, { w with pools := fun k => if k = key then some options else w.pools k })

def step (w : World) : Event → World
  | .construct config =>
    -- `config.advanced` of a missing configuration throws
    if config.isNullish then w
    else
      let (pool, w') := getOrCreatePool w (poolKey number config) (poolConfig number config)
      { w' with connectors := ⟨config, pool⟩ :: w'.connectors }
  | .closeAllPools => { w with pools := fun _ => none }

def run (es : List Event) : World := es.foldl (step number) ⟨fun _ => none, []⟩

/-- Every connector uses a pool opened with its own parameters. -/
def Unshared (w : World) : Prop := ∀ c ∈ w.connectors, c.pool = parameters number c.config

/-- One text for two configurations that ask for different connections. -/
def Clash (c c' : JsValue) : Prop :=
  match (c.get "connectionString").truthy, (c'.get "connectionString").truthy with
  | true, true => False
  | true, false => (c.get "connectionString").text = (addressOf number c').key
  | false, true => (addressOf number c).key = (c'.get "connectionString").text
  | false, false =>
    (addressOf number c).key = (addressOf number c').key ∧
      ((addressOf number c).password ≠ (addressOf number c').password ∨
        (addressOf number c).user ≠ (addressOf number c').user ∨
        (addressOf number c).host ≠ (addressOf number c').host ∨
        (addressOf number c).port ≠ (addressOf number c').port ∨
        (addressOf number c).database ≠ (addressOf number c').database)

def AsksTls (c : JsValue) : Prop :=
  (c.get "connectionString").truthy = false ∧ ((c.get "advanced").get "ssl").truthy = true

/-- The configurations constructed since the pools were last closed. -/
def recent (es : List Event) : List JsValue :=
  es.foldl (fun cs e =>
    match e with
    | .construct c => if c.isNullish then cs else c :: cs
    | .closeAllPools => []) []

/-- No configuration asks for TLS beside fields or clashes with an earlier one whose pool is still there. -/
def HoldsWhen (es : List Event) : Prop :=
  ∀ before c after, es = before ++ .construct c :: after → c.isNullish = false →
    ¬ AsksTls c ∧ ∀ c' ∈ recent before, ¬ Clash number c' c

section

variable {number} {c c' : JsValue}

theorem not_asksTls (h : parameters number c = poolConfig number c') : ¬ AsksTls c := by
  unfold parameters poolConfig at h
  rintro ⟨hstring, hssl⟩
  rw [hstring, hssl, if_neg Bool.false_ne_true] at h
  split at h
  · exact absurd h (by simp)
  · exact absurd (Parameters.address.inj h).2 (by simp)

theorem parameters_eq (h : ¬ AsksTls c) : parameters number c = poolConfig number c := by
  unfold AsksTls at h
  unfold parameters poolConfig
  cases hstring : (c.get "connectionString").truthy with
  | true => rfl
  | false =>
    have hssl : ((c.get "advanced").get "ssl").truthy = false := by
      by_contra hssl
      exact h ⟨hstring, Bool.not_eq_false _ |>.mp hssl⟩
    rw [if_neg Bool.false_ne_true, if_neg Bool.false_ne_true, hssl]

theorem clash_iff (h : ¬ AsksTls c) (h' : ¬ AsksTls c') :
    Clash number c c' ↔ poolKey number c = poolKey number c' ∧ parameters number c ≠ parameters number c' := by
  rw [parameters_eq h, parameters_eq h']
  unfold Clash poolKey poolConfig
  cases (c.get "connectionString").truthy with
  | true =>
    cases (c'.get "connectionString").truthy with
    | true => simp
    | false => simp
  | false =>
    cases (c'.get "connectionString").truthy with
    | true => simp
    | false =>
      have hne : addressOf number c ≠ addressOf number c' ↔
          ((addressOf number c).password ≠ (addressOf number c').password ∨
            (addressOf number c).user ≠ (addressOf number c').user ∨
            (addressOf number c).host ≠ (addressOf number c').host ∨
            (addressOf number c).port ≠ (addressOf number c').port ∨
            (addressOf number c).database ≠ (addressOf number c').database) := by
        rw [Ne, Address.ext_iff]
        tauto
      simp [hne]

end

section

variable {number} {es : List Event} {w : World} {c : JsValue}

/-- What the pools have to do with the connectors that use them. -/
structure Cached (number : JsValue → Number) (es : List Event) (w : World) : Prop where
  opened : ∀ k p, w.pools k = some p → ∃ c ∈ recent es, poolKey number c = k
  used : ∀ c ∈ recent es, ∃ p, w.pools (poolKey number c) = some p ∧ ⟨c, p⟩ ∈ w.connectors
  plain : ∀ c ∈ w.connectors, ∃ config, c.pool = poolConfig number config

theorem run_snoc (es : List Event) (e : Event) : run number (es ++ [e]) = step number (run number es) e := by
  simp [run]

theorem recent_snoc_construct (hc : c.isNullish = false) : recent (es ++ [.construct c]) = c :: recent es := by
  simp [recent, hc]

theorem recent_snoc_missing (hc : c.isNullish = true) : recent (es ++ [.construct c]) = recent es := by
  simp [recent, hc]

theorem recent_snoc_close : recent (es ++ [.closeAllPools]) = [] := by
  simp [recent]

theorem step_missing (hc : c.isNullish = true) : step number w (.construct c) = w := by
  rw [step, if_pos hc]

def poolFor (number : JsValue → Number) (w : World) (c : JsValue) : Parameters :=
  (w.pools (poolKey number c)).getD (poolConfig number c)

theorem step_connectors (hc : c.isNullish = false) :
    (step number w (.construct c)).connectors = ⟨c, poolFor number w c⟩ :: w.connectors := by
  rw [step, hc, if_neg Bool.false_ne_true]
  unfold getOrCreatePool poolFor
  cases w.pools (poolKey number c) <;> rfl

theorem step_pools_self (hc : c.isNullish = false) :
    (step number w (.construct c)).pools (poolKey number c) = some (poolFor number w c) := by
  rw [step, hc, if_neg Bool.false_ne_true]
  unfold getOrCreatePool poolFor
  cases h : w.pools (poolKey number c) with
  | none => simp
  | some p => simp [h]

theorem step_pools_other (hc : c.isNullish = false) {k : String} (hk : k ≠ poolKey number c) :
    (step number w (.construct c)).pools k = w.pools k := by
  rw [step, hc, if_neg Bool.false_ne_true]
  unfold getOrCreatePool
  cases w.pools (poolKey number c) with
  | none => simp [hk]
  | some p => rfl

theorem poolFor_plain (h : Cached number es w) (c : JsValue) :
    ∃ config, poolFor number w c = poolConfig number config := by
  unfold poolFor
  cases hp : w.pools (poolKey number c) with
  | none => exact ⟨c, rfl⟩
  | some p =>
    have ⟨c', hc', hkey⟩ := h.opened _ _ hp
    have ⟨p', hp', hmem⟩ := h.used c' hc'
    rw [hkey, hp] at hp'
    have ⟨config, hconfig⟩ := h.plain _ hmem
    exact ⟨config, by rw [← hconfig]; exact Option.some.inj hp'⟩

theorem cached_construct (h : Cached number es w) (hc : c.isNullish = false) :
    Cached number (es ++ [.construct c]) (step number w (.construct c)) := by
  have hself : (step number w (.construct c)).pools (poolKey number c) = some (poolFor number w c) :=
    step_pools_self hc
  constructor
  · intro k p hp
    rw [recent_snoc_construct hc]
    by_cases hk : k = poolKey number c
    · exact ⟨c, List.mem_cons_self, hk.symm⟩
    · rw [step_pools_other hc hk] at hp
      have ⟨c', hc', hkey⟩ := h.opened k p hp
      exact ⟨c', List.mem_cons_of_mem _ hc', hkey⟩
  · intro c' hc'
    rw [recent_snoc_construct hc] at hc'
    rw [step_connectors hc]
    rcases List.mem_cons.mp hc' with rfl | hc'
    · exact ⟨_, hself, List.mem_cons_self⟩
    · have ⟨p, hp, hmem⟩ := h.used c' hc'
      refine ⟨p, ?_, List.mem_cons_of_mem _ hmem⟩
      by_cases hk : poolKey number c' = poolKey number c
      · rw [hk] at hp
        rw [hk, hself, poolFor, hp]
        rfl
      · rw [step_pools_other hc hk]
        exact hp
  · intro c' hc'
    rw [step_connectors hc] at hc'
    rcases List.mem_cons.mp hc' with rfl | hc'
    · exact poolFor_plain h c
    · exact h.plain c' hc'

theorem cached_run (es : List Event) : Cached number es (run number es) := by
  induction es using List.reverseRecOn with
  | nil => exact ⟨fun _ _ h => (nomatch h), fun _ h => absurd h List.not_mem_nil, fun _ h => absurd h List.not_mem_nil⟩
  | append_singleton es e ih =>
    rw [run_snoc]
    cases e with
    | construct c =>
      cases hc : c.isNullish with
      | true =>
        rw [step_missing hc]
        have hrecent : recent (es ++ [.construct c]) = recent es := recent_snoc_missing hc
        exact ⟨by rw [hrecent]; exact ih.opened, by rw [hrecent]; exact ih.used, ih.plain⟩
      | false => exact cached_construct ih hc
    | closeAllPools =>
      refine ⟨fun _ _ h => (nomatch h), fun c' hc' => ?_, ih.plain⟩
      rw [recent_snoc_close] at hc'
      exact absurd hc' List.not_mem_nil

theorem poolFor_own_iff (h : Cached number es w) (hu : Unshared number w) :
    poolFor number w c = parameters number c ↔ ¬ AsksTls c ∧ ∀ c' ∈ recent es, ¬ Clash number c' c := by
  have hplain : ∀ c' ∈ recent es, ¬ AsksTls c' := by
    intro c' hc'
    have ⟨p, _, hmem⟩ := h.used c' hc'
    have ⟨config, hconfig⟩ := h.plain _ hmem
    exact not_asksTls ((hu _ hmem).symm.trans hconfig)
  constructor
  · intro hown
    have ⟨config, hconfig⟩ := poolFor_plain h c
    have hc := not_asksTls (hown.symm.trans hconfig)
    refine ⟨hc, fun c' hc' hclash => ?_⟩
    have ⟨hkey, hne⟩ := (clash_iff (hplain c' hc') hc).mp hclash
    have ⟨p, hp, hmem⟩ := h.used c' hc'
    rw [hkey] at hp
    rw [poolFor, hp] at hown
    exact hne ((hu _ hmem).symm.trans hown)
  · rintro ⟨hc, hclash⟩
    cases hp : w.pools (poolKey number c) with
    | none =>
      rw [poolFor, hp, parameters_eq hc]
      rfl
    | some p =>
      have ⟨c', hc', hkey⟩ := h.opened _ _ hp
      have ⟨p', hp', hmem⟩ := h.used c' hc'
      rw [hkey, hp] at hp'
      cases hp'
      rw [poolFor, hp]
      have hsame : parameters number c' = parameters number c := by
        by_contra hne
        exact hclash c' hc' ((clash_iff (hplain c' hc') hc).mpr ⟨hkey, hne⟩)
      exact (hu _ hmem).trans hsame

theorem holdsWhen_snoc {e : Event} : HoldsWhen number (es ++ [e]) ↔ HoldsWhen number es ∧
    ∀ c, e = .construct c → c.isNullish = false → ¬ AsksTls c ∧ ∀ c' ∈ recent es, ¬ Clash number c' c := by
  constructor
  · intro h
    refine ⟨fun before c after heq hc => h before c (after ++ [e]) (by rw [heq]; simp) hc, ?_⟩
    rintro c rfl hc
    exact h es c [] rfl hc
  · rintro ⟨hes, he⟩ before c after heq hc
    rcases List.eq_nil_or_concat after with rfl | ⟨after', e', rfl⟩
    · have hlast := List.append_inj' heq rfl
      rw [← hlast.1]
      exact he c (List.singleton_inj.mp hlast.2) hc
    · rw [List.concat_eq_append, ← List.cons_append, ← List.append_assoc] at heq
      exact hes before c after' (List.append_inj' heq rfl).1 hc

end

/-- In a sequence of constructions every connector has its own parameters exactly if none asks for TLS or clashes. -/
theorem pools_unshared_iff (es : List Event) : Unshared number (run number es) ↔ HoldsWhen number es := by
  induction es using List.reverseRecOn with
  | nil =>
    refine ⟨fun _ before c after h => ?_, fun _ c hc => absurd hc List.not_mem_nil⟩
    exact absurd h.symm (by simp)
  | append_singleton es e ih =>
    rw [run_snoc, holdsWhen_snoc, ← ih]
    cases e with
    | construct c =>
      cases hc : c.isNullish with
      | true =>
        rw [step_missing hc]
        refine ⟨fun h => ⟨h, ?_⟩, And.left⟩
        rintro c' heq hc'
        cases heq
        rw [hc] at hc'
        cases hc'
      | false =>
        have hall : Unshared number (step number (run number es) (.construct c)) ↔
            poolFor number (run number es) c = parameters number c ∧ Unshared number (run number es) := by
          unfold Unshared
          rw [step_connectors hc]
          exact List.forall_mem_cons
        rw [hall]
        constructor
        · rintro ⟨hown, hu⟩
          refine ⟨hu, fun c' heq _ => ?_⟩
          cases heq
          exact (poolFor_own_iff (cached_run es) hu).mp hown
        · rintro ⟨hu, h⟩
          exact ⟨(poolFor_own_iff (cached_run es) hu).mpr (h c rfl hc), hu⟩
    | closeAllPools =>
      refine ⟨fun h => ⟨h, fun _ heq => nomatch heq⟩, And.left⟩

end

def numberOf : JsValue → Number
  | .num q => .finite q
  | _ => .nan

def shop (password : String) : JsValue :=
  .obj [("host", .str "db"), ("user", .str "shop"), ("pass", .str password), ("dbName", .str "shop")]

/-- Whoever knows the address of a source reads through the pool of its owner. -/
theorem wrong_password_shares : ¬ ∀ (number : JsValue → Number) (es : List Event),
    Unshared number (run number es) := by
  intro h
  have hpool := h numberOf [.construct (shop "right"), .construct (shop "wrong")]
    ⟨shop "wrong", parameters numberOf (shop "right")⟩ (by decide +kernel)
  revert hpool
  decide +kernel

end DataFabric.ConnectorPools
