import DataFabric.TriggerSites

set_option autoImplicit false

/-!
# Deployments and the functions they replace

`CREATE OR REPLACE FUNCTION` keeps the function a trigger executes and changes
what it does, for every trigger that executes it.
-/
namespace DataFabric.TriggerDeployments
open JsValues TenantIdentifiers ExceptRules TriggerDefinitions TriggerCompilers TriggerSites

/-- A trigger of a table; two tables of a schema may have one of the same name. -/
structure Key where
  schema : String
  table : String
  name : String
  deriving DecidableEq, Repr

inductive DbFunction
  /-- a user's own -/
  | user (returnsTrigger : Bool) (source : String)
  | generated (body : Body)

/-- A trigger, with the function its last definition has been compiled to. -/
structure Deployed where
  trigger : NativeTrigger
  own : Option (Qualified × Body)

structure Database where
  functions : Qualified → Option DbFunction
  triggers : Key → Option Deployed

def setFunction (db : Database) (q : Qualified) (f : DbFunction) : Database :=
  { db with functions := fun r => if r = q then some f else db.functions r }

def setTrigger (db : Database) (key : Key) (t : Option Deployed) : Database :=
  { db with triggers := fun k => if k = key then t else db.triggers k }

def keyOf (t : NativeTrigger) : Key := ⟨t.schema, t.table, t.name⟩

/-- A trigger that executes the function runs the body of its new definition from here on. -/
def adopt (q : Qualified) (b : Body) (t : Deployed) : Deployed :=
  if t.trigger.executes = q then ⟨t.trigger, some (q, b)⟩ else t

/-- A statement of the deployment of `c`; `none` where the database refuses it. -/
def exec (c : CompiledTrigger) (db : Database) : Statement → Option Database
  | .createFunction q b =>
    match db.functions q with
    -- the return type of an existing function cannot be changed
    | some (.user false _) => none
    | _ =>
      some (setTrigger (setFunction db q (.generated b)) (keyOf c.trigger)
        ((db.triggers (keyOf c.trigger)).map (adopt q b)))
  | .dropTrigger schema table name => some (setTrigger db ⟨schema, table, name⟩ none)
  | .createTrigger t =>
    if (db.triggers (keyOf t)).isSome ∨ (db.functions t.executes).isNone then none
    else some (setTrigger db (keyOf t) (some ⟨t, c.function⟩))

def execAll (c : CompiledTrigger) : List Statement → Database → Option Database
  | [], db => some db
  | s :: ss, db => (exec c db s).bind (execAll c ss)

def transpileTriggerSql (d : JsValue) (site : Site) : Except FabricError (Option CompiledTrigger) := do
  let name ← TriggerActionCompiler.ident (d.get "name")
  if name = "" then .ok none
  else do
    validateManifestTrigger d site.opts
    (TriggerActionCompiler.toSql d site.backend).map some

inductive Event
  /-- the manifest path, in one transaction -/
  | manifest (site : Site) (d : JsValue)
  /-- a `DEPLOY_TRIGGER` job: every statement in a transaction of its own, so some may be all that is executed -/
  | deployTrigger (site : Site) (d : JsValue) (executed : ℕ)
  | deleteTrigger (key : Key)
  /-- a user creates a function under a name that is free -/
  | createFunction (q : Qualified) (returnsTrigger : Bool) (source : String)

def step (db : Database) : Event → Option Database
  | .manifest site d =>
    match transpileTriggerSql d site with
    | .ok (some c) => execAll c c.statements db
    | .ok none => some db
    | .error _ => none
  | .deployTrigger site d executed =>
    match TriggerTranspiler.toSql d site.engine with
    | .ok c => execAll c (c.statements.take executed) db
    | .error _ => none
  | .deleteTrigger key => some (setTrigger db key none)
  | .createFunction q returnsTrigger source =>
    if (db.functions q).isSome then none else some (setFunction db q (.user returnsTrigger source))

/-- Whether the manifest path compiles the definition to a function of its own. -/
def generates (d : JsValue) : Bool :=
  (d.get "action").truthy ||
    (((d.get "execute").get "type").truthy && word ((d.get "execute").get "type") ≠ "AUDIT")

/-- The name `<name><suffix>` is neither a trigger function of a user nor the function of another trigger. -/
def Unshared (db : Database) (site : Site) (d : JsValue) (suffix : String) : Prop :=
  ∀ name, d.get "name" = .str name →
    (∀ source, db.functions ⟨site.schema, name ++ suffix⟩ ≠ some (.user true source)) ∧
    ∀ key, key ≠ ⟨site.schema, site.table, name⟩ → ∀ t, db.triggers key = some t →
      ∀ b, t.own ≠ some (⟨site.schema, name ++ suffix⟩, b)

def Apart (db : Database) : Event → Prop
  | .manifest site d => generates d = true → Unshared db site d "_fn"
  | .deployTrigger site d _ => Unshared db site d "_func"
  | .deleteTrigger _ | .createFunction _ _ _ => True

/-- Every trigger executes the body compiled from its definition. -/
def Intact (db : Database) : Prop :=
  ∀ key t q b, db.triggers key = some t → t.own = some (q, b) →
    t.trigger.executes = q ∧ db.functions q = some (.generated b)

def Kept (db₀ db : Database) : Prop :=
  ∀ q r source, db₀.functions q = some (.user r source) → db.functions q = some (.user r source)

inductive Run (allowed : Database → Event → Prop) (db₀ : Database) : Database → Prop
  | start : Run allowed db₀ db₀
  | step {db db' : Database} {e : Event} (h : Run allowed db₀ db) (ha : allowed db e)
      (hs : step db e = some db') : Run allowed db₀ db'

section

variable {db₀ db db' : Database} {c : CompiledTrigger}

theorem setFunction_self (q : Qualified) (f : DbFunction) : (setFunction db q f).functions q = some f := if_pos rfl

theorem setFunction_other {q r : Qualified} (f : DbFunction) (h : r ≠ q) :
    (setFunction db q f).functions r = db.functions r := if_neg h

theorem setTrigger_self (key : Key) (t : Option Deployed) : (setTrigger db key t).triggers key = t := if_pos rfl

theorem setTrigger_other {key k : Key} (t : Option Deployed) (h : k ≠ key) :
    (setTrigger db key t).triggers k = db.triggers k := if_neg h

theorem exec_createFunction {q : Qualified} {b : Body} (h : exec c db (.createFunction q b) = some db') :
    (∀ source, db.functions q ≠ some (.user false source)) ∧
      db' = setTrigger (setFunction db q (.generated b)) (keyOf c.trigger)
        ((db.triggers (keyOf c.trigger)).map (adopt q b)) := by
  rw [exec] at h
  split at h
  case h_1 => cases h
  case h_2 hne => exact ⟨fun source heq => hne source heq, (Option.some.inj h).symm⟩

theorem intact_createFunction {q : Qualified} {b : Body} (hi : Intact db)
    (hothers : ∀ key, key ≠ keyOf c.trigger → ∀ t, db.triggers key = some t → ∀ b', t.own ≠ some (q, b'))
    (h : exec c db (.createFunction q b) = some db') :
    Intact db' ∧ db'.functions q = some (.generated b) := by
  have ⟨_, hdb⟩ := exec_createFunction h
  subst hdb
  refine ⟨fun key t r b' ht hown => ?_, setFunction_self q _⟩
  by_cases hkey : key = keyOf c.trigger
  · subst hkey
    rw [setTrigger_self] at ht
    obtain ⟨t', ht', rfl⟩ := Option.map_eq_some_iff.mp ht
    unfold adopt at hown ⊢
    by_cases hexec : t'.trigger.executes = q
    · rw [if_pos hexec] at hown ⊢
      cases hown
      exact ⟨hexec, setFunction_self q _⟩
    · rw [if_neg hexec] at hown ⊢
      have ⟨hr, hf⟩ := hi _ t' r b' ht' hown
      exact ⟨hr, (setFunction_other _ fun heq => hexec (hr.trans heq)).trans hf⟩
  · rw [setTrigger_other _ hkey] at ht
    have ⟨hr, hf⟩ := hi key t r b' ht hown
    exact ⟨hr, (setFunction_other _ fun heq => hothers key hkey t ht b' (hown.trans (by rw [heq]))).trans hf⟩

theorem kept_createFunction {q : Qualified} {b : Body} (hk : Kept db₀ db)
    (hfree : ∀ source, db.functions q ≠ some (.user true source))
    (h : exec c db (.createFunction q b) = some db') : Kept db₀ db' := by
  have ⟨hother, hdb⟩ := exec_createFunction h
  subst hdb
  intro r returnsTrigger source h₀
  have hr := hk r returnsTrigger source h₀
  refine (setFunction_other _ fun heq => ?_).trans hr
  subst heq
  cases returnsTrigger with
  | true => exact hfree source hr
  | false => exact hother source hr

theorem intact_setTrigger {key : Key} {t : Option Deployed} (hi : Intact db)
    (ht : ∀ t', t = some t' → ∀ q b, t'.own = some (q, b) →
      t'.trigger.executes = q ∧ db.functions q = some (.generated b)) : Intact (setTrigger db key t) := by
  intro k t' q b hk hown
  by_cases heq : k = key
  · subst heq
    rw [setTrigger_self] at hk
    exact ht t' hk q b hown
  · rw [setTrigger_other _ heq] at hk
    exact hi k t' q b hk hown

theorem intact_dropped {key : Key} (hi : Intact db) : Intact (setTrigger db key none) :=
  intact_setTrigger hi fun _ ht => nomatch ht

theorem intact_createTrigger (hi : Intact db)
    (hown : ∀ q b, c.function = some (q, b) → c.trigger.executes = q ∧ db.functions q = some (.generated b))
    (h : exec c db (.createTrigger c.trigger) = some db') : Intact db' ∧ db'.functions = db.functions := by
  rw [exec] at h
  split at h
  · cases h
  · cases h
    exact ⟨intact_setTrigger hi fun t' ht => by cases ht; exact hown, rfl⟩

end

/-- What the statements of a deployment make of the trigger's name. -/
structure Emits (site : Site) (d : JsValue) (suffix : String) (c : CompiledTrigger) : Prop where
  schema : c.trigger.schema = site.schema
  table : c.trigger.table = site.table
  name : d.get "name" = .str c.trigger.name
  function : ∀ q b, c.function = some (q, b) → q = ⟨site.schema, c.trigger.name ++ suffix⟩ ∧ c.trigger.executes = q

theorem execAll_cons {c : CompiledTrigger} {s : Statement} {ss : List Statement} {db db' : Database}
    (h : execAll c (s :: ss) db = some db') : ∃ mid, exec c db s = some mid ∧ execAll c ss mid = some db' :=
  Option.bind_eq_some_iff.mp h

section

variable {db₀ db db' : Database} {c : CompiledTrigger} {site : Site} {d : JsValue} {suffix : String}

theorem attach_settled (hi : Intact db) (hk : Kept db₀ db)
    (hown : ∀ q b, c.function = some (q, b) → c.trigger.executes = q ∧ db.functions q = some (.generated b))
    {n : ℕ} (h : execAll c (([.dropTrigger c.trigger.schema c.trigger.table c.trigger.name,
      .createTrigger c.trigger] : List Statement).take n) db = some db') : Intact db' ∧ Kept db₀ db' := by
  match n with
  | 0 =>
    cases h
    exact ⟨hi, hk⟩
  | 1 =>
    cases h
    exact ⟨intact_dropped hi, hk⟩
  | n + 2 =>
    rw [List.take_of_length_le (by simp)] at h
    obtain ⟨mid, hmid, h⟩ := execAll_cons h
    cases hmid
    obtain ⟨last, hlast, h⟩ := execAll_cons h
    cases h
    have ⟨hintact, hfunctions⟩ := intact_createTrigger (intact_dropped hi) hown hlast
    refine ⟨hintact, fun q r source h₀ => ?_⟩
    rw [hfunctions]
    exact hk q r source h₀

theorem deployment_settled (hi : Intact db) (hk : Kept db₀ db) (hc : Emits site d suffix c)
    (hapart : c.function.isSome = true → Unshared db site d suffix) {n : ℕ}
    (h : execAll c (c.statements.take n) db = some db') : Intact db' ∧ Kept db₀ db' := by
  cases hf : c.function with
  | none =>
    unfold CompiledTrigger.statements at h
    rw [hf] at h
    exact attach_settled hi hk (fun q b hqb => nomatch hf.symm.trans hqb) h
  | some f =>
    obtain ⟨q, b⟩ := f
    unfold CompiledTrigger.statements at h
    rw [hf] at h
    cases n with
    | zero =>
      cases h
      exact ⟨hi, hk⟩
    | succ n =>
      obtain ⟨mid, hmid, h⟩ := execAll_cons h
      have ⟨hq, hexec⟩ := hc.function q b hf
      have ⟨hfree, hothers⟩ := hapart (by rw [hf]; rfl) c.trigger.name hc.name
      have hkey : keyOf c.trigger = ⟨site.schema, site.table, c.trigger.name⟩ := by
        rw [keyOf, hc.schema, hc.table]
      rw [← hq] at hfree hothers
      rw [← hkey] at hothers
      have ⟨hintact, hgenerated⟩ := intact_createFunction hi hothers hmid
      refine attach_settled hintact (kept_createFunction hk hfree hmid) (fun q' b' hqb => ?_) h
      cases hf.symm.trans hqb
      exact ⟨hexec, hgenerated⟩

end

section

variable {c : CompiledTrigger} {site : Site} {d : JsValue}

theorem backend_name (h : TriggerActionCompiler.toSql d site.backend = .ok c) :
    ∃ name, d.get "name" = .str name ∧ identRe name = true := by
  unfold TriggerActionCompiler.toSql at h
  obtain ⟨name, hname, h⟩ := bind_ok h
  split at h
  case isTrue => cases h
  case isFalse hne =>
    unfold TriggerActionCompiler.ident at hname
    split at hname
    · exact absurd (Except.ok.inj hname).symm hne
    · exact ⟨name, assertIdent_ok hname⟩

theorem function_named {name : String} {resolved : TriggerActionCompiler.Resolved}
    {f : Qualified × Option Body} (h : TriggerActionCompiler.function resolved name site.backend = .ok f)
    {b : Body} (hb : f.2 = some b) :
    f.1 = ⟨site.schema, name ++ "_fn"⟩ ∧ ∃ main sd, resolved = .body main sd := by
  cases resolved with
  | procedure p =>
    obtain ⟨q, _, hf⟩ := map_ok h
    cases hf
    cases hb
  | body main sd =>
    unfold TriggerActionCompiler.function at h
    dsimp only at h
    split at h
    · cases h
    · obtain ⟨schema, hschema, h⟩ := bind_ok h
      obtain ⟨fnName, hfn, h⟩ := bind_ok h
      cases h
      have hschema := (assertIdent_ok hschema).1
      have hfn := (assertIdent_ok hfn).1
      cases hschema
      cases hfn
      exact ⟨rfl, main, sd, rfl⟩

theorem resolve_generates {name : String} {ctx : CompileCtx} {main : Main} {sd : Bool}
    (h : TriggerActionCompiler.resolve d name ctx = .ok (.body main sd)) : generates d = true := by
  unfold TriggerActionCompiler.resolve at h
  unfold generates
  split at h
  case isTrue hact => rw [hact, Bool.true_or]
  case isFalse =>
    split at h
    case isTrue htype =>
      have haudit : word ((d.get "execute").get "type") ≠ "AUDIT" := by
        intro hword
        unfold TriggerActionCompiler.compileExecute at h
        dsimp only at h
        rw [hword] at h
        cases h
      rw [htype, Bool.true_and, decide_eq_true haudit, Bool.or_true]
    case isFalse =>
      split at h <;> split at h <;> cases h

theorem backend_emits (h : TriggerActionCompiler.toSql d site.backend = .ok c) :
    Emits site d "_fn" c ∧ (c.function.isSome = true → generates d = true) := by
  have ⟨name, hname, hident⟩ := backend_name h
  rw [backend_toSql site hname hident] at h
  obtain ⟨resolved, hresolved, h⟩ := bind_ok h
  obtain ⟨f, hf, heq⟩ := map_ok h
  subst heq
  refine ⟨⟨rfl, rfl, hname, fun q b hqb => ?_⟩, fun hsome => ?_⟩
  · obtain ⟨b', hb', heq⟩ := Option.map_eq_some_iff.mp hqb
    cases heq
    exact ⟨(function_named hf hb').1, rfl⟩
  · obtain ⟨⟨q, b⟩, hqb⟩ := Option.isSome_iff_exists.mp hsome
    obtain ⟨b', hb', _⟩ := Option.map_eq_some_iff.mp hqb
    obtain ⟨_, main, sd, rfl⟩ := function_named hf hb'
    exact resolve_generates hresolved

theorem engine_emits (h : TriggerTranspiler.toSql d site.engine = .ok c) : Emits site d "_func" c := by
  have ⟨name, timing, op, hname, hident, hevent⟩ := engine_name_event site h
  rw [engine_toSql site hname hident hevent] at h
  obtain ⟨body, _, h⟩ := bind_ok h
  split at h
  · cases h
  · obtain ⟨_, _, h⟩ := bind_ok h
    obtain ⟨w, _, heq⟩ := map_ok h
    subst heq
    exact ⟨rfl, rfl, hname, fun q b hqb => by cases hqb; exact ⟨rfl, rfl⟩⟩

end

section

variable {db₀ db db' : Database}

structure Settled (db₀ db : Database) : Prop where
  intact : Intact db
  kept : Kept db₀ db

theorem transpileTriggerSql_ok {d : JsValue} {site : Site} {c : CompiledTrigger}
    (h : transpileTriggerSql d site = .ok (some c)) : TriggerActionCompiler.toSql d site.backend = .ok c := by
  unfold transpileTriggerSql at h
  obtain ⟨_, _, h⟩ := bind_ok h
  split at h
  · cases h
  · obtain ⟨_, _, h⟩ := bind_ok h
    obtain ⟨c', hc', heq⟩ := map_ok h
    cases heq
    exact hc'

theorem step_settled (h : Settled db₀ db) {e : Event} (hapart : Apart db e) (hs : step db e = some db') :
    Settled db₀ db' := by
  cases e with
  | manifest site d =>
    rw [step] at hs
    split at hs
    case h_1 c hc =>
      have ⟨hemits, hgenerates⟩ := backend_emits (transpileTriggerSql_ok hc)
      have hall : execAll c (c.statements.take c.statements.length) db = some db' := by
        rwa [List.take_length]
      have ⟨hintact, hkept⟩ := deployment_settled h.intact h.kept hemits
        (fun hsome => hapart (hgenerates hsome)) hall
      exact ⟨hintact, hkept⟩
    case h_2 =>
      cases hs
      exact h
    case h_3 => cases hs
  | deployTrigger site d executed =>
    rw [step] at hs
    split at hs
    case h_1 c hc =>
      have ⟨hintact, hkept⟩ := deployment_settled h.intact h.kept (engine_emits hc) (fun _ => hapart) hs
      exact ⟨hintact, hkept⟩
    case h_2 => cases hs
  | deleteTrigger key =>
    cases hs
    exact ⟨intact_dropped h.intact, h.kept⟩
  | createFunction q returnsTrigger source =>
    rw [step] at hs
    split at hs
    case isTrue => cases hs
    case isFalse hfree =>
      cases hs
      have hother : ∀ r f, db.functions r = some f → r ≠ q := by
        rintro r f hr rfl
        exact hfree (by rw [hr]; rfl)
      constructor
      · intro key t r b ht hown
        have ⟨hexec, hf⟩ := h.intact key t r b ht hown
        exact ⟨hexec, (setFunction_other _ (hother r _ hf)).trans hf⟩
      · intro r rt s h₀
        have hr := h.kept r rt s h₀
        exact (setFunction_other _ (hother r _ hr)).trans hr

/-- Deployments keep every trigger and every user function as long as each finds its function unshared. -/
theorem deployments_settled (hi : Intact db₀) (h : Run Apart db₀ db) : Intact db ∧ Kept db₀ db := by
  have hsettled : Settled db₀ db := by
    induction h with
    | start => exact ⟨hi, fun _ _ _ h₀ => h₀⟩
    | step _ ha hs ih => exact step_settled ih ha hs
  exact ⟨hsettled.intact, hsettled.kept⟩

end

def note (function : String) : JsValue :=
  .obj [("name", .str "note"), ("event", .str "AFTER_INSERT"),
    ("execute", .obj [("type", .str "FUNCTION"), ("name", .str function)])]

def noteBody (function : String) : Body :=
  ⟨none, .perform ⟨"tenant_acme_sales", function⟩ [], .new, false⟩

def noteTrigger (site : Site) (function : String) : CompiledTrigger :=
  engineTrigger site "note" .after .insert (noteBody function) none

theorem orders_compiled : TriggerTranspiler.toSql (note "a") orders.engine = .ok (noteTrigger orders "a") := by
  rfl

theorem items_compiled : TriggerTranspiler.toSql (note "b") items.engine = .ok (noteTrigger items "b") := by
  rfl

def nothing : Database := ⟨fun _ => none, fun _ => none⟩

theorem nothing_intact : Intact nothing := fun _ _ _ _ ht _ => nomatch ht

def logItems : JsValue :=
  .obj [("name", .str "log"), ("event", .str "AFTER_INSERT"),
    ("execute", .obj [("type", .str "FUNCTION"), ("name", .str "b")])]

def logTrigger : CompiledTrigger := engineTrigger items "log" .after .insert (noteBody "b") none

theorem log_compiled : TriggerTranspiler.toSql logItems items.engine = .ok logTrigger := by
  rfl

theorem two_deployed : ∃ db₁ db₂ db₃,
    step nothing (.createFunction ⟨"tenant_acme_sales", "stamp"⟩ true "RETURN NEW;") = some db₁ ∧
    step db₁ (.deployTrigger orders (note "a") 3) = some db₂ ∧
    step db₂ (.deployTrigger items logItems 3) = some db₃ ∧
    (∀ source, db₁.functions ⟨"tenant_acme_sales", "note_func"⟩ ≠ some (.user true source)) ∧
    (∀ key, db₁.triggers key = none) ∧
    (∀ source, db₂.functions ⟨"tenant_acme_sales", "log_func"⟩ ≠ some (.user true source)) ∧
    (∀ key t b, db₂.triggers key = some t → t.own ≠ some (⟨"tenant_acme_sales", "log_func"⟩, b)) ∧
    db₁.functions ⟨"tenant_acme_sales", "stamp"⟩ = some (.user true "RETURN NEW;") ∧
    db₃.triggers ⟨"tenant_acme_sales", "orders", "note"⟩ =
      some ⟨(noteTrigger orders "a").trigger, (noteTrigger orders "a").function⟩ ∧
    db₃.triggers ⟨"tenant_acme_sales", "items", "log"⟩ = some ⟨logTrigger.trigger, logTrigger.function⟩ := by
  simp only [step, orders_compiled, log_compiled]
  refine ⟨_, _, _, rfl, rfl, rfl, ?_, fun key => rfl, ?_, ?_, rfl, rfl, rfl⟩
  · intro source h
    cases h
  · intro source h
    simp [setTrigger, setFunction, nothing, orders] at h
  · intro key t b h hown
    by_cases hkey : key = keyOf (noteTrigger orders "a").trigger
    · rw [hkey, setTrigger_self, Option.some.injEq] at h
      rw [← h] at hown
      have named : some "note_func" = some "log_func" := congrArg (Option.map fun f : Qualified × Body => f.1.name) hown
      exact absurd named (by decide)
    · cases (((setTrigger_other _ hkey).trans (setTrigger_other _ hkey)).trans (setTrigger_other _ hkey)).symm.trans h

/-- A user's function and the triggers of two tables stay apart. -/
theorem orders_note_settled : ∃ db₀ db, Run Apart db₀ db ∧ Intact db ∧ Kept db₀ db ∧
    db₀.functions ⟨"tenant_acme_sales", "stamp"⟩ = some (.user true "RETURN NEW;") ∧
    (db.triggers ⟨"tenant_acme_sales", "orders", "note"⟩).isSome = true ∧
    (db.triggers ⟨"tenant_acme_sales", "items", "log"⟩).isSome = true := by
  obtain ⟨db₀, db₁, db, hs₀, hs₁, hs₂, hfree₁, hnone, hfree₂, hown₂, huser, hnote, hlog⟩ := two_deployed
  have hintact₀ : Intact db₀ := fun key _ _ _ ht _ => nomatch (hnone key).symm.trans ht
  have hapart₁ : Apart db₀ (.deployTrigger orders (note "a") 3) := by
    intro name hname
    cases hname
    exact ⟨hfree₁, fun key _ t ht => nomatch (hnone key).symm.trans ht⟩
  have hapart₂ : Apart db₁ (.deployTrigger items logItems 3) := by
    intro name hname
    cases hname
    exact ⟨hfree₂, fun key _ t ht b => hown₂ key t b ht⟩
  have hrun : Run Apart db₀ db := .step (.step .start hapart₁ hs₁) hapart₂ hs₂
  have ⟨hintact, hkept⟩ := deployments_settled hintact₀ hrun
  exact ⟨db₀, db, hrun, hintact, hkept, huser, by rw [hnote]; rfl, by rw [hlog]; rfl⟩

def deploy (site : Site) (function : String) (db : Database) : Option Database :=
  execAll (noteTrigger site function) (noteTrigger site function).statements db

theorem both_deployed : ∃ db₁ db₂, deploy orders "a" nothing = some db₁ ∧ deploy items "b" db₁ = some db₂ ∧
    db₂.triggers ⟨"tenant_acme_sales", "orders", "note"⟩ =
      some ⟨(noteTrigger orders "a").trigger, (noteTrigger orders "a").function⟩ ∧
    db₂.functions ⟨"tenant_acme_sales", "note_func"⟩ = some (.generated (noteBody "b")) :=
  ⟨_, _, rfl, rfl, rfl, rfl⟩

/-- The second table's deployment replaces the function the first table's trigger executes. -/
theorem orders_note_replaced : ¬ ∀ db₀ db : Database, Intact db₀ → Run (fun _ _ => True) db₀ db →
    Intact db ∧ Kept db₀ db := by
  intro h
  have ⟨db₁, db, h₁, h₂, ht, hf⟩ := both_deployed
  have hs₁ : step nothing (.deployTrigger orders (note "a") 3) = some db₁ := by
    rw [step, orders_compiled]
    exact h₁
  have hs₂ : step db₁ (.deployTrigger items (note "b") 3) = some db := by
    rw [step, items_compiled]
    exact h₂
  have hrun : Run (fun _ _ => True) nothing db := .step (.step .start trivial hs₁) trivial hs₂
  have hbody := ((h nothing db nothing_intact hrun).1 _ _ _ _ ht rfl).2
  have heq : noteBody "a" = noteBody "b" := DbFunction.generated.inj (Option.some.inj (hbody.symm.trans hf))
  have hne : ("a" : String) ≠ "b" := by decide
  have hmain := congrArg Body.main heq
  exact hne (Qualified.mk.inj (Main.perform.inj hmain).1).2

end DataFabric.TriggerDeployments
