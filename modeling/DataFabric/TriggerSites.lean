import DataFabric.TriggerBodies

set_option autoImplicit false

/-!
# One definition in two compilers

The backend resolves a definition by `action`, `execute` and `procedure` in this
order, the engine reads `execute` alone.
-/
namespace DataFabric.TriggerSites
open CharText JsValues TenantIdentifiers ExceptRules AstGuard TriggerDefinitions TriggerCompilers
  TriggerFirings TriggerBodies

/-- The table a trigger is attached to, inside the workspace, and the URL guard of each process. -/
structure Site where
  tenantId : String
  schema : String
  table : String
  allowFreeSql : Bool
  backendGuard : UrlGuard
  engineGuard : UrlGuard
  schema_ident : identRe schema = true
  table_ident : identRe table = true
  schema_own : belongsToTenant schema tenantId = true

namespace Site

variable (site : Site)

def opts : TriggerValidationOptions := ⟨site.allowFreeSql, some site.tenantId, site.backendGuard⟩

def backend : CompileCtx :=
  ⟨site.schema, site.table, some site.tenantId, site.allowFreeSql, site.backendGuard⟩

def engine : CompileCtx := ⟨site.schema, site.table, some site.tenantId, false, site.engineGuard⟩

end Site

/-- Neither compiler rejects the definition, and the triggers are the same. -/
def Agree (site : Site) (d : JsValue) : Prop :=
  ∃ a b, TriggerActionCompiler.toSql d site.backend = .ok a ∧
    TriggerTranspiler.toSql d site.engine = .ok b ∧ SameTrigger a b

inductive Source
  | raise (when_ message : JsValue)
  | call (function : JsValue) (args : List JsValue)
  | enqueue
  | other

def sourceOf (d : JsValue) : Source :=
  let action := d.get "action"
  let ex := d.get "execute"
  if action.truthy then
    if (action.get "sql").truthy then .other
    else match word (action.get "type") with
      | "RAISE" | "EXCEPTION" => .raise (action.get "when") (action.get "message")
      | "PERFORM" | "FUNCTION" =>
        .call (either (action.get "function") (action.get "name")) (action.get "args").elements
      | _ => .other
  else match word (ex.get "type") with
    | "EXCEPTION" => .raise (ex.get "when") (ex.get "message")
    | "FUNCTION" => .call (ex.get "name") []
    | "WEBHOOK" | "EMAIL" | "TELEGRAM" => .enqueue
    | _ => .other

def mentions (texts : List String) (delimiter : String) : Bool := texts.any (containsText delimiter)

/-- No delimiter of a generated body in what one of the compilers prints. -/
structure Plain (backendTexts engineTexts : List String) : Prop where
  backend : mentions backendTexts "$DFTRG$" = false
  tag : mentions engineTexts "$DFTRGE$" = false
  dollars : mentions engineTexts "$$" = false

/-- A refusal with one condition, and one that always refuses where the engine's function would stop a DELETE. -/
structure SameRefusal (d when_ m : JsValue) (stops : Bool) : Prop where
  known : knownOperators (.ofJs when_) = true
  structured : structured (.ofJs ((d.get "execute").get "when")) = true
  reading : ∀ tests, ∃ met, reading (backendHolds tests) (.ofJs when_) = some met ∧
    reading (engineHolds tests) (.ofJs ((d.get "execute").get "when")) = some met
  always : stops = true → TriggerFirings.reading untested (.ofJs ((d.get "execute").get "when")) = some true
  plain : Plain (printed backendOperands (.ofJs when_) ++ [message m "Trigger rule violation"])
    (printed engineOperands (.ofJs ((d.get "execute").get "when")) ++
      [message ((d.get "execute").get "message") "Business Rule Violation"])

structure SameCall (site : Site) (d function : JsValue) (args : List JsValue) (stops : Bool) : Prop where
  name : ∃ q, TriggerActionCompiler.qualify function site.backend = .ok q ∧
    TriggerTranspiler.functionName ((d.get "execute").get "name") site.schema site.engine = .ok q
  args : args = []
  proceeds : stops = false

def jobTexts (d : JsValue) : List String :=
  escaped (stringify (d.get "execute")) :: (scheduleJson (d.get "schedule")).toList

/-- One job is enqueued: the event is a text and in upper case already. -/
structure SameJob (site : Site) (d : JsValue) (stops : Bool) : Prop where
  event : ∃ s, d.get "event" = .str s ∧ upperCase s = s
  url : ((d.get "execute").get "url").isNullish = true ∨
    site.engineGuard ((d.get "execute").get "url") = .ok ()
  proceeds : stops = false
  plain : Plain (jobTexts d) (jobTexts d)

/-- The effect the engine reads from `execute.type`, as it stands, is the one of the backend. -/
def SameEffect (site : Site) (d : JsValue) (stops : Bool) : Prop :=
  match (d.get "execute").get "type", sourceOf d with
  | .str "EXCEPTION", .raise when_ m => SameRefusal d when_ m stops
  | .str "FUNCTION", .call function args => SameCall site d function args stops
  | .str "WEBHOOK", .enqueue | .str "EMAIL", .enqueue | .str "TELEGRAM", .enqueue => SameJob site d stops
  | _, _ => False

structure ReadAlike (site : Site) (d : JsValue) (timing : Timing) (op : Operation) : Prop where
  /-- `<name>_func` is an identifier as well -/
  name : ∃ s, d.get "name" = .str s ∧ s.toList.length ≤ 58
  event : TriggerTranspiler.eventRe.lookup (word (d.get "event")) = some (timing, op)
  given_timing : ∀ t, TriggerActionCompiler.eventTimings.lookup (word (d.get "timing")) = some t → t = timing
  given_events : (d.get "events").isArray = true →
    TriggerActionCompiler.recognised ((d.get "events").elements.map JsValue.text) = [op]
  level : asciiLower (orText (either (d.get "execution") (either (d.get "forEach") (d.get "scope"))) "row") ≠
    "statement"
  /-- the `WHEN` clause of the engine never fails -/
  condition : structured (.ofJs (d.get "condition")) = true ∧
    reading untested (.ofJs (d.get "condition")) = some true
  autoDrop : (d.get "autoDrop").truthy = false
  effect : SameEffect site d (stopsDelete timing op)

theorem unlessNullish_ok {v : JsValue} {check : Except FabricError Unit}
    (h : unlessNullish v check = .ok ()) (hv : v.isNullish = false) : check = .ok () := by
  rwa [unlessNullish, hv, if_neg Bool.false_ne_true] at h

theorem checkCondition_ok {v : JsValue} {what : String} (h : checkCondition v what = .ok ()) :
    admitted (.ofJs v) 0 = true :=
  validateCondition_ok (map_ok h).choose_spec.1

theorem ident_ok {v : JsValue} {what : String} (h : ident v what = .ok ()) :
    ∃ s, v = .str s ∧ identRe s = true := by
  match v with
  | .str s =>
    by_cases hs : identRe s = true
    · exact ⟨s, rfl, hs⟩
    · rw [ident, assertIdent, if_neg hs] at h
      cases h
  | .undefined | .null | .bool _ | .num _ | .arr _ | .obj _ => cases h

theorem assertIdent_ok {v : JsValue} {what r : String} (h : assertIdent v what = .ok r) :
    v = .str r ∧ identRe r = true := by
  match v with
  | .str s =>
    by_cases hs : identRe s = true
    · rw [assertIdent, if_pos hs] at h
      cases h
      exact ⟨rfl, hs⟩
    · rw [assertIdent, if_neg hs] at h
      cases h
  | .undefined | .null | .bool _ | .num _ | .arr _ | .obj _ => cases h

theorem assertIdent_str {s what : String} (h : identRe s = true) : assertIdent (.str s) what = .ok s := by
  rw [assertIdent, if_pos h]

theorem identRe_append {s suffix : String} (hs : identRe s = true) (hword : suffix.toList.all isWord = true) :
    identRe (s ++ suffix) = true ↔ s.toList.length + suffix.toList.length ≤ 63 := by
  unfold identRe matchesWord at hs ⊢
  rw [String.toList_append]
  cases hcs : s.toList with
  | nil =>
    rw [hcs] at hs
    cases hs
  | cons c cs =>
    rw [hcs] at hs
    simp only [Bool.and_eq_true, decide_eq_true_eq] at hs
    simp only [List.cons_append, List.all_append, Bool.and_eq_true, decide_eq_true_eq, hs.1.1, hs.1.2,
      hword, List.length_append, List.length_cons, true_and]
    omega

structure Accepted (site : Site) (d : JsValue) : Prop where
  name : (d.get "name").isNullish = false → ∃ s, d.get "name" = .str s ∧ identRe s = true
  events : (d.get "events").isArray = true →
    TriggerActionCompiler.recognised ((d.get "events").elements.map JsValue.text) ≠ []
  condition : (d.get "condition").isNullish = false → admitted (.ofJs (d.get "condition")) 0 = true
  execute : (d.get "execute").isNullish = false → validateExecute (d.get "execute") site.opts = .ok ()
  action : (d.get "action").isNullish = false → validateAction (d.get "action") site.opts = .ok ()
  schedule : (d.get "schedule").isNullish = false → validateSchedule (d.get "schedule") = .ok ()

theorem array_not_nullish {v : JsValue} (h : v.isArray = true) : v.isNullish = false := by
  match v with
  | .arr _ => rfl
  | .prim _ | .obj _ => cases h

theorem recognised_cons {e : String} (es : List String) (h : upperCase e ∈ eventWords) :
    TriggerActionCompiler.recognised (e :: es) ≠ [] := by
  have hall : ∀ w ∈ eventWords, (TriggerActionCompiler.operations.lookup w).isSome := by decide
  have ⟨op, hop⟩ := Option.isSome_iff_exists.mp (hall _ h)
  unfold TriggerActionCompiler.recognised
  rw [List.filterMap_cons]
  simp only [hop]
  exact List.cons_ne_nil _ _

theorem validateEvents_ok {v : JsValue} (h : validateEvents v = .ok ()) (harr : v.isArray = true) :
    TriggerActionCompiler.recognised (v.elements.map JsValue.text) ≠ [] := by
  unfold validateEvents at h
  rw [if_pos harr] at h
  obtain ⟨_, hlen, h⟩ := bind_ok h
  have hlen := require_ok hlen
  cases hv : v.elements with
  | nil =>
    rw [hv] at hlen
    cases hlen
  | cons e es =>
    have hword := forM_ok h e (hv ▸ List.mem_cons_self)
    exact recognised_cons _ (of_decide_eq_true (require_ok hword))

theorem accepted_of_ok {site : Site} {d : JsValue} (h : validateTriggerDefinition d site.opts = .ok ()) :
    Accepted site d := by
  unfold validateTriggerDefinition at h
  obtain ⟨_, _, h⟩ := bind_ok h
  obtain ⟨_, _, h⟩ := bind_ok h
  obtain ⟨_, _, h⟩ := bind_ok h
  obtain ⟨_, _, h⟩ := bind_ok h
  obtain ⟨_, hname, h⟩ := bind_ok h
  obtain ⟨_, _, h⟩ := bind_ok h
  obtain ⟨_, hevents, h⟩ := bind_ok h
  obtain ⟨_, _, h⟩ := bind_ok h
  obtain ⟨_, _, h⟩ := bind_ok h
  obtain ⟨_, hcondition, h⟩ := bind_ok h
  obtain ⟨_, hexecute, h⟩ := bind_ok h
  obtain ⟨_, haction, h⟩ := bind_ok h
  obtain ⟨_, _, h⟩ := bind_ok h
  obtain ⟨_, hschedule, _⟩ := bind_ok h
  exact
    { name := fun hn => ident_ok (unlessNullish_ok hname hn)
      events := fun harr => validateEvents_ok (unlessNullish_ok hevents (array_not_nullish harr)) harr
      condition := fun hn => checkCondition_ok (unlessNullish_ok hcondition hn)
      execute := unlessNullish_ok hexecute
      action := unlessNullish_ok haction
      schedule := unlessNullish_ok hschedule }

theorem identRe_ne_empty {s : String} (h : identRe s = true) : s ≠ "" := by
  rintro rfl
  cases h

theorem identRe_func {s : String} (h : identRe s = true) :
    identRe (s ++ "_func") = true ↔ s.toList.length ≤ 58 := by
  have hlen : "_func".toList.length = 5 := by decide
  rw [identRe_append h (by decide), hlen]
  omega

theorem identRe_fn {s : String} (h : identRe s = true) (hlen : s.toList.length ≤ 58) :
    identRe (s ++ "_fn") = true := by
  have hfn : "_fn".toList.length = 3 := by decide
  rw [identRe_append h (by decide), hfn]
  omega

section

variable (site : Site) {d : JsValue} {name : String} {timing : Timing} {op : Operation}

/-- The trigger the engine emits for a body and a `WHEN` clause. -/
def engineTrigger (name : String) (timing : Timing) (op : Operation) (body : Body) (w : Option RowCondition) :
    CompiledTrigger :=
  ⟨some (⟨site.schema, name ++ "_func"⟩, body),
    ⟨site.schema, site.table, name, timing, [op], .row, w, ⟨site.schema, name ++ "_func"⟩⟩⟩

theorem engine_toSql (hname : d.get "name" = .str name) (hident : identRe name = true)
    (hevent : TriggerTranspiler.eventRe.lookup (word (d.get "event")) = some (timing, op)) :
    TriggerTranspiler.toSql d site.engine =
      (TriggerTranspiler.generateFunctionBody d site.schema site.table name site.engine).bind fun body =>
        if body.mentions "$DFTRGE$" || body.mentions "$$" then
          unexpected "Trigger body must not contain dollar-quote delimiters"
        else (assertIdent (.str (name ++ "_func")) "function name").bind fun _ =>
          (TriggerTranspiler.whenOf d).map fun w => engineTrigger site name timing op body w := by
  have hinside : site.engine.tenantId.any (outside site.engine.schemaName) = false := by
    change (!belongsToTenant site.schema site.tenantId) = false
    rw [site.schema_own]
    rfl
  unfold TriggerTranspiler.toSql
  rw [hname, assertIdent_str hident, ok_bind,
    show assertIdent (.str site.engine.schemaName) "schema" = .ok site.schema from
      assertIdent_str site.schema_ident, ok_bind,
    show assertIdent (.str site.engine.tableName) "table" = .ok site.table from
      assertIdent_str site.table_ident, ok_bind]
  rw [show site.engine.tenantId.any (outside site.schema) = false from hinside,
    if_neg Bool.false_ne_true, hevent]
  change (TriggerTranspiler.generateFunctionBody d site.schema site.table name site.engine).bind _ = _
  congr 1
  funext body
  by_cases hm : (body.mentions "$DFTRGE$" || body.mentions "$$") = true
  · rw [if_pos hm, if_pos hm]
  · rw [if_neg hm, if_neg hm]
    cases hfn : assertIdent (.str (name ++ "_func")) "function name" with
    | error e => rfl
    | ok fn =>
      have hfn := (assertIdent_ok hfn).1
      cases hfn
      rw [ok_bind]
      change (TriggerTranspiler.whenOf d).bind _ = (TriggerTranspiler.whenOf d).map _
      cases TriggerTranspiler.whenOf d with
      | error e => rfl
      | ok w => rfl

theorem generateFunctionBody_eq :
    TriggerTranspiler.generateFunctionBody d site.schema site.table name site.engine =
      (TriggerTranspiler.autoDropOf d).bind fun autoDrop =>
        (TriggerTranspiler.execution d site.schema site.table name site.engine).map fun main =>
          ⟨autoDrop, main, .new, false⟩ := rfl

/-- The trigger the backend emits for the function it executes. -/
def backendTrigger (d : JsValue) (name : String) (executes : Qualified) (body : Option Body) : CompiledTrigger :=
  ⟨body.map fun b => (executes, b),
    ⟨site.schema, site.table, name, TriggerActionCompiler.timing d, TriggerActionCompiler.normalizeEvents d,
      TriggerActionCompiler.level d, none, executes⟩⟩

@[simp] theorem backendTrigger_timing (executes : Qualified) (body : Option Body) :
    (backendTrigger site d name executes body).trigger.timing = TriggerActionCompiler.timing d := by
  rw [backendTrigger]

@[simp] theorem backendTrigger_operations (executes : Qualified) (body : Option Body) :
    (backendTrigger site d name executes body).trigger.operations = TriggerActionCompiler.normalizeEvents d := by
  rw [backendTrigger]

@[simp] theorem backendTrigger_level (executes : Qualified) (body : Option Body) :
    (backendTrigger site d name executes body).trigger.level = TriggerActionCompiler.level d := by
  rw [backendTrigger]

theorem backend_toSql (hname : d.get "name" = .str name) (hident : identRe name = true) :
    TriggerActionCompiler.toSql d site.backend =
      (TriggerActionCompiler.resolve d name site.backend).bind fun resolved =>
        (TriggerActionCompiler.function resolved name site.backend).map fun f =>
          backendTrigger site d name f.1 f.2 := by
  have hne := identRe_ne_empty hident
  have hid : TriggerActionCompiler.ident (.str name) = .ok name := by
    have hnot : ((JsValue.str name).isNullish || decide (JsValue.str name = .str "")) = false := by
      simpa [JsValue.isNullish] using hne
    rw [TriggerActionCompiler.ident, hnot, if_neg Bool.false_ne_true, assertIdent_str hident]
  unfold TriggerActionCompiler.toSql
  rw [hname, hid, ok_bind, if_neg hne,
    show assertIdent (.str site.backend.schemaName) "schema" = .ok site.schema from
      assertIdent_str site.schema_ident, ok_bind,
    show assertIdent (.str site.backend.tableName) "table" = .ok site.table from
      assertIdent_str site.table_ident, ok_bind]
  rfl

theorem backend_function {main : Main} {securityDefiner : Bool} (hident : identRe name = true)
    (hlen : name.toList.length ≤ 58) :
    TriggerActionCompiler.function (.body main securityDefiner) name site.backend =
      if mentions main.texts "$DFTRG$" then
        unexpected "trigger body must not contain the $DFTRG$ delimiter"
      else .ok (⟨site.schema, name ++ "_fn"⟩, some ⟨none, main, .newOrOld, securityDefiner⟩) := by
  change (if mentions main.texts "$DFTRG$" = true then _ else _) = _
  by_cases hm : mentions main.texts "$DFTRG$" = true
  · rw [if_pos hm, if_pos hm]
  · rw [if_neg hm, if_neg hm,
      show assertIdent (.str site.backend.schemaName) "schema" = .ok site.schema from
        assertIdent_str site.schema_ident, ok_bind, assertIdent_str (identRe_fn hident hlen), ok_bind]

theorem engine_trigger (body : Body) (w : Option RowCondition) (h : body.returns = .new)
    (hsecurity : body.securityDefiner = false) :
    EngineTrigger (engineTrigger site name timing op body w) body.autoDrop w body.main timing := by
  refine ⟨⟨⟨site.schema, name ++ "_func"⟩, ?_⟩, rfl, rfl, rfl⟩
  rw [← h, ← hsecurity]
  rfl

/-- Both compilers succeed, on one trigger, with bodies that do the same. -/
structure Joined (d : JsValue) (name : String) (timing : Timing) (op : Operation) : Prop where
  named : d.get "name" = .str name
  ident : identRe name = true
  short : name.toList.length ≤ 58
  event : TriggerTranspiler.eventRe.lookup (word (d.get "event")) = some (timing, op)
  same_timing : TriggerActionCompiler.timing d = timing
  level : TriggerActionCompiler.level d = .row
  operations : TriggerActionCompiler.normalizeEvents d = [op]
  autoDrop : TriggerTranspiler.autoDropOf d = .ok none
  when_ : ∃ w, TriggerTranspiler.whenOf d = .ok w ∧ ∀ tests, whenHolds tests w = some true
  bodies : ∃ ma sd mb, TriggerActionCompiler.resolve d name site.backend = .ok (.body ma sd) ∧
    TriggerTranspiler.execution d site.schema site.table name site.engine = .ok mb ∧
    Plain ma.texts mb.texts ∧ SameBody ma mb (stopsDelete timing op)

theorem engine_name_event {b : CompiledTrigger} (h : TriggerTranspiler.toSql d site.engine = .ok b) :
    ∃ name timing op, d.get "name" = .str name ∧ identRe name = true ∧
      TriggerTranspiler.eventRe.lookup (word (d.get "event")) = some (timing, op) := by
  unfold TriggerTranspiler.toSql at h
  obtain ⟨name, hname, h⟩ := bind_ok h
  obtain ⟨_, _, h⟩ := bind_ok h
  obtain ⟨_, _, h⟩ := bind_ok h
  split at h
  · cases h
  · split at h
    case h_1 => cases h
    case h_2 timing op hevent =>
      exact ⟨name, timing, op, (assertIdent_ok hname).1, (assertIdent_ok hname).2, hevent⟩

theorem mentions_body (autoDrop : Option RowCondition) (main : Main) (returns : Returns) (sd : Bool)
    (delimiter : String) (h : Body.mentions ⟨autoDrop, main, returns, sd⟩ delimiter = false) :
    mentions main.texts delimiter = false := by
  unfold Body.mentions Body.texts at h
  rw [List.any_append, Bool.or_eq_false_iff] at h
  exact h.2

theorem joined_of_agree (h : Agree site d) : ∃ name timing op, Joined site d name timing op := by
  obtain ⟨a, b, ha, hb, hsame⟩ := h
  obtain ⟨name, timing, op, hname, hident, hevent⟩ := engine_name_event site hb
  rw [engine_toSql site hname hident hevent] at hb
  obtain ⟨body, hbody, hb⟩ := bind_ok hb
  rw [generateFunctionBody_eq] at hbody
  obtain ⟨autoDrop, hdrop, hbody⟩ := bind_ok hbody
  obtain ⟨mb, hmb, rfl⟩ := map_ok hbody
  split at hb
  case isTrue => cases hb
  case isFalse hm =>
    rw [Bool.not_eq_true, Bool.or_eq_false_iff] at hm
    obtain ⟨fn, hfn, hb⟩ := bind_ok hb
    obtain ⟨w, hw, rfl⟩ := map_ok hb
    have ⟨hfn, hfnIdent⟩ := assertIdent_ok hfn
    cases hfn
    have hshort := (identRe_func hident).mp hfnIdent
    have htrigger : EngineTrigger (engineTrigger site name timing op ⟨autoDrop, mb, .new, false⟩ w) autoDrop w mb timing :=
      engine_trigger site ⟨autoDrop, mb, .new, false⟩ w rfl rfl
    rw [backend_toSql site hname hident] at ha
    obtain ⟨resolved, hresolved, ha⟩ := bind_ok ha
    obtain ⟨f, hf, rfl⟩ := map_ok ha
    have htiming := (backendTrigger_timing site f.1 f.2).symm.trans hsame.timing
    have hlevel := (backendTrigger_level site f.1 f.2).symm.trans hsame.level
    have hoperations := (backendTrigger_operations site f.1 f.2).symm.trans hsame.operations
    have hfiring : ∀ m, ∃ f', CompiledTrigger.fire m (backendTrigger site d name f.1 f.2) op = some f' ∧
        CompiledTrigger.fire m (engineTrigger site name timing op ⟨autoDrop, mb, .new, false⟩ w) op = some f' :=
      fun m => hsame.firing m op (hsame.operations ▸ List.mem_singleton_self op)
    cases resolved with
    | procedure p =>
      obtain ⟨q, _, rfl⟩ := map_ok hf
      exact absurd hfiring (existing_differs rfl rfl htrigger op)
    | body ma sd =>
      rw [backend_function site hident hshort] at hf
      split at hf
      case isTrue => cases hf
      case isFalse hplain =>
        cases hf
        have hbackend : BackendTrigger (backendTrigger site d name ⟨site.schema, name ++ "_fn"⟩
            (some ⟨none, ma, .newOrOld, sd⟩)) ma := ⟨⟨_, sd, rfl⟩, rfl⟩
        have ⟨hwhen, hnone, hbody⟩ := (sameFiring_iff hbackend htrigger op).mp hfiring
        exact ⟨name, timing, op,
          { named := hname, ident := hident, short := hshort, event := hevent
            same_timing := htiming, level := hlevel, operations := hoperations
            autoDrop := hnone ▸ hdrop, when_ := ⟨w, hw, hwhen⟩
            bodies := ⟨ma, sd, mb, hresolved, hmb,
              ⟨Bool.eq_false_iff.mpr hplain, mentions_body _ _ _ _ _ hm.1, mentions_body _ _ _ _ _ hm.2⟩,
              hbody⟩ }⟩

theorem agree_of_joined (h : Joined site d name timing op) : Agree site d := by
  obtain ⟨w, hw, hwhen⟩ := h.when_
  obtain ⟨ma, sd, mb, hma, hmb, hplain, hbody⟩ := h.bodies
  have hmentions : ∀ delimiter, mentions mb.texts delimiter = false →
      Body.mentions ⟨none, mb, .new, false⟩ delimiter = false := fun _ hd => hd
  refine ⟨backendTrigger site d name ⟨site.schema, name ++ "_fn"⟩ (some ⟨none, ma, .newOrOld, sd⟩),
    engineTrigger site name timing op ⟨none, mb, .new, false⟩ w, ?_, ?_,
    (backendTrigger_timing site _ _).trans h.same_timing, (backendTrigger_level site _ _).trans h.level,
    (backendTrigger_operations site _ _).trans h.operations, fun m o ho => ?_⟩
  · rw [backend_toSql site h.named h.ident, hma]
    change (TriggerActionCompiler.function _ name site.backend).map _ = _
    rw [backend_function site h.ident h.short, hplain.backend]
    rfl
  · rw [engine_toSql site h.named h.ident h.event, generateFunctionBody_eq, h.autoDrop, hmb]
    change (if (_ || _) = true then _ else _) = _
    rw [hmentions _ hplain.tag, hmentions _ hplain.dollars, Bool.or_false, if_neg Bool.false_ne_true,
      assertIdent_str ((identRe_func h.ident).mpr h.short), hw]
    rfl
  · have ho : o = op := by
      rwa [backendTrigger_operations, h.operations, List.mem_singleton] at ho
    subst ho
    exact (sameFiring_iff ⟨⟨_, sd, rfl⟩, rfl⟩
      (engine_trigger site ⟨none, mb, .new, false⟩ w rfl rfl) o).mpr ⟨hwhen, rfl, hbody⟩ m

theorem agree_iff_joined : Agree site d ↔ ∃ name timing op, Joined site d name timing op :=
  ⟨joined_of_agree site, fun ⟨_, _, _, h⟩ => agree_of_joined site h⟩

end

theorem truthy_not_nullish {v : JsValue} (h : v.truthy = true) : v.isNullish = false := by
  match v with
  | .undefined | .null => cases h
  | .bool _ | .num _ | .str _ | .arr _ | .obj _ => rfl

theorem word_truthy {v : JsValue} (h : word v ≠ "") : v.truthy = true := by
  by_contra hv
  exact h (by rw [word, orText, if_neg hv]; decide)

theorem word_eq {v : JsValue} (h : v.truthy = true) : word v = upperCase v.text := by
  rw [word, orText, if_pos h]

theorem falsy_node {v : JsValue} (h : v.truthy = false) (leaf : Comparison → Bool) :
    structured (.ofJs v) = true ∧ reading leaf (.ofJs v) = some true := by
  match v with
  | .prim p =>
    constructor
    · match p with
      | .string s =>
        have hs : s = "" := by simpa [JsValue.truthy] using h
        rw [hs]
        rfl
      | .undefined | .null | .boolean _ | .number _ => rfl
    · rw [Condition.ofJs, reading, h, if_neg Bool.false_ne_true]
  | .arr _ | .obj _ => cases h

theorem event_word {e : JsValue} {timing : Timing} {op : Operation}
    (h : TriggerTranspiler.eventRe.lookup (word e) = some (timing, op)) :
    e.truthy = true ∧ (upperCase e.text, timing, op) ∈ TriggerTranspiler.eventRe := by
  obtain ⟨before, after, hmap, _⟩ := List.lookup_eq_some_iff.mp h
  have hmem : (word e, timing, op) ∈ TriggerTranspiler.eventRe :=
    hmap ▸ List.mem_append_right _ List.mem_cons_self
  have hne : ∀ p ∈ TriggerTranspiler.eventRe, p.1 ≠ "" := by decide
  have ht := word_truthy (hne _ hmem)
  rw [word_eq ht] at hmem
  exact ⟨ht, hmem⟩

theorem labels : ∀ p ∈ TriggerTranspiler.eventRe, TriggerActionCompiler.timingOfLabel p.1 = some p.2.1 ∧
    TriggerActionCompiler.recognised [TriggerActionCompiler.operationOfLabel p.1] = [p.2.2] := by
  decide

theorem timingFromEvent_eq {e : JsValue} {timing : Timing} {op : Operation}
    (h : TriggerTranspiler.eventRe.lookup (word e) = some (timing, op)) :
    TriggerActionCompiler.timingFromEvent e = some timing := by
  have ⟨ht, hmem⟩ := event_word h
  rw [TriggerActionCompiler.timingFromEvent, if_pos ht]
  exact (labels _ hmem).1

section

variable {d : JsValue} {timing : Timing} {op : Operation}

theorem timing_iff (h : TriggerTranspiler.eventRe.lookup (word (d.get "event")) = some (timing, op)) :
    TriggerActionCompiler.timing d = timing ↔
      ∀ t, TriggerActionCompiler.eventTimings.lookup (word (d.get "timing")) = some t → t = timing := by
  unfold TriggerActionCompiler.timing
  cases TriggerActionCompiler.eventTimings.lookup (word (d.get "timing")) with
  | none =>
    simp only [timingFromEvent_eq h, Option.getD_some, true_iff]
    intro t ht
    cases ht
  | some t =>
    simp only [Option.some.injEq]
    exact ⟨fun ht _ heq => heq ▸ ht, fun ht => ht t rfl⟩

theorem level_iff : TriggerActionCompiler.level d = .row ↔
    asciiLower (orText (either (d.get "execution") (either (d.get "forEach") (d.get "scope"))) "row") ≠
      "statement" := by
  unfold TriggerActionCompiler.level
  by_cases h : asciiLower (orText (either (d.get "execution") (either (d.get "forEach") (d.get "scope"))) "row") =
      "statement"
  · simp [h]
  · simp [h]

theorem operations_event (h : TriggerTranspiler.eventRe.lookup (word (d.get "event")) = some (timing, op))
    (harr : (d.get "events").isArray = false) : TriggerActionCompiler.normalizeEvents d = [op] := by
  have ⟨ht, hmem⟩ := event_word h
  have hop := (labels _ hmem).2
  unfold TriggerActionCompiler.normalizeEvents
  rw [harr, if_neg Bool.false_ne_true, ht, if_pos rfl]
  simp only [hop]

theorem operations_iff (h : TriggerTranspiler.eventRe.lookup (word (d.get "event")) = some (timing, op))
    (hevents : (d.get "events").isArray = true →
      TriggerActionCompiler.recognised ((d.get "events").elements.map JsValue.text) ≠ []) :
    TriggerActionCompiler.normalizeEvents d = [op] ↔ ((d.get "events").isArray = true →
      TriggerActionCompiler.recognised ((d.get "events").elements.map JsValue.text) = [op]) := by
  by_cases harr : (d.get "events").isArray = true
  · have hne := hevents harr
    simp only [harr, true_imp_iff]
    unfold TriggerActionCompiler.normalizeEvents
    rw [if_pos harr]
    cases hops : TriggerActionCompiler.recognised ((d.get "events").elements.map JsValue.text) with
    | nil => exact absurd hops hne
    | cons o os => simp only [hops]
  · simp only [operations_event h (Bool.eq_false_iff.mpr harr), harr, true_iff]
    exact fun hf => nomatch hf

theorem autoDrop_iff : TriggerTranspiler.autoDropOf d = .ok none ↔ (d.get "autoDrop").truthy = false := by
  unfold TriggerTranspiler.autoDropOf
  by_cases h : (d.get "autoDrop").truthy = true
  · rw [if_pos h, h]
    constructor
    · intro hok
      obtain ⟨_, _, hsome⟩ := map_ok hok
      cases hsome
    · intro hf
      cases hf
  · rw [if_neg h]
    simpa using h

theorem when_iff (hadmitted : (d.get "condition").isNullish = false → admitted (.ofJs (d.get "condition")) 0 = true) :
    (∃ w, TriggerTranspiler.whenOf d = .ok w ∧ ∀ tests, whenHolds tests w = some true) ↔
      structured (.ofJs (d.get "condition")) = true ∧
        reading untested (.ofJs (d.get "condition")) = some true := by
  unfold TriggerTranspiler.whenOf
  by_cases h : (d.get "condition").truthy = true
  · rw [if_pos h]
    have hadmitted := hadmitted (truthy_not_nullish h)
    constructor
    · rintro ⟨w, hw, hholds⟩
      obtain ⟨c, hc, rfl⟩ := map_ok hw
      have hstructured := engine_structured hc
      obtain ⟨c', hc', hreads⟩ := engine_reads hadmitted hstructured
      cases hc.symm.trans hc'
      exact ⟨hstructured, (engine_always_iff _).mp fun m => (hreads.holds m).symm.trans (hholds m)⟩
    · rintro ⟨hstructured, halways⟩
      obtain ⟨c, hc, hreads⟩ := engine_reads hadmitted hstructured
      refine ⟨some c, ?_, fun tests => (hreads.holds tests).trans ((engine_always_iff _).mpr halways tests)⟩
      rw [hc]
      rfl
  · rw [if_neg h]
    have hnode := falsy_node (Bool.eq_false_iff.mpr h) untested
    exact ⟨fun _ => hnode, fun _ => ⟨none, rfl, fun _ => rfl⟩⟩

end

def siteOf (table : String) (h : identRe table = true) : Site where
  tenantId := "acme"
  schema := "tenant_acme_sales"
  table := table
  allowFreeSql := false
  backendGuard := fun _ => .error ⟨"INVALID_WEBHOOK_URL", "Webhook URL is required"⟩
  engineGuard := fun _ => .error ⟨"INVALID_WEBHOOK_URL", "Webhook URL is required"⟩
  schema_ident := by decide
  table_ident := h
  schema_own := by decide

def orders : Site := siteOf "orders" (by decide)

def items : Site := siteOf "items" (by decide)

end DataFabric.TriggerSites
