import DataFabric.TriggerSites

set_option autoImplicit false

/-! # Where the two trigger compilers agree -/
namespace DataFabric.TriggerAgreement
open CharText JsValues TenantIdentifiers ExceptRules AstGuard TriggerDefinitions TriggerCompilers
  TriggerFirings TriggerBodies TriggerSites

section

variable {d : JsValue} {name : String} {ctx : CompileCtx}

theorem resolve_action (h : (d.get "action").truthy = true) :
    TriggerActionCompiler.resolve d name ctx =
      (TriggerActionCompiler.compileActionBody (d.get "action") ctx).map fun main => .body main false := by
  rw [TriggerActionCompiler.resolve, if_pos h]
  rfl

theorem resolve_execute (h : (d.get "action").truthy = false)
    (hword : word ((d.get "execute").get "type") ≠ "") :
    TriggerActionCompiler.resolve d name ctx = TriggerActionCompiler.compileExecute d name ctx := by
  rw [TriggerActionCompiler.resolve, h, if_neg Bool.false_ne_true, if_pos (word_truthy hword)]

theorem resolve_raise {w m : JsValue} (h : sourceOf d = .raise w m) :
    TriggerActionCompiler.resolve d name ctx =
      (TriggerActionCompiler.raise w m).map fun main => .body main false := by
  unfold sourceOf at h
  by_cases hact : (d.get "action").truthy = true
  · rw [resolve_action hact, TriggerActionCompiler.compileActionBody]
    simp only [hact, if_true] at h
    by_cases hsql : ((d.get "action").get "sql").truthy = true
    · simp only [hsql, if_true] at h
      cases h
    · rw [if_neg hsql]
      simp only [hsql, Bool.false_eq_true, if_false] at h
      split at h
      case h_1 hw | h_2 hw =>
        cases h
        rw [hw]
        rfl
      all_goals cases h
  · simp only [hact, Bool.false_eq_true, if_false] at h
    split at h
    case h_1 hw =>
      cases h
      rw [resolve_execute (Bool.eq_false_iff.mpr hact) (hw ▸ by decide), TriggerActionCompiler.compileExecute, hw]
      rfl
    all_goals cases h

theorem resolve_call {function : JsValue} {args : List JsValue} (h : sourceOf d = .call function args) :
    TriggerActionCompiler.resolve d name ctx = (TriggerActionCompiler.qualify function ctx).map fun q =>
      .body (.perform q (args.map TriggerActionCompiler.expr)) false := by
  unfold sourceOf at h
  by_cases hact : (d.get "action").truthy = true
  · rw [resolve_action hact, TriggerActionCompiler.compileActionBody]
    simp only [hact, if_true] at h
    by_cases hsql : ((d.get "action").get "sql").truthy = true
    · simp only [hsql, if_true] at h
      cases h
    · rw [if_neg hsql]
      simp only [hsql, Bool.false_eq_true, if_false] at h
      split at h
      case h_3 hw | h_4 hw =>
        cases h
        rw [hw]
        change (TriggerActionCompiler.performAction (d.get "action") ctx).map _ = _
        unfold TriggerActionCompiler.performAction
        cases TriggerActionCompiler.qualify (either ((d.get "action").get "function")
          ((d.get "action").get "name")) ctx <;> rfl
      all_goals cases h
  · simp only [hact, Bool.false_eq_true, if_false] at h
    split at h
    case h_2 hw =>
      cases h
      rw [resolve_execute (Bool.eq_false_iff.mpr hact) (hw ▸ by decide), TriggerActionCompiler.compileExecute, hw]
      change (TriggerActionCompiler.qualify ((d.get "execute").get "name") ctx).bind _ = _
      cases TriggerActionCompiler.qualify ((d.get "execute").get "name") ctx <;> rfl
    all_goals cases h

theorem resolve_enqueue (h : sourceOf d = .enqueue) :
    TriggerActionCompiler.resolve d name ctx =
      (TriggerActionCompiler.compileEnqueueBody d name ctx).map fun main => .body main true := by
  unfold sourceOf at h
  by_cases hact : (d.get "action").truthy = true
  · simp only [hact, if_true] at h
    split at h
    · cases h
    · split at h <;> cases h
  · simp only [hact, Bool.false_eq_true, if_false] at h
    split at h
    case h_3 hw | h_4 hw | h_5 hw =>
      rw [resolve_execute (Bool.eq_false_iff.mpr hact) (hw ▸ by decide), TriggerActionCompiler.compileExecute, hw]
      rfl
    all_goals cases h

theorem freeSql_statement {sql : JsValue} {ma : Main} (h : TriggerActionCompiler.freeSql sql ctx = .ok ma) :
    ∃ s, ma = .statement s := by
  unfold TriggerActionCompiler.freeSql at h
  obtain ⟨_, _, h⟩ := bind_ok h
  dsimp only at h
  split at h
  · cases h
  · exact ⟨_, (Except.ok.inj h).symm⟩

theorem insertAction_statement {a : JsValue} {ma : Main}
    (h : TriggerActionCompiler.insertAction a ctx = .ok ma) : ∃ s, ma = .statement s := by
  unfold TriggerActionCompiler.insertAction at h
  obtain ⟨_, _, h⟩ := bind_ok h
  split at h
  · cases h
  · obtain ⟨_, _, h⟩ := bind_ok h
    exact ⟨_, (Except.ok.inj h).symm⟩

theorem updateAction_statement {a : JsValue} {ma : Main}
    (h : TriggerActionCompiler.updateAction a ctx = .ok ma) : ∃ s, ma = .statement s := by
  unfold TriggerActionCompiler.updateAction at h
  obtain ⟨_, _, h⟩ := bind_ok h
  split at h
  · cases h
  · split at h
    · cases h
    · obtain ⟨_, _, h⟩ := bind_ok h
      obtain ⟨_, _, h⟩ := bind_ok h
      exact ⟨_, (Except.ok.inj h).symm⟩

theorem deleteAction_statement {a : JsValue} {ma : Main}
    (h : TriggerActionCompiler.deleteAction a ctx = .ok ma) : ∃ s, ma = .statement s := by
  unfold TriggerActionCompiler.deleteAction at h
  obtain ⟨_, _, h⟩ := bind_ok h
  split at h
  · cases h
  · obtain ⟨_, _, h⟩ := bind_ok h
    exact ⟨_, (Except.ok.inj h).symm⟩

theorem action_other {ma : Main} (h : sourceOf d = .other) (hact : (d.get "action").truthy = true)
    (hma : TriggerActionCompiler.compileActionBody (d.get "action") ctx = .ok ma) : ∃ s, ma = .statement s := by
  unfold sourceOf at h
  rw [if_pos hact] at h
  unfold TriggerActionCompiler.compileActionBody at hma
  by_cases hsql : ((d.get "action").get "sql").truthy = true
  · rw [if_pos hsql] at hma
    exact freeSql_statement hma
  · rw [if_neg hsql] at h hma
    split at hma
    case h_1 => exact insertAction_statement hma
    case h_2 => exact updateAction_statement hma
    case h_3 => exact deleteAction_statement hma
    case h_4 hw | h_5 hw | h_6 hw | h_7 hw =>
      rw [hw] at h
      cases h
    case h_8 => cases hma

theorem execute_other {ma : Main} {sd : Bool} (h : sourceOf d = .other) (hact : (d.get "action").truthy = false) :
    TriggerActionCompiler.compileExecute d name ctx ≠ .ok (.body ma sd) := by
  unfold sourceOf at h
  simp only [hact, Bool.false_eq_true, if_false] at h
  intro hma
  unfold TriggerActionCompiler.compileExecute at hma
  dsimp only at hma
  split at hma
  case h_1 => cases hma
  case h_2 hw | h_3 hw | h_4 hw | h_5 hw | h_6 hw =>
    rw [hw] at h
    cases h
  case h_7 => cases hma

theorem resolve_other {ma : Main} {sd : Bool} (h : sourceOf d = .other)
    (hma : TriggerActionCompiler.resolve d name ctx = .ok (.body ma sd)) : ∃ s, ma = .statement s := by
  by_cases hact : (d.get "action").truthy = true
  · rw [resolve_action hact] at hma
    obtain ⟨ma', hma', heq⟩ := map_ok hma
    cases heq
    exact action_other h hact hma'
  · have hact := Bool.eq_false_iff.mpr hact
    unfold TriggerActionCompiler.resolve at hma
    rw [hact, if_neg Bool.false_ne_true] at hma
    split at hma
    · exact absurd hma (execute_other h hact)
    · split at hma
      · split at hma <;> cases hma
      · split at hma <;> cases hma

end

structure ScheduleFacts (s : JsValue) : Prop where
  every : (s.get "every").isNullish = false → isIntIn (s.get "every") 1 1000000 = true
  after : (s.get "after").isNullish = false → isIntIn (s.get "after") 0 1000000 = true
  column : (s.get "column").isNullish = false → ∃ c, s.get "column" = .str c ∧ identRe c = true
  relativeColumn : (s.get "relativeColumn").isNullish = false →
    ∃ c, s.get "relativeColumn" = .str c ∧ identRe c = true

theorem schedule_facts {s : JsValue} (h : validateSchedule s = .ok ()) : ScheduleFacts s := by
  unfold validateSchedule at h
  obtain ⟨_, _, h⟩ := bind_ok h
  obtain ⟨_, _, h⟩ := bind_ok h
  obtain ⟨_, _, h⟩ := bind_ok h
  obtain ⟨_, _, h⟩ := bind_ok h
  obtain ⟨_, hevery, h⟩ := bind_ok h
  obtain ⟨_, hafter, h⟩ := bind_ok h
  obtain ⟨_, _, h⟩ := bind_ok h
  obtain ⟨_, _, h⟩ := bind_ok h
  obtain ⟨_, hcolumns, _⟩ := bind_ok h
  have hcolumn := forM_ok hcolumns "column" List.mem_cons_self
  have hrelative := forM_ok hcolumns "relativeColumn" (List.mem_cons_of_mem _ List.mem_cons_self)
  exact
    { every := fun hn => require_ok (unlessNullish_ok hevery hn)
      after := fun hn => require_ok (unlessNullish_ok hafter hn)
      column := fun hn => ident_ok (unlessNullish_ok hcolumn hn)
      relativeColumn := fun hn => ident_ok (unlessNullish_ok hrelative hn) }

theorem floorOf_le {v : JsValue} {lo hi : ℕ} (h : isIntIn v lo hi = true) : (floorOf v).toNat ≤ hi := by
  match v with
  | .num q =>
    simp only [isIntIn, Bool.and_eq_true, decide_eq_true_eq] at h
    have hq : ((q.num : ℤ) : ℚ) = q := Rat.den_eq_one_iff q |>.mp h.1
    have hle : q.num ≤ (hi : ℤ) := by
      have hle := h.2.2
      rw [← hq] at hle
      exact_mod_cast hle
    have hfloor : floorOf (.num q) = q.num := by
      change q.num / (q.den : ℤ) = q.num
      rw [h.1]
      exact Int.ediv_one _
    omega
  | .undefined | .null | .bool _ | .str _ | .arr _ | .obj _ => cases h

theorem coalesce_cases (v w : JsValue) : v.isNullish = false ∧ coalesce v w = v ∨ coalesce v w = w := by
  unfold coalesce
  cases v.isNullish <;> simp

theorem delayOf_le {s : JsValue} (h : ScheduleFacts s) : delayOf s ≤ 1000000 := by
  unfold delayOf
  rcases coalesce_cases (s.get "after") (coalesce (s.get "every") (.num 0)) with ⟨hn, hafter⟩ | hafter
  · rw [hafter]
    exact floorOf_le (h.after hn)
  · rw [hafter]
    rcases coalesce_cases (s.get "every") (.num 0) with ⟨hn, hevery⟩ | hevery
    · rw [hevery]
      exact floorOf_le (h.every hn)
    · rw [hevery]
      decide

theorem name_or_absent {v : JsValue} (h : v.isNullish = false → ∃ c, v = .str c ∧ identRe c = true) :
    v.isNullish = true ∨ ∃ c, v = .str c ∧ identRe c = true := by
  cases hn : v.isNullish with
  | true => exact .inl rfl
  | false => exact .inr (h hn)

theorem either_name {v w : JsValue} (hv : v.isNullish = true ∨ ∃ c, v = .str c ∧ identRe c = true)
    (hw : w.isNullish = true ∨ ∃ c, w = .str c ∧ identRe c = true) :
    (either v w).isNullish = true ∨ ∃ c, either v w = .str c ∧ identRe c = true := by
  unfold either
  cases v.truthy with
  | true => exact hv
  | false => exact hw

theorem anchor_agree {v : JsValue} (h : v.isNullish = true ∨ ∃ c, v = .str c ∧ identRe c = true) :
    ∃ c, TriggerActionCompiler.ident v = .ok c ∧
      (if v.truthy then (assertIdent v "schedule column").map some else .ok none) =
        .ok (if c = "" then none else some c) := by
  rcases h with hn | ⟨c, rfl, hc⟩
  · have hfalsy : v.truthy = false := by
      match v, hn with
      | .undefined, _ | .null, _ => rfl
    refine ⟨"", ?_, ?_⟩
    · rw [TriggerActionCompiler.ident, hn, Bool.true_or, if_pos rfl]
    · rw [hfalsy]
      rfl
  · have hne := identRe_ne_empty hc
    have hnot : ((JsValue.str c).isNullish || decide (JsValue.str c = .str "")) = false := by
      simpa [JsValue.isNullish] using hne
    have ht : (JsValue.str c).truthy = true := by simpa [JsValue.truthy] using hne
    refine ⟨c, ?_, ?_⟩
    · rw [TriggerActionCompiler.ident, hnot, if_neg Bool.false_ne_true, assertIdent_str hc]
    · rw [ht, if_pos rfl, assertIdent_str hc, if_neg hne]
      rfl

theorem runAt_agree {s : JsValue} (h : s.isNullish = false → validateSchedule s = .ok ()) :
    ∃ r, TriggerActionCompiler.runAtExpr s = .ok r ∧ TriggerTranspiler.runAtExpr s = .ok r := by
  unfold TriggerActionCompiler.runAtExpr TriggerTranspiler.runAtExpr
  by_cases hrel : isRelative s = true
  · rw [if_pos hrel, if_pos hrel]
    have hs : s.truthy = true := by
      rw [isRelative, Bool.and_eq_true] at hrel
      exact hrel.1
    have hfacts := schedule_facts (h (truthy_not_nullish hs))
    have ⟨c, hc, hc'⟩ := anchor_agree
      (either_name (name_or_absent hfacts.column) (name_or_absent hfacts.relativeColumn))
    rw [hc, TriggerTranspiler.anchorColumn, hc', Nat.min_eq_right (delayOf_le hfacts)]
    exact ⟨_, rfl, rfl⟩
  · rw [if_neg hrel, if_neg hrel]
    exact ⟨⟨none, none⟩, rfl, rfl⟩

theorem containsText_mem {needle s : String} (h : containsText needle s = true) {c : Char}
    (hc : c ∈ needle.toList) : c ∈ s.toList := by
  obtain ⟨t, ht, hprefix⟩ := List.any_eq_true.mp h
  have hsub := (List.isPrefixOf_iff_prefix.mp hprefix).subset hc
  exact (List.mem_tails _ _ |>.mp ht).subset hsub

theorem identRe_isWord {s : String} (h : identRe s = true) : ∀ c ∈ s.toList, isWord c = true := by
  unfold identRe matchesWord at h
  cases hcs : s.toList with
  | nil => exact fun _ hc => absurd hc List.not_mem_nil
  | cons d ds =>
    rw [hcs] at h
    simp only [Bool.and_eq_true, List.all_eq_true] at h
    intro c hc
    rcases List.mem_cons.mp hc with rfl | hc
    · have hstart := h.1.1
      unfold isWordStart at hstart
      unfold isWord
      rw [Bool.or_eq_true] at hstart ⊢
      exact hstart.imp_left fun ha => by rw [Char.isAlphanum, ha, Bool.true_or]
    · exact h.1.2 c hc

theorem identRe_no_dollar {s : String} (h : identRe s = true) : '$' ∉ s.toList := by
  intro hc
  have hword := identRe_isWord h '$' hc
  revert hword
  decide

theorem mentions_cons {t delimiter : String} {ts : List String} (ht : '$' ∉ t.toList)
    (hd : '$' ∈ delimiter.toList) : mentions (t :: ts) delimiter = mentions ts delimiter := by
  have hnot : containsText delimiter t = false := by
    by_contra h
    exact ht (containsText_mem (Bool.not_eq_false _ |>.mp h) hd)
  unfold mentions
  rw [List.any_cons, hnot, Bool.false_or]

theorem escaped_ident {s : String} (h : identRe s = true) : escaped s = s := by
  have hword := identRe_isWord h
  have hfilter : s.toList.filter (· ≠ '\x00') = s.toList := by
    refine List.filter_eq_self.mpr fun c hc => decide_eq_true ?_
    rintro rfl
    have hzero := hword _ hc
    revert hzero
    decide
  have hmap : (s.toList.flatMap fun c => if c = '\'' then ['\'', '\''] else [c]) = s.toList := by
    have hcongr : (s.toList.flatMap fun c => if c = '\'' then ['\'', '\''] else [c]) =
        s.toList.flatMap fun c => [c] := by
      refine List.flatMap_congr fun c hc => if_neg ?_
      rintro rfl
      have hquote := hword _ hc
      revert hquote
      decide
    rw [hcongr, List.flatMap_singleton']
  unfold escaped
  rw [hfilter, hmap, String.ofList_toList]

structure ExecuteFacts (site : Site) (ex : JsValue) : Prop where
  when_ : word (ex.get "type") = "EXCEPTION" → admitted (.ofJs (ex.get "when")) 0 = true
  url : unlessNullish (ex.get "url") (guardUrl site.backendGuard (ex.get "url")) = .ok ()
  tokenEndpoint : unlessNullish ((ex.get "auth").get "tokenEndpoint")
    (guardUrl site.backendGuard ((ex.get "auth").get "tokenEndpoint")) = .ok ()

theorem guardUrl_of_validated {site : Site} {v : JsValue} {what : String}
    (h : validateUrl v what site.opts = .ok ()) : guardUrl site.backendGuard v = .ok () := by
  unfold validateUrl at h
  unfold guardUrl
  cases hg : site.backendGuard v with
  | ok u => rfl
  | error e =>
    rw [show site.opts.assertSafeWebhookUrl v = .error e from hg] at h
    cases h

theorem guarded {site : Site} {v : JsValue} (what : String)
    (h : v.isNullish = false → validateUrl v what site.opts = .ok ()) :
    unlessNullish v (guardUrl site.backendGuard v) = .ok () := by
  unfold unlessNullish
  cases hn : v.isNullish with
  | true => rfl
  | false =>
    rw [if_neg Bool.false_ne_true]
    exact guardUrl_of_validated (h hn)

theorem nullish_get {v : JsValue} (h : v.isNullish = true) (key : String) : v.get key = .undefined := by
  match v, h with
  | .undefined, _ | .null, _ => rfl

theorem whenever_ok {b : Bool} {check : Except FabricError Unit} (h : whenever b check = .ok ())
    (hb : b = true) : check = .ok () := by
  rwa [whenever, hb, if_pos rfl] at h

theorem execute_facts {site : Site} {ex : JsValue} (h : validateExecute ex site.opts = .ok ()) :
    ExecuteFacts site ex := by
  unfold validateExecute at h
  obtain ⟨_, _, h⟩ := bind_ok h
  obtain ⟨_, _, h⟩ := bind_ok h
  obtain ⟨_, _, h⟩ := bind_ok h
  obtain ⟨_, _, h⟩ := bind_ok h
  obtain ⟨_, hexception, h⟩ := bind_ok h
  obtain ⟨_, hurl, h⟩ := bind_ok h
  obtain ⟨_, _, h⟩ := bind_ok h
  obtain ⟨_, _, h⟩ := bind_ok h
  obtain ⟨_, hauth, _⟩ := bind_ok h
  refine ⟨fun hw => ?_, guarded _ (unlessNullish_ok hurl), ?_⟩
  · obtain ⟨_, _, hcondition⟩ := bind_ok (whenever_ok hexception (decide_eq_true hw))
    exact checkCondition_ok hcondition
  · refine guarded "execute.auth.tokenEndpoint" fun hn => ?_
    have hauthNull : (ex.get "auth").isNullish = false := by
      by_contra hnull
      rw [nullish_get (Bool.not_eq_false _ |>.mp hnull)] at hn
      cases hn
    have hauth := unlessNullish_ok hauth hauthNull
    unfold validateAuth at hauth
    obtain ⟨_, _, hauth⟩ := bind_ok hauth
    obtain ⟨_, _, hauth⟩ := bind_ok hauth
    obtain ⟨_, _, hauth⟩ := bind_ok hauth
    exact unlessNullish_ok hauth hn

inductive Kind
  | refusal | job | call
  deriving DecidableEq

def Main.kind : Main → Kind
  | .raise _ _ => .refusal
  | .enqueue _ => .job
  | .perform _ _ | .statement _ => .call

theorem sameBody_kind {a b : Main} {stops : Bool} (h : SameBody a b stops) : Main.kind a = Main.kind b := by
  match a, b with
  | .raise _ _, .raise _ _ | .enqueue _, .enqueue _ => rfl
  | .perform _ _, .perform _ _ | .perform _ _, .statement _ | .statement _, .perform _ _
  | .statement _, .statement _ => rfl
  | .enqueue j, .raise _ _ | .enqueue j, .perform _ _ | .enqueue j, .statement _ =>
    exact absurd h (not_sameBody_enqueue rfl)
  | .raise _ _, .enqueue j | .perform _ _, .enqueue j | .statement _, .enqueue j =>
    exact absurd (sameBody_symm h) (not_sameBody_enqueue rfl)
  | .perform q args, .raise _ _ =>
    exact absurd h (not_sameBody_called (called_perform q args) fun _ => rfl)
  | .statement s, .raise _ _ =>
    exact absurd h (not_sameBody_called (called_statement s) fun _ => rfl)
  | .raise _ _, .perform q args =>
    exact absurd (sameBody_symm h) (not_sameBody_called (called_perform q args) fun _ => rfl)
  | .raise _ _, .statement s =>
    exact absurd (sameBody_symm h) (not_sameBody_called (called_statement s) fun _ => rfl)

section

variable {site : Site} {d : JsValue} {name : String}

/-- Both bodies compile, print no delimiter and do the same. -/
def BodiesMatch (site : Site) (d : JsValue) (name : String) (stops : Bool) : Prop :=
  ∃ ma sd mb, TriggerActionCompiler.resolve d name site.backend = .ok (.body ma sd) ∧
    TriggerTranspiler.execution d site.schema site.table name site.engine = .ok mb ∧
    Plain ma.texts mb.texts ∧ SameBody ma mb stops

theorem execution_exception (h : (d.get "execute").get "type" = .str "EXCEPTION") :
    TriggerTranspiler.execution d site.schema site.table name site.engine =
      (TriggerTranspiler.astToSql (.ofJs ((d.get "execute").get "when")) 0).map fun c =>
        .raise c (message ((d.get "execute").get "message") "Business Rule Violation") := by
  unfold TriggerTranspiler.execution
  dsimp only
  rw [h]
  rfl

theorem execution_function (h : (d.get "execute").get "type" = .str "FUNCTION") :
    TriggerTranspiler.execution d site.schema site.table name site.engine =
      (TriggerTranspiler.functionName ((d.get "execute").get "name") site.schema site.engine).map fun q =>
        .perform q [] := by
  unfold TriggerTranspiler.execution
  dsimp only
  rw [h]
  change Except.bind _ _ = _
  cases TriggerTranspiler.functionName ((d.get "execute").get "name") site.schema site.engine <;> rfl

def Durable (type : String) : Prop := type = "WEBHOOK" ∨ type = "EMAIL" ∨ type = "TELEGRAM"

theorem execution_durable {type : String} (h : (d.get "execute").get "type" = .str type) (htype : Durable type) :
    TriggerTranspiler.execution d site.schema site.table name site.engine =
      TriggerTranspiler.enqueue d type site.schema site.table name site.engine := by
  unfold TriggerTranspiler.execution
  dsimp only
  rw [h]
  rcases htype with rfl | rfl | rfl <;> rfl

theorem enqueue_kind {type : String} {mb : Main}
    (h : TriggerTranspiler.enqueue d type site.schema site.table name site.engine = .ok mb) :
    Main.kind mb = .job := by
  unfold TriggerTranspiler.enqueue at h
  obtain ⟨_, _, h⟩ := bind_ok h
  obtain ⟨_, _, h⟩ := bind_ok h
  cases h
  rfl

theorem execution_kind {mb : Main}
    (h : TriggerTranspiler.execution d site.schema site.table name site.engine = .ok mb) :
    (d.get "execute").get "type" = .str "EXCEPTION" ∧ Main.kind mb = .refusal ∨
      (d.get "execute").get "type" = .str "FUNCTION" ∧ (∃ q, mb = .perform q []) ∨
      (∃ type, (d.get "execute").get "type" = .str type ∧ (Durable type ∨ type = "AUDIT")) ∧
        Main.kind mb = .job := by
  unfold TriggerTranspiler.execution at h
  dsimp only at h
  split at h
  case h_1 ht =>
    obtain ⟨_, _, h⟩ := bind_ok h
    cases h
    exact .inl ⟨ht, rfl⟩
  case h_2 ht => exact .inr (.inr ⟨⟨_, ht, .inl (.inl rfl)⟩, enqueue_kind h⟩)
  case h_3 ht => exact .inr (.inr ⟨⟨_, ht, .inr rfl⟩, enqueue_kind h⟩)
  case h_4 ht => exact .inr (.inr ⟨⟨_, ht, .inl (.inr (.inl rfl))⟩, enqueue_kind h⟩)
  case h_5 ht => exact .inr (.inr ⟨⟨_, ht, .inl (.inr (.inr rfl))⟩, enqueue_kind h⟩)
  case h_6 ht =>
    obtain ⟨q, _, h⟩ := bind_ok h
    cases h
    exact .inr (.inl ⟨ht, q, rfl⟩)
  case h_7 => split at h <;> cases h

theorem raise_iff {w m : JsValue} {stops : Bool} (hsource : sourceOf d = .raise w m)
    (ht : (d.get "execute").get "type" = .str "EXCEPTION")
    (hadmitted : admitted (.ofJs ((d.get "execute").get "when")) 0 = true) :
    BodiesMatch site d name stops ↔ SameRefusal d w m stops := by
  unfold BodiesMatch
  rw [resolve_raise hsource, execution_exception ht]
  constructor
  · rintro ⟨ma, sd, mb, hma, hmb, hplain, hsame⟩
    obtain ⟨main, hraise, heq⟩ := map_ok hma
    cases heq
    obtain ⟨c, hc, rfl⟩ := map_ok hmb
    obtain ⟨r, hr, heq⟩ := bind_ok hraise
    cases heq
    have hknown := backend_known hr
    have hstructured := engine_structured hc
    obtain ⟨r', hr', hreads⟩ := backend_reads hknown
    cases hr.symm.trans hr'
    obtain ⟨c', hc', hreads'⟩ := engine_reads hadmitted hstructured
    cases hc.symm.trans hc'
    have hsame := sameBody_raise.mp hsame
    refine ⟨hknown, hstructured, fun tests => ?_, fun hstops => ?_, ?_⟩
    · have ⟨met, hm, hm', _⟩ := hsame tests
      exact ⟨met, (hreads.holds tests).symm.trans hm, (hreads'.holds tests).symm.trans hm'⟩
    · refine (engine_always_iff _).mp fun tests => ?_
      have ⟨met, _, hm', hf⟩ := hsame tests
      rw [← hreads'.holds tests, hm']
      cases met with
      | true => rfl
      | false => cases hstops.symm.trans (hf rfl)
    · rw [← hreads.texts, ← hreads'.texts]
      exact hplain
  · intro h
    obtain ⟨r, hr, hreads⟩ := backend_reads h.known
    obtain ⟨c, hc, hreads'⟩ := engine_reads hadmitted h.structured
    refine ⟨.raise r (message m "Trigger rule violation"), false,
      .raise c (message ((d.get "execute").get "message") "Business Rule Violation"), ?_, ?_, ?_, ?_⟩
    · rw [TriggerActionCompiler.raise, hr]
      rfl
    · rw [hc]
      rfl
    · have hplain := h.plain
      rw [← hreads.texts, ← hreads'.texts] at hplain
      exact hplain
    · refine sameBody_raise.mpr fun tests => ?_
      have ⟨met, hm, hm'⟩ := h.reading tests
      refine ⟨met, (hreads.holds tests).trans hm, (hreads'.holds tests).trans hm', fun hf => ?_⟩
      by_contra hstops
      have halways := (engine_always_iff _).mpr (h.always (Bool.not_eq_false _ |>.mp hstops)) tests
      rw [hm', hf] at halways
      cases halways

theorem functionName_ident {v : JsValue} {ctx : CompileCtx} {schema : String} {q : Qualified}
    (h : TriggerTranspiler.functionName v schema ctx = .ok q) (hschema : identRe schema = true) :
    identRe q.schema = true ∧ identRe q.name = true := by
  unfold TriggerTranspiler.functionName at h
  dsimp only at h
  split at h
  · split at h
    · obtain ⟨fs, hfs, h⟩ := bind_ok h
      split at h
      · cases h
      · obtain ⟨fname, hfname, h⟩ := bind_ok h
        cases h
        exact ⟨(assertIdent_ok hfs).2, (assertIdent_ok hfname).2⟩
    · cases h
  · obtain ⟨fname, hfname, h⟩ := map_ok h
    cases h
    exact ⟨hschema, (assertIdent_ok hfname).2⟩

theorem plain_call {q : Qualified} (hschema : identRe q.schema = true) (hname : identRe q.name = true) :
    Plain (Main.perform q []).texts (Main.perform q []).texts := by
  have hnone : ∀ delimiter : String, '$' ∈ delimiter.toList →
      mentions (Main.perform q []).texts delimiter = false := by
    intro delimiter hd
    change mentions [q.schema, q.name] delimiter = false
    rw [mentions_cons (identRe_no_dollar hschema) hd, mentions_cons (identRe_no_dollar hname) hd]
    rfl
  exact ⟨hnone _ (by decide), hnone _ (by decide), hnone _ (by decide)⟩

theorem call_iff {function : JsValue} {args : List JsValue} {stops : Bool}
    (hsource : sourceOf d = .call function args) (ht : (d.get "execute").get "type" = .str "FUNCTION") :
    BodiesMatch site d name stops ↔ SameCall site d function args stops := by
  unfold BodiesMatch
  rw [resolve_call hsource, execution_function ht]
  constructor
  · rintro ⟨ma, sd, mb, hma, hmb, _, hsame⟩
    obtain ⟨q, hq, heq⟩ := map_ok hma
    cases heq
    obtain ⟨q', hq', rfl⟩ := map_ok hmb
    have ⟨heq, hstops⟩ := (sameBody_called (called_perform _ _) (called_perform _ _)).mp hsame
    have ⟨hqq, hargs⟩ := Main.perform.inj heq
    exact ⟨⟨q, hq, hqq ▸ hq'⟩, List.map_eq_nil_iff.mp hargs, hstops⟩
  · intro h
    obtain ⟨q, hq, hq'⟩ := h.name
    have ⟨hschema, hname⟩ := functionName_ident hq' site.schema_ident
    refine ⟨.perform q [], false, .perform q [], ?_, ?_, plain_call hschema hname, ?_⟩
    · rw [hq, h.args]
      rfl
    · rw [hq']
      rfl
    · exact (sameBody_called (called_perform _ _) (called_perform _ _)).mpr ⟨rfl, h.proceeds⟩

def jobOf (site : Site) (d : JsValue) (name type event : String) (runAt : RunAt) : EnqueuedJob :=
  { triggerName := name, event, actionType := type, tableName := site.table, schemaName := site.schema
    execute := escaped (stringify (d.get "execute")), schedule := scheduleJson (d.get "schedule"), runAt
    maxAttempts := maxAttempts (d.get "schedule") }

theorem backend_enqueue {type : String} (hfacts : ExecuteFacts site (d.get "execute"))
    (ht : (d.get "execute").get "type" = .str type) (htype : Durable type) :
    TriggerActionCompiler.compileEnqueueBody d name site.backend =
      (TriggerActionCompiler.eventName d).bind fun event =>
        (TriggerActionCompiler.runAtExpr (d.get "schedule")).map fun runAt =>
          .enqueue (jobOf site d name type event runAt) := by
  have hword : word ((d.get "execute").get "type") = type := by
    rw [ht]
    rcases htype with rfl | rfl | rfl <;> decide
  unfold TriggerActionCompiler.compileEnqueueBody
  dsimp only
  rw [show site.backend.assertSafeWebhookUrl = site.backendGuard from rfl, hfacts.url, ok_bind,
    hfacts.tokenEndpoint, ok_bind,
    show assertIdent (.str site.backend.schemaName) "schema" = .ok site.schema from
      assertIdent_str site.schema_ident, ok_bind,
    show assertIdent (.str site.backend.tableName) "table" = .ok site.table from
      assertIdent_str site.table_ident, ok_bind, hword]
  cases TriggerActionCompiler.eventName d with
  | error e => rfl
  | ok event => cases TriggerActionCompiler.runAtExpr (d.get "schedule") <;> rfl

theorem compileEnqueueBody_kind {ctx : CompileCtx} {main : Main}
    (h : TriggerActionCompiler.compileEnqueueBody d name ctx = .ok main) : Main.kind main = .job := by
  unfold TriggerActionCompiler.compileEnqueueBody at h
  obtain ⟨_, _, h⟩ := bind_ok h
  obtain ⟨_, _, h⟩ := bind_ok h
  obtain ⟨_, _, h⟩ := bind_ok h
  obtain ⟨_, _, h⟩ := bind_ok h
  obtain ⟨_, _, h⟩ := bind_ok h
  obtain ⟨_, _, h⟩ := bind_ok h
  cases h
  rfl

theorem engine_enqueue (type : String) :
    TriggerTranspiler.enqueue d type site.schema site.table name site.engine =
      (unlessNullish ((d.get "execute").get "url") (guardUrl site.engineGuard ((d.get "execute").get "url"))).bind
        fun _ => (TriggerTranspiler.runAtExpr (d.get "schedule")).map fun runAt =>
          .enqueue (jobOf site d name type (escaped (d.get "event").text) runAt) := by
  unfold TriggerTranspiler.enqueue
  dsimp only
  rw [show site.engine.assertSafeWebhookUrl = site.engineGuard from rfl]
  cases unlessNullish ((d.get "execute").get "url")
    (guardUrl site.engineGuard ((d.get "execute").get "url")) with
  | error e => rfl
  | ok u => cases TriggerTranspiler.runAtExpr (d.get "schedule") <;> rfl

theorem eventName_ok {event : String} (ht : (d.get "event").truthy = true)
    (h : TriggerActionCompiler.eventName d = .ok event) :
    ∃ s, d.get "event" = .str s ∧ identRe s = true ∧ event = upperCase s := by
  unfold TriggerActionCompiler.eventName at h
  rw [either, if_pos ht] at h
  obtain ⟨s, hs, rfl⟩ := map_ok h
  unfold TriggerActionCompiler.ident at hs
  split at hs
  case isTrue hempty =>
    rw [Bool.or_eq_true, decide_eq_true_eq] at hempty
    rcases hempty with hnull | hempty
    · rw [truthy_not_nullish ht] at hnull
      cases hnull
    · rw [hempty] at ht
      cases ht
  case isFalse => exact ⟨s, (assertIdent_ok hs).1, (assertIdent_ok hs).2, rfl⟩

theorem eventName_str {s : String} (h : d.get "event" = .str s) (hs : identRe s = true) :
    TriggerActionCompiler.eventName d = .ok (upperCase s) := by
  have hne := identRe_ne_empty hs
  have hnot : ((JsValue.str s).isNullish || decide (JsValue.str s = .str "")) = false := by
    simpa [JsValue.isNullish] using hne
  have ht : (JsValue.str s).truthy = true := by simpa [JsValue.truthy] using hne
  rw [TriggerActionCompiler.eventName, h, either, if_pos ht, TriggerActionCompiler.ident, hnot,
    if_neg Bool.false_ne_true, assertIdent_str hs]
  rfl

theorem mentions_job {type event : String} {runAt : RunAt} {delimiter : String} (hd : '$' ∈ delimiter.toList)
    (hname : identRe name = true) (htype : Durable type) (hevent : identRe event = true) :
    mentions (Main.enqueue (jobOf site d name type event runAt)).texts delimiter =
      mentions (jobTexts d) delimiter := by
  have htypeText : '$' ∉ type.toList := by rcases htype with rfl | rfl | rfl <;> decide
  change mentions (name :: event :: type :: site.table :: site.schema :: jobTexts d) delimiter = _
  rw [mentions_cons (identRe_no_dollar hname) hd, mentions_cons (identRe_no_dollar hevent) hd,
    mentions_cons htypeText hd, mentions_cons (identRe_no_dollar site.table_ident) hd,
    mentions_cons (identRe_no_dollar site.schema_ident) hd]

theorem plain_job_iff {type event : String} {runAt : RunAt} (hname : identRe name = true)
    (htype : Durable type) (hevent : identRe event = true) :
    Plain (Main.enqueue (jobOf site d name type event runAt)).texts
      (Main.enqueue (jobOf site d name type event runAt)).texts ↔ Plain (jobTexts d) (jobTexts d) := by
  have hall : ∀ delimiter : String, '$' ∈ delimiter.toList →
      mentions (Main.enqueue (jobOf site d name type event runAt)).texts delimiter =
        mentions (jobTexts d) delimiter := fun _ hd => mentions_job hd hname htype hevent
  constructor
  · rintro ⟨h1, h2, h3⟩
    exact ⟨(hall _ (by decide)).symm.trans h1, (hall _ (by decide)).symm.trans h2,
      (hall _ (by decide)).symm.trans h3⟩
  · rintro ⟨h1, h2, h3⟩
    exact ⟨(hall _ (by decide)).trans h1, (hall _ (by decide)).trans h2, (hall _ (by decide)).trans h3⟩

theorem engine_url_iff : (unlessNullish ((d.get "execute").get "url")
      (guardUrl site.engineGuard ((d.get "execute").get "url")) = .ok ()) ↔
    ((d.get "execute").get "url").isNullish = true ∨ site.engineGuard ((d.get "execute").get "url") = .ok () := by
  unfold unlessNullish guardUrl
  cases hn : ((d.get "execute").get "url").isNullish with
  | true => simp
  | false =>
    rw [if_neg Bool.false_ne_true]
    cases hg : site.engineGuard ((d.get "execute").get "url") with
    | ok u => simp
    | error e => simp [fail]

theorem event_ident {s : String} {timing : Timing} {op : Operation}
    (hevent : TriggerTranspiler.eventRe.lookup (word (d.get "event")) = some (timing, op))
    (h : d.get "event" = .str s) (hs : upperCase s = s) : identRe s = true := by
  have hmem := (event_word hevent).2
  rw [h, show (JsValue.str s).text = s from rfl, hs] at hmem
  have hall : ∀ p ∈ TriggerTranspiler.eventRe, identRe p.1 = true := by decide
  exact hall _ hmem

theorem enqueue_iff {type : String} {stops : Bool} {timing : Timing} {op : Operation}
    (hsource : sourceOf d = .enqueue) (ht : (d.get "execute").get "type" = .str type) (htype : Durable type)
    (hname : identRe name = true) (hfacts : ExecuteFacts site (d.get "execute"))
    (hschedule : (d.get "schedule").isNullish = false → validateSchedule (d.get "schedule") = .ok ())
    (hevent : TriggerTranspiler.eventRe.lookup (word (d.get "event")) = some (timing, op)) :
    BodiesMatch site d name stops ↔ SameJob site d stops := by
  have ⟨runAt, hbackend, hengine⟩ := runAt_agree hschedule
  unfold BodiesMatch
  rw [resolve_enqueue hsource, execution_durable ht htype, backend_enqueue hfacts ht htype,
    engine_enqueue, hbackend, hengine]
  constructor
  · rintro ⟨ma, sd, mb, hma, hmb, hplain, hsame⟩
    obtain ⟨main, hmain, heq⟩ := map_ok hma
    cases heq
    obtain ⟨event, hname', hmain⟩ := bind_ok hmain
    cases hmain
    obtain ⟨_, hurl, hmb⟩ := bind_ok hmb
    cases hmb
    have ⟨hjob, hstops⟩ := sameBody_enqueue.mp hsame
    have hsameEvent : event = escaped (d.get "event").text := congrArg EnqueuedJob.event hjob
    obtain ⟨s, hs, hident, rfl⟩ := eventName_ok (event_word hevent).1 hname'
    have htext : escaped (d.get "event").text = s := by
      rw [hs]
      exact escaped_ident hident
    have hupper : upperCase s = s := hsameEvent.trans htext
    rw [← hsameEvent, hupper] at hplain
    exact ⟨⟨s, hs, hupper⟩, engine_url_iff.mp hurl, hstops, (plain_job_iff hname htype hident).mp hplain⟩
  · intro h
    obtain ⟨s, hs, hupper⟩ := h.event
    have hident := event_ident hevent hs hupper
    have htext : escaped (d.get "event").text = s := by
      rw [hs]
      exact escaped_ident hident
    refine ⟨.enqueue (jobOf site d name type s runAt), true, .enqueue (jobOf site d name type s runAt), ?_, ?_,
      (plain_job_iff hname htype hident).mpr h.plain, sameBody_enqueue.mpr ⟨rfl, h.proceeds⟩⟩
    · rw [eventName_str hs hident, hupper]
      rfl
    · rw [engine_url_iff.mpr h.url, htext]
      rfl

theorem enqueue_type {type : String} (hsource : sourceOf d = .enqueue)
    (ht : (d.get "execute").get "type" = .str type) (htype : Durable type ∨ type = "AUDIT") : Durable type := by
  rcases htype with htype | rfl
  · exact htype
  · have hword : word ((d.get "execute").get "type") = "AUDIT" := by
      rw [ht]
      decide
    unfold sourceOf at hsource
    by_cases hact : (d.get "action").truthy = true
    · simp only [hact, if_true] at hsource
      split at hsource
      · cases hsource
      · split at hsource <;> cases hsource
    · simp only [hact, Bool.false_eq_true, if_false, hword] at hsource
      cases hsource

theorem bodiesMatch_iff {stops : Bool} {timing : Timing} {op : Operation} (hacc : Accepted site d)
    (hname : identRe name = true)
    (hevent : TriggerTranspiler.eventRe.lookup (word (d.get "event")) = some (timing, op)) :
    BodiesMatch site d name stops ↔ SameEffect site d stops := by
  have hexecute : ∀ type : String, (d.get "execute").get "type" = .str type →
      ExecuteFacts site (d.get "execute") := by
    intro type ht
    refine execute_facts (hacc.execute ?_)
    by_contra hnull
    rw [nullish_get (Bool.not_eq_false _ |>.mp hnull)] at ht
    cases ht
  constructor
  · intro h
    have ⟨ma, sd, mb, hma, hmb, _, hsame⟩ := h
    have hkind := sameBody_kind hsame
    unfold SameEffect
    cases hsource : sourceOf d with
    | raise w m =>
      rw [resolve_raise hsource] at hma
      obtain ⟨main, hmain, heq⟩ := map_ok hma
      cases heq
      obtain ⟨r, _, heq⟩ := bind_ok hmain
      cases heq
      rcases execution_kind hmb with ⟨ht, _⟩ | ⟨_, q, rfl⟩ | ⟨_, hk⟩
      · rw [ht]
        have hword : word ((d.get "execute").get "type") = "EXCEPTION" := by
          rw [ht]
          decide
        exact (raise_iff hsource ht ((hexecute _ ht).when_ hword)).mp h
      · cases hkind
      · cases hkind.trans hk
    | call function args =>
      rw [resolve_call hsource] at hma
      obtain ⟨q', _, heq⟩ := map_ok hma
      cases heq
      rcases execution_kind hmb with ⟨_, hk⟩ | ⟨ht, q, rfl⟩ | ⟨_, hk⟩
      · cases hkind.trans hk
      · rw [ht]
        exact (call_iff hsource ht).mp h
      · cases hkind.trans hk
    | enqueue =>
      rw [resolve_enqueue hsource] at hma
      obtain ⟨main, hmain, heq⟩ := map_ok hma
      cases heq
      have hjobKind := compileEnqueueBody_kind hmain
      rcases execution_kind hmb with ⟨_, hk⟩ | ⟨_, q, rfl⟩ | ⟨⟨type, ht, htype⟩, _⟩
      · cases hjobKind.symm.trans (hkind.trans hk)
      · cases hjobKind.symm.trans hkind
      · have htype := enqueue_type hsource ht htype
        have hjob := (enqueue_iff hsource ht htype hname (hexecute _ ht) hacc.schedule hevent).mp h
        rw [ht]
        rcases htype with rfl | rfl | rfl <;> exact hjob
    | other =>
      obtain ⟨s, rfl⟩ := resolve_other hsource hma
      rcases execution_kind hmb with ⟨_, hk⟩ | ⟨_, q, rfl⟩ | ⟨_, hk⟩
      · cases hkind.trans hk
      · cases ((sameBody_called (called_statement s) (called_perform q [])).mp hsame).1
      · cases hkind.trans hk
  · intro h
    unfold SameEffect at h
    split at h
    case h_1 w m ht hsource =>
      have hword : word ((d.get "execute").get "type") = "EXCEPTION" := by
        rw [ht]
        decide
      exact (raise_iff hsource ht ((hexecute _ ht).when_ hword)).mpr h
    case h_2 ht hsource => exact (call_iff hsource ht).mpr h
    case h_3 ht hsource | h_4 ht hsource | h_5 ht hsource =>
      exact (enqueue_iff hsource ht (by simp [Durable]) hname (hexecute _ ht) hacc.schedule hevent).mpr h
    case h_6 => exact h.elim

end

/-- What an accepted definition has to say for the compilers to agree on it. -/
def HoldsWhen (site : Site) (d : JsValue) : Prop := ∃ timing op, ReadAlike site d timing op

/-- The compilers agree on the accepted definitions that they read alike, and on no other. -/
theorem compilers_agree_iff (site : Site) (d : JsValue)
    (haccept : validateTriggerDefinition d site.opts = .ok ()) : Agree site d ↔ HoldsWhen site d := by
  have hacc := accepted_of_ok haccept
  rw [agree_iff_joined]
  constructor
  · rintro ⟨name, timing, op, h⟩
    exact ⟨timing, op,
      { name := ⟨name, h.named, h.short⟩
        event := h.event
        given_timing := (timing_iff h.event).mp h.same_timing
        given_events := (operations_iff h.event hacc.events).mp h.operations
        level := level_iff.mp h.level
        condition := (when_iff hacc.condition).mp h.when_
        autoDrop := autoDrop_iff.mp h.autoDrop
        effect := (bodiesMatch_iff hacc h.ident h.event).mp h.bodies }⟩
  · rintro ⟨timing, op, h⟩
    obtain ⟨name, hname, hshort⟩ := h.name
    have hnull : (d.get "name").isNullish = false := by
      rw [hname]
      rfl
    obtain ⟨s, hs, hident⟩ := hacc.name hnull
    cases hname.symm.trans hs
    exact ⟨name, timing, op,
      { named := hname
        ident := hident
        short := hshort
        event := h.event
        same_timing := (timing_iff h.event).mpr h.given_timing
        level := level_iff.mpr h.level
        operations := (operations_iff h.event hacc.events).mpr h.given_events
        autoDrop := autoDrop_iff.mpr h.autoDrop
        when_ := (when_iff hacc.condition).mpr h.condition
        bodies := (bodiesMatch_iff hacc hident h.event).mpr h.effect }⟩

/-- A table of a workspace; no definition below has a URL, which is what the guards refuse here. -/
def keepTotal : JsValue :=
  .obj [("name", .str "keep"), ("event", .str "BEFORE_UPDATE"),
    ("execute", .obj [("type", .str "EXCEPTION"),
      ("when", .obj [("left", .str "NEW.n"), ("op", .str "<"), ("right", .str "OLD.n")])])]

theorem keep_total_agreed : Agree orders keepTotal :=
  (compilers_agree_iff orders keepTotal (by decide +kernel)).mpr ⟨.before, .update,
    { name := ⟨"keep", rfl, by decide⟩
      event := by decide +kernel
      given_timing := by decide +kernel
      given_events := by decide +kernel
      level := by decide +kernel
      condition := by decide +kernel
      autoDrop := rfl
      effect :=
        { known := by decide +kernel
          structured := by decide +kernel
          reading := fun tests => ⟨tests (.compare "NEW.\"n\"" "<" "OLD.\"n\""), by rfl, by rfl⟩
          always := nofun
          plain := ⟨by decide +kernel, by decide +kernel, by decide +kernel⟩ } }⟩

def noteDelete : JsValue :=
  .obj [("name", .str "note_delete"), ("event", .str "BEFORE_DELETE"),
    ("execute", .obj [("type", .str "FUNCTION"), ("name", .str "note")])]

/-- The engine's function returns `NEW`, which is null for a DELETE: the row stays although nothing refuses its removal. -/
theorem delete_suppressed : ¬ ∀ (site : Site) (d : JsValue),
    validateTriggerDefinition d site.opts = .ok () → Agree site d := by
  intro h
  have haccept : validateTriggerDefinition noteDelete orders.opts = .ok () := by decide +kernel
  have ⟨name, timing, op, hjoined⟩ := (agree_iff_joined orders).mp (h orders noteDelete haccept)
  have hevent : TriggerTranspiler.eventRe.lookup (word (noteDelete.get "event")) = some (.before, .delete) := by
    decide +kernel
  cases hevent.symm.trans hjoined.event
  have hcall : SameCall orders noteDelete (.str "note") [] true :=
    (bodiesMatch_iff (accepted_of_ok haccept) hjoined.ident hjoined.event).mp hjoined.bodies
  cases hcall.proceeds

end DataFabric.TriggerAgreement
