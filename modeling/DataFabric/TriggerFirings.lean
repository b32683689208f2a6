import DataFabric.TriggerCompilers

set_option autoImplicit false

/-!
# What a compiled trigger does to a row

The tests of a condition, the calls and the statements are not interpreted: two
triggers do the same when they do it for every meaning of these.
-/
namespace DataFabric.TriggerFirings
open CharText JsValues TenantIdentifiers ExceptRules TriggerDefinitions TriggerCompilers

inductive Outcome
  | refused | suppressed | proceeds
  deriving DecidableEq, Repr

structure Meaning where
  holds : Test → Bool
  /-- a call or a statement of a body raises -/
  raises : Main → Bool
  /-- what an existing trigger function makes of the row operation -/
  procedure : Qualified → Outcome

/-- `(a AND b)`; an empty pair of parentheses is no condition. -/
def conj : List Bool → Option Bool
  | [] => none
  | b :: bs => some (b && bs.all id)

def disj : List Bool → Option Bool
  | [] => none
  | b :: bs => some (b || bs.any id)

mutual

/-- Whether a condition is met, `none` where it is not SQL. A test of NULL is not met. -/
def RowCondition.holds (m : Test → Bool) : RowCondition → Option Bool
  | .true_ => some true
  | .test t => some (m t)
  | .all cs => (RowCondition.truths m cs).bind conj
  | .any cs => (RowCondition.truths m cs).bind disj

def RowCondition.truths (m : Test → Bool) : List RowCondition → Option (List Bool)
  | [] => some []
  | c :: cs => do some ((← RowCondition.holds m c) :: (← RowCondition.truths m cs))

end

structure Firing where
  fires : Bool
  /-- with `autoDrop`, whether the removal of the trigger is enqueued -/
  cleanup : Option Bool := none
  job : Option EnqueuedJob := none
  outcome : Outcome
  deriving DecidableEq

def Main.refuses (m : Meaning) : Main → Option Bool
  | .raise c _ => RowCondition.holds m.holds c
  | .enqueue _ => some false
  | main => some (m.raises main)

def Main.job : Main → Option EnqueuedJob
  | .enqueue j => some j
  | _ => none

/-- `NEW` is null for a DELETE, and a row trigger that returns null before the operation stops it. -/
def suppresses (returns : Returns) (timing : Timing) (level : Level) (op : Operation) : Bool :=
  returns = .new && timing ≠ .after && level = .row && op = .delete

def Body.fire (m : Meaning) (b : Body) (suppressed : Bool) : Option Firing := do
  let cleanup ← match b.autoDrop with
    | none => some none
    | some c => (RowCondition.holds m.holds c).map some
  let refused ← Main.refuses m b.main
  some
    { fires := true, cleanup, job := if refused then none else Main.job b.main
      outcome := if refused then .refused else if suppressed then .suppressed else .proceeds }

def CompiledTrigger.fire (m : Meaning) (c : CompiledTrigger) (op : Operation) : Option Firing := do
  let fires ← match c.trigger.when_ with
    | none => some true
    | some w => RowCondition.holds m.holds w
  if fires then
    match c.function with
    | some (_, b) => Body.fire m b (suppresses b.returns c.trigger.timing c.trigger.level op)
    | none => some { fires := true, outcome := m.procedure c.trigger.executes }
  else some { fires := false, outcome := .proceeds }

/-- The same timing, the same operations, and the same at every firing. -/
structure SameTrigger (a b : CompiledTrigger) : Prop where
  timing : a.trigger.timing = b.trigger.timing
  level : a.trigger.level = b.trigger.level
  operations : a.trigger.operations = b.trigger.operations
  firing : ∀ m, ∀ op ∈ a.trigger.operations, ∃ f,
    CompiledTrigger.fire m a op = some f ∧ CompiledTrigger.fire m b op = some f

mutual

/-- A condition with its comparisons read by `leaf`; what is not a node of its own is an empty comparison. -/
def reading (leaf : Comparison → Bool) : Condition → Option Bool
  | .scalar p => some (if (JsValue.prim p).truthy then leaf {} else true)
  | .list => some (leaf {})
  | .all cs => (readings leaf cs).bind conj
  | .any cs => (readings leaf cs).bind disj
  | .compare c => some (leaf c)

def readings (leaf : Comparison → Bool) : List Condition → Option (List Bool)
  | [] => some []
  | c :: cs => do some ((← reading leaf c) :: (← readings leaf cs))

end

mutual

def printed (operands : Comparison → List String) : Condition → List String
  | .scalar p => if (JsValue.prim p).truthy then operands {} else []
  | .list => operands {}
  | .all cs | .any cs => allPrinted operands cs
  | .compare c => operands c

def allPrinted (operands : Comparison → List String) : List Condition → List String
  | [] => []
  | c :: cs => printed operands c ++ allPrinted operands cs

end

mutual

def structured : Condition → Bool
  | .scalar (.string s) => s = ""
  | .scalar _ | .list | .compare _ => true
  | .all cs | .any cs => allStructured cs

def allStructured : List Condition → Bool
  | [] => true
  | c :: cs => structured c && allStructured cs

end

mutual

def admitted : Condition → ℕ → Bool
  | .scalar .undefined, _ | .scalar .null, _ => true
  | .scalar (.string _), depth => depth ≤ 6
  | .scalar (.boolean _), _ | .scalar (.number _), _ | .list, _ => false
  | .all cs, depth | .any cs, depth => depth ≤ 6 && allAdmitted cs (depth + 1)
  | .compare c, depth => depth ≤ 6 && operatorOf c ∈ condOps

def allAdmitted : List Condition → ℕ → Bool
  | [], _ => true
  | c :: cs, depth => admitted c depth && allAdmitted cs depth

end

mutual

def knownOperators : Condition → Bool
  | .scalar _ | .list => true
  | .all cs | .any cs => allKnown cs
  | .compare c => operatorOf c ∈ condOps

def allKnown : List Condition → Bool
  | [] => true
  | c :: cs => knownOperators c && allKnown cs

end

theorem require_ok {ok : Bool} {code message : String} {u : Unit}
    (h : require ok code message = .ok u) : ok = true := by
  by_cases hok : ok = true
  · exact hok
  · rw [require, if_neg hok] at h
    cases h

theorem falsy_operator {v : JsValue} (hv : v ∈ [.bool false, .num 0, .str ""]) :
    upperCase v.text ∉ condOps := by
  have hall : ∀ s ∈ ["false", "0", ""], upperCase s ∉ condOps := by decide +kernel
  simp only [List.mem_cons, List.not_mem_nil, or_false] at hv
  rcases hv with rfl | rfl | rfl
  · exact hall "false" (by simp)
  · exact hall "0" (by simp)
  · exact hall "" (by simp)

theorem falsy_cases {v : JsValue} (hnull : v.isNullish = false) (hfalsy : v.truthy = false) :
    v ∈ [.bool false, .num 0, .str ""] := by
  match v with
  | .undefined | .null => cases hnull
  | .arr _ | .obj _ | .bool true => cases hfalsy
  | .bool false => exact List.mem_cons_self
  | .num q =>
    have hq : q = 0 := by simpa [JsValue.truthy] using hfalsy
    rw [hq]
    exact List.mem_cons_of_mem _ List.mem_cons_self
  | .str s =>
    have hs : s = "" := by simpa [JsValue.truthy] using hfalsy
    rw [hs]
    exact List.mem_cons_of_mem _ (List.mem_cons_of_mem _ List.mem_cons_self)

theorem text_truthy {v : JsValue} (hnull : v.isNullish = false) (hop : upperCase v.text ∈ condOps) :
    v.truthy = true := by
  by_cases ht : v.truthy = true
  · exact ht
  · have hfalsy := falsy_operator (falsy_cases hnull (Bool.eq_false_iff.mpr ht))
    exact (hfalsy hop).elim

theorem operatorOf_accepted {c : Comparison}
    (h : upperCase (coalesce c.operator (coalesce c.op (.str "EQ"))).text ∈ condOps) :
    operatorOf c ∈ condOps := by
  have hnullish : ∀ v : JsValue, v.isNullish = true → v.truthy = false := by
    intro v hv
    match v, hv with
    | .undefined, _ | .null, _ => rfl
  unfold operatorOf
  by_cases ho : c.operator.isNullish = true
  · rw [coalesce, if_pos ho] at h
    rw [either, hnullish _ ho, if_neg Bool.false_ne_true]
    by_cases hop : c.op.isNullish = true
    · rw [orText, hnullish _ hop, if_neg Bool.false_ne_true]
      decide
    · rw [coalesce, if_neg hop] at h
      rw [orText, text_truthy (Bool.eq_false_iff.mpr hop) h, if_pos rfl]
      exact h
  · rw [coalesce, if_neg ho] at h
    have ht := text_truthy (Bool.eq_false_iff.mpr ho) h
    rw [either, ht, if_pos rfl, orText, ht, if_pos rfl]
    exact h

mutual

theorem validateCondition_ok {what : String} {depth n n' : ℕ} : ∀ {c : Condition},
    validateCondition c what depth n = .ok n' → admitted c depth = true
  | .scalar .undefined, _ | .scalar .null, _ => rfl
  | .scalar (.string s), h => by
    obtain ⟨_, hr, _⟩ := bind_ok h
    have hdepth := require_ok hr
    rw [Bool.and_eq_true] at hdepth
    exact hdepth.1
  | .scalar (.boolean b), h | .scalar (.number q), h | .list, h => by
    obtain ⟨_, _, h⟩ := bind_ok h
    cases h
  | .all cs, h | .any cs, h => by
    obtain ⟨_, hr, h⟩ := bind_ok h
    have hdepth := require_ok hr
    rw [Bool.and_eq_true] at hdepth
    rw [admitted, Bool.and_eq_true]
    exact ⟨hdepth.1, validateConditions_ok h⟩
  | .compare c, h => by
    obtain ⟨_, hr, h⟩ := bind_ok h
    obtain ⟨_, hc, _⟩ := bind_ok h
    obtain ⟨_, hop, _⟩ := bind_ok hc
    have hdepth := require_ok hr
    rw [Bool.and_eq_true] at hdepth
    rw [admitted, Bool.and_eq_true]
    exact ⟨hdepth.1, decide_eq_true (operatorOf_accepted (of_decide_eq_true (require_ok hop)))⟩

theorem validateConditions_ok {what : String} {depth n n' : ℕ} : ∀ {cs : List Condition},
    validateConditions cs what depth n = .ok n' → allAdmitted cs depth = true
  | [], _ => rfl
  | c :: cs, h => by
    obtain ⟨_, hc, h⟩ := bind_ok h
    rw [allAdmitted, Bool.and_eq_true]
    exact ⟨validateCondition_ok hc, validateConditions_ok h⟩

end

def backendTest (c : Comparison) : Test :=
  let left := TriggerActionCompiler.expr (coalesce c.left c.column)
  if operatorOf c = "IS_NULL" then .isNull left
  else if operatorOf c = "IS_NOT_NULL" then .isNotNull left
  else .compare left ((opMap.lookup (operatorOf c)).getD "")
    (TriggerActionCompiler.expr (coalesce c.right c.value))

def engineTest (c : Comparison) : Option Test :=
  if operatorOf c = "IS_NULL" then some (.isNull (TriggerTranspiler.valueToSql c.left))
  else if operatorOf c = "IS_NOT_NULL" then some (.isNotNull (TriggerTranspiler.valueToSql c.left))
  else if c.left = .undefined ∨ c.right = .undefined then none
  else some (.compare (TriggerTranspiler.valueToSql c.left) ((opMap.lookup (operatorOf c)).getD "")
    (TriggerTranspiler.valueToSql c.right))

def backendHolds (m : Test → Bool) (c : Comparison) : Bool := m (backendTest c)

def engineHolds (m : Test → Bool) (c : Comparison) : Bool := (engineTest c).all m

def backendOperands (c : Comparison) : List String := RowCondition.texts (.test (backendTest c))

def engineOperands (c : Comparison) : List String :=
  (engineTest c).elim [] fun t => RowCondition.texts (.test t)

/-- A compiled condition says what the condition says, in its texts. -/
structure Reads (c : Condition) (leaf : (Test → Bool) → Comparison → Bool)
    (operands : Comparison → List String) (r : RowCondition) : Prop where
  holds : ∀ m, RowCondition.holds m r = reading (leaf m) c
  texts : r.texts = printed operands c

structure ReadAll (cs : List Condition) (leaf : (Test → Bool) → Comparison → Bool)
    (operands : Comparison → List String) (rs : List RowCondition) : Prop where
  truths : ∀ m, RowCondition.truths m rs = readings (leaf m) cs
  texts : RowCondition.allTexts rs = allPrinted operands cs

section

variable {leaf : (Test → Bool) → Comparison → Bool} {operands : Comparison → List String}

theorem readAll_nil : ReadAll [] leaf operands [] := ⟨fun _ => rfl, rfl⟩

theorem readAll_cons {c : Condition} {cs : List Condition} {r : RowCondition} {rs : List RowCondition}
    (h : Reads c leaf operands r) (hs : ReadAll cs leaf operands rs) :
    ReadAll (c :: cs) leaf operands (r :: rs) := by
  constructor
  · intro m
    rw [RowCondition.truths, readings, h.holds, hs.truths]
  · rw [RowCondition.allTexts, allPrinted, h.texts, hs.texts]

theorem reads_all {cs : List Condition} {rs : List RowCondition} (h : ReadAll cs leaf operands rs) :
    Reads (.all cs) leaf operands (.all rs) := by
  constructor
  · intro m
    rw [RowCondition.holds, reading, h.truths]
  · rw [RowCondition.texts, printed, h.texts]

theorem reads_any {cs : List Condition} {rs : List RowCondition} (h : ReadAll cs leaf operands rs) :
    Reads (.any cs) leaf operands (.any rs) := by
  constructor
  · intro m
    rw [RowCondition.holds, reading, h.truths]
  · rw [RowCondition.texts, printed, h.texts]

end

theorem lookup_comparison {op : String} (h : op ∈ condOps) (hnull : op ≠ "IS_NULL")
    (hnotnull : op ≠ "IS_NOT_NULL") : ∃ sqlOp, opMap.lookup op = some sqlOp := by
  have hall : ∀ op ∈ condOps, op = "IS_NULL" ∨ op = "IS_NOT_NULL" ∨ (opMap.lookup op).isSome := by decide
  rcases hall op h with h | h | h
  · exact absurd h hnull
  · exact absurd h hnotnull
  · exact Option.isSome_iff_exists.mp h

theorem operand_plain (v : JsValue) :
    TriggerActionCompiler.operand v false = .ok (TriggerActionCompiler.expr v) := by
  match v with
  | .str _ => rfl
  | .undefined | .null | .bool _ | .num _ | .arr _ | .obj _ => rfl

theorem backend_comparison {c : Comparison} (h : operatorOf c ∈ condOps) :
    TriggerActionCompiler.comparison c false = .ok (.test (backendTest c)) := by
  unfold TriggerActionCompiler.comparison backendTest
  rw [operand_plain]
  simp only [ok_bind]
  by_cases hnull : operatorOf c = "IS_NULL"
  · rw [if_pos hnull, if_pos hnull]
  · by_cases hnotnull : operatorOf c = "IS_NOT_NULL"
    · rw [if_neg hnull, if_neg hnull, if_pos hnotnull, if_pos hnotnull]
    · have ⟨sqlOp, hop⟩ := lookup_comparison h hnull hnotnull
      rw [if_neg hnull, if_neg hnull, if_neg hnotnull, if_neg hnotnull, hop]
      rfl

theorem engine_comparison {c : Comparison} (h : operatorOf c ∈ condOps) :
    TriggerTranspiler.comparison c = .ok ((engineTest c).elim .true_ .test) := by
  unfold TriggerTranspiler.comparison engineTest
  by_cases hnull : operatorOf c = "IS_NULL"
  · rw [if_pos hnull, if_pos hnull]
    rfl
  · by_cases hnotnull : operatorOf c = "IS_NOT_NULL"
    · rw [if_neg hnull, if_neg hnull, if_pos hnotnull, if_pos hnotnull]
      rfl
    · have ⟨sqlOp, hop⟩ := lookup_comparison h hnull hnotnull
      rw [if_neg hnull, if_neg hnull, if_neg hnotnull, if_neg hnotnull, hop]
      by_cases hmissing : c.left = .undefined ∨ c.right = .undefined
      · simp only [if_pos hmissing, Option.elim]
      · simp only [if_neg hmissing, Option.elim, Option.getD_some]

theorem backend_reads_comparison {c : Comparison} :
    Reads (.compare c) backendHolds backendOperands (.test (backendTest c)) := ⟨fun _ => rfl, rfl⟩

theorem engine_reads_comparison {c : Comparison} :
    Reads (.compare c) engineHolds engineOperands ((engineTest c).elim .true_ .test) := by
  constructor
  · intro m
    rw [reading, engineHolds]
    cases engineTest c with
    | none => rfl
    | some t => rfl
  · rw [printed, engineOperands]
    cases engineTest c with
    | none => rfl
    | some t => rfl

theorem scalar_comparison {p : Primitive} (hp : (JsValue.prim p).truthy = true) :
    Reads (.scalar p) backendHolds backendOperands (.test (backendTest {})) := by
  constructor
  · intro m
    rw [reading, if_pos hp]
    rfl
  · rw [printed, if_pos hp]
    rfl

theorem scalar_true {p : Primitive} {leaf : (Test → Bool) → Comparison → Bool}
    {operands : Comparison → List String} (hp : (JsValue.prim p).truthy = false) :
    Reads (.scalar p) leaf operands .true_ := by
  constructor
  · intro m
    rw [reading, hp, if_neg Bool.false_ne_true]
    rfl
  · rw [printed, hp, if_neg Bool.false_ne_true]
    rfl

mutual

theorem backend_reads : ∀ {c : Condition}, knownOperators c = true →
    ∃ r, TriggerActionCompiler.condition c false = .ok r ∧ Reads c backendHolds backendOperands r
  | .scalar p, _ => by
    unfold TriggerActionCompiler.condition
    by_cases hp : (JsValue.prim p).truthy = true
    · rw [if_pos hp]
      exact ⟨_, backend_comparison (by decide), scalar_comparison hp⟩
    · rw [if_neg hp]
      exact ⟨.true_, rfl, scalar_true (Bool.eq_false_iff.mpr hp)⟩
  | .list, _ => ⟨_, backend_comparison (c := {}) (by decide), fun _ => rfl, rfl⟩
  | .all cs, h => by
    obtain ⟨rs, hrs, hread⟩ := @backend_readAll cs h
    refine ⟨.all rs, ?_, reads_all hread⟩
    rw [TriggerActionCompiler.condition, hrs]
    rfl
  | .any cs, h => by
    obtain ⟨rs, hrs, hread⟩ := @backend_readAll cs h
    refine ⟨.any rs, ?_, reads_any hread⟩
    rw [TriggerActionCompiler.condition, hrs]
    rfl
  | .compare c, h => ⟨_, backend_comparison (of_decide_eq_true h), backend_reads_comparison⟩

theorem backend_readAll : ∀ {cs : List Condition}, allKnown cs = true →
    ∃ rs, TriggerActionCompiler.conditions cs false = .ok rs ∧ ReadAll cs backendHolds backendOperands rs
  | [], _ => ⟨[], rfl, readAll_nil⟩
  | c :: cs, h => by
    rw [allKnown, Bool.and_eq_true] at h
    obtain ⟨r, hr, hread⟩ := backend_reads h.1
    obtain ⟨rs, hrs, hreads⟩ := backend_readAll h.2
    refine ⟨r :: rs, ?_, readAll_cons hread hreads⟩
    rw [TriggerActionCompiler.conditions, hr, hrs]
    rfl

end

theorem backend_known_comparison {c : Comparison} {r : RowCondition}
    (h : TriggerActionCompiler.comparison c false = .ok r) : operatorOf c ∈ condOps := by
  unfold TriggerActionCompiler.comparison at h
  rw [operand_plain] at h
  simp only [ok_bind] at h
  by_cases hnull : operatorOf c = "IS_NULL"
  · rw [hnull]
    decide
  · by_cases hnotnull : operatorOf c = "IS_NOT_NULL"
    · rw [hnotnull]
      decide
    · rw [if_neg hnull, if_neg hnotnull] at h
      cases hop : opMap.lookup (operatorOf c) with
      | none =>
        rw [hop] at h
        cases h
      | some sqlOp =>
        have hall : ∀ e ∈ opMap, e.1 ∈ condOps := by decide
        obtain ⟨before, after, hmap, _⟩ := List.lookup_eq_some_iff.mp hop
        exact hall (operatorOf c, sqlOp) (hmap ▸ List.mem_append_right _ List.mem_cons_self)

mutual

theorem backend_known {r : RowCondition} : ∀ {c : Condition},
    TriggerActionCompiler.condition c false = .ok r → knownOperators c = true
  | .scalar _, _ | .list, _ => rfl
  | .all cs, h => by
    rw [TriggerActionCompiler.condition] at h
    obtain ⟨_, hcs, _⟩ := bind_ok h
    exact backend_allKnown hcs
  | .any cs, h => by
    rw [TriggerActionCompiler.condition] at h
    obtain ⟨_, hcs, _⟩ := bind_ok h
    exact backend_allKnown hcs
  | .compare c, h => decide_eq_true (backend_known_comparison h)

theorem backend_allKnown {rs : List RowCondition} : ∀ {cs : List Condition},
    TriggerActionCompiler.conditions cs false = .ok rs → allKnown cs = true
  | [], _ => rfl
  | c :: cs, h => by
    rw [TriggerActionCompiler.conditions] at h
    obtain ⟨_, hc, h⟩ := bind_ok h
    obtain ⟨_, hcs, _⟩ := bind_ok h
    rw [allKnown, Bool.and_eq_true]
    exact ⟨backend_known hc, backend_allKnown hcs⟩

end

theorem not_tooDeep {depth : ℕ} (h : depth ≤ 6) : TriggerTranspiler.tooDeep depth = .ok () := by
  rw [TriggerTranspiler.tooDeep, if_neg (by omega)]

mutual

theorem engine_reads {depth : ℕ} : ∀ {c : Condition}, admitted c depth = true → structured c = true →
    ∃ r, TriggerTranspiler.astToSql c depth = .ok r ∧ Reads c engineHolds engineOperands r
  | .scalar .undefined, _, _ | .scalar .null, _, _ => ⟨.true_, rfl, fun _ => rfl, rfl⟩
  | .scalar (.string s), _, hs => by
    have hs : s = "" := of_decide_eq_true hs
    rw [hs]
    exact ⟨.true_, rfl, fun _ => rfl, rfl⟩
  | .scalar (.boolean _), h, _ | .scalar (.number _), h, _ | .list, h, _ => nomatch h
  | .all cs, h, hs => by
    rw [admitted, Bool.and_eq_true] at h
    obtain ⟨rs, hrs, hread⟩ := engine_readAll h.2 hs
    refine ⟨.all rs, ?_, reads_all hread⟩
    rw [TriggerTranspiler.astToSql, not_tooDeep (of_decide_eq_true h.1), hrs]
    rfl
  | .any cs, h, hs => by
    rw [admitted, Bool.and_eq_true] at h
    obtain ⟨rs, hrs, hread⟩ := engine_readAll h.2 hs
    refine ⟨.any rs, ?_, reads_any hread⟩
    rw [TriggerTranspiler.astToSql, not_tooDeep (of_decide_eq_true h.1), hrs]
    rfl
  | .compare c, h, _ => by
    rw [admitted, Bool.and_eq_true] at h
    refine ⟨_, ?_, engine_reads_comparison⟩
    rw [TriggerTranspiler.astToSql, not_tooDeep (of_decide_eq_true h.1), ok_bind]
    exact engine_comparison (c := c) (of_decide_eq_true h.2)

theorem engine_readAll {depth : ℕ} : ∀ {cs : List Condition}, allAdmitted cs depth = true →
    allStructured cs = true →
    ∃ rs, TriggerTranspiler.astsToSql cs depth = .ok rs ∧ ReadAll cs engineHolds engineOperands rs
  | [], _, _ => ⟨[], rfl, readAll_nil⟩
  | c :: cs, h, hs => by
    rw [allAdmitted, Bool.and_eq_true] at h
    rw [allStructured, Bool.and_eq_true] at hs
    obtain ⟨r, hr, hread⟩ := engine_reads h.1 hs.1
    obtain ⟨rs, hrs, hreads⟩ := engine_readAll h.2 hs.2
    refine ⟨r :: rs, ?_, readAll_cons hread hreads⟩
    rw [TriggerTranspiler.astsToSql, hr, hrs]
    rfl

end

mutual

theorem engine_structured {depth : ℕ} {r : RowCondition} : ∀ {c : Condition},
    TriggerTranspiler.astToSql c depth = .ok r → structured c = true
  | .scalar .undefined, _ | .scalar .null, _ | .scalar (.boolean _), _ | .scalar (.number _), _
  | .list, _ | .compare _, _ => rfl
  | .scalar (.string s), h => by
    by_cases hs : s = ""
    · exact decide_eq_true hs
    · have ht : (JsValue.prim (.string s)).truthy = true := by simpa [JsValue.truthy] using hs
      rw [TriggerTranspiler.astToSql, ht] at h
      obtain ⟨_, _, h⟩ := bind_ok h
      cases h
  | .all cs, h => by
    rw [TriggerTranspiler.astToSql] at h
    obtain ⟨_, _, h⟩ := bind_ok h
    obtain ⟨_, hcs, _⟩ := bind_ok h
    exact engine_allStructured hcs
  | .any cs, h => by
    rw [TriggerTranspiler.astToSql] at h
    obtain ⟨_, _, h⟩ := bind_ok h
    obtain ⟨_, hcs, _⟩ := bind_ok h
    exact engine_allStructured hcs

theorem engine_allStructured {depth : ℕ} {rs : List RowCondition} : ∀ {cs : List Condition},
    TriggerTranspiler.astsToSql cs depth = .ok rs → allStructured cs = true
  | [], _ => rfl
  | c :: cs, h => by
    rw [TriggerTranspiler.astsToSql] at h
    obtain ⟨_, hc, h⟩ := bind_ok h
    obtain ⟨_, hcs, _⟩ := bind_ok h
    rw [allStructured, Bool.and_eq_true]
    exact ⟨engine_structured hc, engine_allStructured hcs⟩

end

def Grows (b b' : Bool) : Prop := b = true → b' = true

theorem all_grows {bs bs' : List Bool} (h : List.Forall₂ Grows bs bs') : Grows (bs.all id) (bs'.all id) := by
  induction h with
  | nil => exact id
  | cons hb _ ih =>
    intro hall
    rw [List.all_cons, Bool.and_eq_true] at hall ⊢
    exact ⟨hb hall.1, ih hall.2⟩

theorem any_grows {bs bs' : List Bool} (h : List.Forall₂ Grows bs bs') : Grows (bs.any id) (bs'.any id) := by
  induction h with
  | nil => exact id
  | cons hb _ ih =>
    intro hany
    rw [List.any_cons, Bool.or_eq_true] at hany ⊢
    exact hany.imp hb ih

theorem conj_grows {bs bs' : List Bool} (h : List.Forall₂ Grows bs bs') :
    Option.Rel Grows (conj bs) (conj bs') := by
  cases h with
  | nil => exact .none
  | cons hb hbs => exact .some (all_grows (.cons hb hbs))

theorem disj_grows {bs bs' : List Bool} (h : List.Forall₂ Grows bs bs') :
    Option.Rel Grows (disj bs) (disj bs') := by
  cases h with
  | nil => exact .none
  | cons hb hbs => exact .some (any_grows (.cons hb hbs))

theorem bind_rel {α : Type} {r : α → α → Prop} {f : α → Option Bool} {x x' : Option α}
    (hf : ∀ {a a'}, r a a' → Option.Rel Grows (f a) (f a')) (h : Option.Rel r x x') :
    Option.Rel Grows (x.bind f) (x'.bind f) := by
  cases h with
  | none => exact .none
  | some ha => exact hf ha

section

variable {leaf leaf' : Comparison → Bool}

mutual

theorem reading_grows (hleaf : ∀ c, Grows (leaf c) (leaf' c)) : ∀ c : Condition,
    Option.Rel Grows (reading leaf c) (reading leaf' c)
  | .scalar p => by
    by_cases hp : (JsValue.prim p).truthy = true
    · rw [reading, reading, if_pos hp, if_pos hp]
      exact .some (hleaf {})
    · rw [reading, reading, if_neg hp, if_neg hp]
      exact .some id
  | .list => .some (hleaf {})
  | .all cs => bind_rel conj_grows (readings_grows hleaf cs)
  | .any cs => bind_rel disj_grows (readings_grows hleaf cs)
  | .compare c => .some (hleaf c)

theorem readings_grows (hleaf : ∀ c, Grows (leaf c) (leaf' c)) : ∀ cs : List Condition,
    Option.Rel (List.Forall₂ Grows) (readings leaf cs) (readings leaf' cs)
  | [] => .some .nil
  | c :: cs => by
    have hc := reading_grows hleaf c
    have hcs := readings_grows hleaf cs
    rw [readings, readings]
    cases hr : reading leaf c <;> cases hr' : reading leaf' c <;> rw [hr, hr'] at hc <;> cases hc
    · exact .none
    · cases hrs : readings leaf cs <;> cases hrs' : readings leaf' cs <;> rw [hrs, hrs'] at hcs <;>
        cases hcs
      · exact .none
      · exact .some (.cons ‹_› ‹_›)

end

end

/-- The comparisons the engine takes to hold without a test. -/
def untested (c : Comparison) : Bool := (engineTest c).isNone

theorem untested_grows (m : Test → Bool) (c : Comparison) : Grows (untested c) (engineHolds m c) := by
  unfold untested engineHolds
  cases engineTest c with
  | none => exact id
  | some t => exact fun h => nomatch h

theorem engine_always_iff (c : Condition) :
    (∀ m, reading (engineHolds m) c = some true) ↔ reading untested c = some true := by
  constructor
  · intro h
    have hnone : (engineHolds fun _ => false) = untested := by
      funext k
      unfold engineHolds untested
      cases engineTest k with
      | none => rfl
      | some t => rfl
    rw [← hnone]
    exact h _
  · intro h m
    have hrel := reading_grows (untested_grows m) c
    rw [h] at hrel
    cases hr : reading (engineHolds m) c with
    | none =>
      rw [hr] at hrel
      cases hrel
    | some b =>
      rw [hr] at hrel
      cases hrel with
      | some hb => exact congrArg some (hb rfl)

end DataFabric.TriggerFirings
