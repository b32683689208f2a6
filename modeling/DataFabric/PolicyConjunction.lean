import DataFabric.AccessPolicies

set_option autoImplicit false

/-!
# The filter that policies and a query add up to

A query's own filter gives a column a bare value, an object of operators or any other object; what a
source asks of its rows is read off by `splitOps`.
-/
namespace DataFabric.PolicyConjunction
open CharText JsValues OrderedRecords CanonicalFilters AccessPolicies

/-- An operand; `function` is a property every object inherits. -/
inductive Operand
  | value (v : JsValue)
  | function (name : String)
  deriving DecidableEq

inductive FilterValue
  | scalar (p : Primitive)
  | array (vs : List JsValue)
  | object (fields : Record String Operand)
  deriving DecidableEq

abbrev UserFilter := Record String FilterValue

/-- What an operator is given: an operand, or an object that is no set of operators as a whole. -/
inductive Reading
  | operand (o : Operand)
  | whole (fields : Record String Operand)
  deriving DecidableEq

structure Condition where
  column : String
  op : String
  reading : Reading
  deriving DecidableEq

def allOperators (fields : Record String Operand) : Bool :=
  fields.entries ≠ [] && fields.entries.all fun (op, _) => startsWith op "$"

def splitOps : FilterValue → List (String × Reading)
  | .scalar p => [("$eq", .operand (.value (.prim p)))]
  | .array vs => [("$eq", .operand (.value (.arr vs)))]
  | .object fields =>
    if allOperators fields then fields.entries.map fun (op, o) => (op, .operand o)
    else [("$eq", .whole fields)]

def conditions (filter : UserFilter) : List Condition :=
  filter.entries.flatMap fun (column, v) => (splitOps v).map fun (op, reading) => ⟨column, op, reading⟩

def operatorName : CanonicalOp → String
  | .eq => "$eq"
  | .ne => "$ne"
  | .gt => "$gt"
  | .gte => "$gte"
  | .lt => "$lt"
  | .lte => "$lte"
  | .like => "$like"
  | .ilike => "$ilike"
  | .inList => "$in"
  | .nin => "$nin"
  | .fullText => "$match"
  | .fuzzy => "$fuzzy"

theorem operatorName_inj {a b : CanonicalOp} (h : operatorName a = operatorName b) : a = b := by
  cases a <;> cases b <;> first | rfl | exact absurd h (by decide)

def named (ops : Record CanonicalOp JsValue) : Record String Operand :=
  ⟨ops.entries.map fun (op, v) => (operatorName op, .value v), by
    rw [List.map_map]
    have hfst : (Prod.fst ∘ fun e : CanonicalOp × JsValue => (operatorName e.1, Operand.value e.2)) =
        operatorName ∘ Prod.fst := rfl
    rw [hfst, ← List.map_map]
    exact ops.distinct.map fun _ _ => operatorName_inj⟩

/-- The functions among the properties of `Object.prototype`. -/
def inherited : List String :=
  ["constructor", "toString", "valueOf", "toLocaleString", "hasOwnProperty", "isPrototypeOf",
    "propertyIsEnumerable", "__defineGetter__", "__defineSetter__", "__lookupGetter__", "__lookupSetter__"]

def withEquality (prev : Operand) (cond : Record String Operand) : FilterValue :=
  .object ((Record.empty.assign "$eq" prev).spread cond)

/-- What becomes of a column's value when a policy has a condition on the column. -/
def mergeValue (column : String) (prev : Option FilterValue) (cond : Record String Operand) : FilterValue :=
  match prev with
  | some (.object fields) => .object (fields.spread cond)
  | some (.array vs) => withEquality (.value (.arr vs)) cond
  | some (.scalar .undefined) | some (.scalar .null) => .object cond
  | some (.scalar p) => withEquality (.value (.prim p)) cond
  | none => if column ∈ inherited then withEquality (.function column) cond else .object cond

def mergeIntoUserFilter (existing : UserFilter) (policyFilter : CanonicalFilter) : UserFilter :=
  policyFilter.entries.foldl
    (fun out e => out.assign e.1 (mergeValue e.1 (out.get? e.1) (named e.2))) existing

/-- The clauses of the policies that match the session; an entry without a column is none. -/
def policyClauses (session : SessionCtx) (rows : List PolicyRow) : List JsValue :=
  (rows.filter fun row => roleMatches row.roles session).flatMap fun row =>
    row.rowFilter.elements.filter fun c => (c.get "column").truthy

def clauseColumn (c : JsValue) : String := (c.get "column").text

def asCondition (c : JsValue) (p : CanonicalOp × JsValue) : Condition :=
  ⟨clauseColumn c, operatorName p.1, .operand (.value p.2)⟩

def clauseConditions (session : SessionCtx) (clauses : List JsValue) : List Condition :=
  clauses.filterMap fun c => (clauseCondition c session).map (asCondition c)

/-- No clause is dropped, and whatever the comparisons of the source mean, the rows the final filter
selects are those that meet every clause and every condition of the query's own filter. -/
structure Conjunctive (session : SessionCtx) (rows : List PolicyRow) (user final : UserFilter) : Prop where
  compiled : ∀ c ∈ policyClauses session rows, (clauseCondition c session).isSome = true
  exact_ : ∀ (R : Type) (meets : Condition → R → Prop) (r : R), (∀ t ∈ conditions final, meets t r) ↔
    (∀ t ∈ clauseConditions session (policyClauses session rows), meets t r) ∧
      ∀ t ∈ conditions user, meets t r

/-- What the query has for the column of a clause leaves the clause as it is, and is left as it is. -/
def Fits (cs : List Condition) (user : UserFilter) (c : Condition) : Prop :=
  match user.get? c.column with
  | none => c.column ∈ inherited → ∃ e ∈ cs, e.column = c.column ∧ e.op = "$eq"
  | some (.object fields) => allOperators fields = true ∧ ∀ o ∈ fields.get? c.op, c.reading = .operand o
  | some (.array vs) => c.op = "$eq" → c.reading = .operand (.value (.arr vs))
  | some (.scalar p) => (c.op = "$eq" → c.reading = .operand (.value (.prim p))) ∧
      ((JsValue.prim p).isNullish = true → ∃ e ∈ cs, e.column = c.column ∧ e.op = "$eq")

instance (cs : List Condition) (user : UserFilter) (c : Condition) : Decidable (Fits cs user c) := by
  unfold Fits
  split <;> infer_instance

/-- Two clauses on one column with one operator have one operand, and every clause fits the query's own
filter. No object has a field `__proto__` by assignment. -/
structure Compatible (session : SessionCtx) (rows : List PolicyRow) (user : UserFilter) : Prop where
  known : ∀ c ∈ policyClauses session rows, (clauseCondition c session).isSome = true
  single : ∀ c ∈ clauseConditions session (policyClauses session rows),
    ∀ e ∈ clauseConditions session (policyClauses session rows),
      c.column ≠ "__proto__" → c.column = e.column → c.op = e.op → c.reading = e.reading
  proto : ∀ c ∈ clauseConditions session (policyClauses session rows), c.column = "__proto__" →
    c ∈ conditions user
  fits : ∀ c ∈ clauseConditions session (policyClauses session rows), c.column ≠ "__proto__" →
    Fits (clauseConditions session (policyClauses session rows)) user c

theorem mem_conditions {filter : UserFilter} {t : Condition} :
    t ∈ conditions filter ↔ ∃ v, filter.get? t.column = some v ∧ (t.op, t.reading) ∈ splitOps v := by
  unfold conditions
  rw [List.mem_flatMap]
  constructor
  · rintro ⟨⟨column, v⟩, he, ht⟩
    obtain ⟨⟨op, reading⟩, hsplit, rfl⟩ := List.mem_map.mp ht
    exact ⟨v, (filter.get?_eq_some_iff column v).mpr he, hsplit⟩
  · rintro ⟨v, hget, hsplit⟩
    exact ⟨(t.column, v), (filter.get?_eq_some_iff t.column v).mp hget,
      List.mem_map.mpr ⟨(t.op, t.reading), hsplit, rfl⟩⟩

theorem allOperators_iff {fields : Record String Operand} : allOperators fields = true ↔
    (∃ op o, fields.get? op = some o) ∧ ∀ op o, fields.get? op = some o → startsWith op "$" = true := by
  unfold allOperators
  rw [Bool.and_eq_true, decide_eq_true_eq, List.all_eq_true]
  constructor
  · rintro ⟨hne, hall⟩
    obtain ⟨⟨op, o⟩, hmem⟩ := List.exists_mem_of_ne_nil _ hne
    exact ⟨⟨op, o, (fields.get?_eq_some_iff op o).mpr hmem⟩,
      fun op o h => hall (op, o) ((fields.get?_eq_some_iff op o).mp h)⟩
  · rintro ⟨⟨op, o, h⟩, hall⟩
    exact ⟨List.ne_nil_of_mem ((fields.get?_eq_some_iff op o).mp h),
      fun e he => hall e.1 e.2 ((fields.get?_eq_some_iff e.1 e.2).mpr he)⟩

theorem mem_splitOps_operators {fields : Record String Operand} (h : allOperators fields = true)
    {op : String} {x : Reading} :
    (op, x) ∈ splitOps (.object fields) ↔ ∃ o, fields.get? op = some o ∧ x = .operand o := by
  rw [splitOps, if_pos h, List.mem_map]
  constructor
  · rintro ⟨⟨op', o⟩, hmem, he⟩
    cases he
    exact ⟨o, (fields.get?_eq_some_iff op o).mpr hmem, rfl⟩
  · rintro ⟨o, hget, rfl⟩
    exact ⟨(op, o), (fields.get?_eq_some_iff op o).mp hget, rfl⟩

theorem splitOps_operand {fields : Record String Operand} {op : String} {o : Operand}
    (h : (op, Reading.operand o) ∈ splitOps (.object fields)) :
    allOperators fields = true ∧ fields.get? op = some o := by
  by_cases hall : allOperators fields = true
  · obtain ⟨o', hget, ho⟩ := (mem_splitOps_operators hall).mp h
    cases ho
    exact ⟨hall, hget⟩
  · rw [splitOps, if_neg hall, List.mem_singleton] at h
    cases h

theorem get?_merge (user : UserFilter) (policy : CanonicalFilter) (column : String) :
    (mergeIntoUserFilter user policy).get? column =
      ((policy.get? column).map fun ops => mergeValue column (user.get? column) (named ops)).or
        (user.get? column) :=
  Record.get?_foldl_update (fun k prev ops => mergeValue k prev (named ops)) policy.distinct user column

theorem get?_named {ops : Record CanonicalOp JsValue} {op : String} {o : Operand} :
    (named ops).get? op = some o ↔
      ∃ canon v, op = operatorName canon ∧ ops.get? canon = some v ∧ o = .value v := by
  rw [Record.get?_eq_some_iff]
  constructor
  · intro h
    obtain ⟨⟨canon, v⟩, hmem, he⟩ := List.mem_map.mp h
    cases he
    exact ⟨canon, v, rfl, (ops.get?_eq_some_iff canon v).mpr hmem, rfl⟩
  · rintro ⟨canon, v, rfl, hget, rfl⟩
    exact List.mem_map.mpr ⟨(canon, v), (ops.get?_eq_some_iff canon v).mp hget, rfl⟩

theorem operatorName_dollar (op : CanonicalOp) : startsWith (operatorName op) "$" = true := by
  cases op <;> decide

def baseFields (column : String) : Option FilterValue → Record String Operand
  | some (.object fields) => fields
  | some (.array vs) => Record.empty.assign "$eq" (.value (.arr vs))
  | some (.scalar p) =>
    if (JsValue.prim p).isNullish then .empty else Record.empty.assign "$eq" (.value (.prim p))
  | none => if column ∈ inherited then Record.empty.assign "$eq" (.function column) else .empty

theorem mergeValue_fields (column : String) (prev : Option FilterValue) (cond : Record String Operand) :
    ∃ fields, mergeValue column prev cond = .object fields ∧
      ∀ op, fields.get? op = (cond.get? op).or ((baseFields column prev).get? op) := by
  unfold mergeValue baseFields withEquality
  split
  · exact ⟨_, rfl, fun op => Record.get?_spread _ _ op⟩
  · exact ⟨_, rfl, fun op => Record.get?_spread _ _ op⟩
  · exact ⟨cond, rfl, fun op => by simp [JsValue.isNullish]⟩
  · exact ⟨cond, rfl, fun op => by simp [JsValue.isNullish]⟩
  · rename_i p hundefined hnull
    have hp : (JsValue.prim p).isNullish = false := by
      cases p <;> simp_all [JsValue.isNullish]
    simp only [hp]
    exact ⟨_, rfl, fun op => Record.get?_spread _ _ op⟩
  · split
    · exact ⟨_, rfl, fun op => Record.get?_spread _ _ op⟩
    · exact ⟨cond, rfl, fun op => by simp⟩

/-- The filter holds conditions of these clauses, and one for each column and operator of them. -/
structure Collects (filter : CanonicalFilter) (cs : List Condition) : Prop where
  sound : ∀ key v, operand filter key = some v →
    key.1 ≠ "__proto__" ∧ ⟨key.1, operatorName key.2, .operand (.value v)⟩ ∈ cs
  complete : ∀ c ∈ cs, c.column ≠ "__proto__" →
    ∃ canon v, c.op = operatorName canon ∧ operand filter (c.column, canon) = some v
  inhabited : ∀ column ops, filter.get? column = some ops → ∃ canon v, ops.get? canon = some v

theorem collects_empty : Collects .empty [] :=
  ⟨fun _ _ h => (Option.some_ne_none _ h.symm).elim, fun _ h => absurd h List.not_mem_nil,
    fun _ _ h => (Option.some_ne_none _ h.symm).elim⟩

theorem operand_mergeCondition (filter : CanonicalFilter) (column : String) (canon : CanonicalOp)
    (v : JsValue) (key : String × CanonicalOp) :
    operand (mergeCondition filter column canon v) key =
      if column ≠ "__proto__" ∧ key = (column, canon) then some v else operand filter key := by
  obtain ⟨k, op⟩ := key
  unfold mergeCondition operand
  by_cases hproto : column = "__proto__"
  · simp [hproto]
  · by_cases hk : k = column
    · by_cases hop : op = canon
      · simp [hproto, hk, hop]
      · cases hget : filter.get? column <;> simp [hproto, hk, hop, hget]
    · simp [hproto, hk]

theorem mergeCondition_inhabited {filter : CanonicalFilter} {column : String} {canon : CanonicalOp} {v : JsValue}
    (h : ∀ k ops, filter.get? k = some ops → ∃ op w, ops.get? op = some w) {k : String}
    {ops : Record CanonicalOp JsValue} (hget : (mergeCondition filter column canon v).get? k = some ops) :
    ∃ op w, ops.get? op = some w := by
  unfold mergeCondition at hget
  split at hget
  · exact h k ops hget
  · rw [Record.get?_assign] at hget
    split at hget
    · cases hget
      exact ⟨canon, v, by simp⟩
    · exact h k ops hget

theorem collects_condition {filter : CanonicalFilter} {cs : List Condition} (h : Collects filter cs)
    (c : JsValue) (p : CanonicalOp × JsValue) :
    Collects (mergeCondition filter (clauseColumn c) p.1 p.2) (cs ++ [asCondition c p]) := by
  refine ⟨fun key v hv => ?_, fun e he hproto => ?_, fun k ops hget => mergeCondition_inhabited h.inhabited hget⟩
  · rw [operand_mergeCondition] at hv
    split at hv
    · rename_i hkey
      obtain ⟨hproto, rfl⟩ := hkey
      cases hv
      exact ⟨hproto, List.mem_append_right _ (List.mem_singleton_self _)⟩
    · obtain ⟨hproto, hmem⟩ := h.sound key v hv
      exact ⟨hproto, List.mem_append_left _ hmem⟩
  · have hheld : ∀ canon v, operand filter (e.column, canon) = some v →
        ∃ v', operand (mergeCondition filter (clauseColumn c) p.1 p.2) (e.column, canon) = some v' := by
      intro canon v hv
      rw [operand_mergeCondition]
      split
      · exact ⟨p.2, rfl⟩
      · exact ⟨v, hv⟩
    rcases List.mem_append.mp he with hold | hnew
    · obtain ⟨canon, v, hop, hv⟩ := h.complete e hold hproto
      obtain ⟨v', hv'⟩ := hheld canon v hv
      exact ⟨canon, v', hop, hv'⟩
    · cases List.mem_singleton.mp hnew
      refine ⟨p.1, p.2, rfl, ?_⟩
      rw [operand_mergeCondition, if_pos ⟨hproto, rfl⟩]

theorem collects_clauses {filter : CanonicalFilter} {cs : List Condition} (h : Collects filter cs)
    (session : SessionCtx) (clauses : List JsValue) :
    Collects (clauses.foldl (compileClause session) filter)
      (cs ++ clauseConditions session (clauses.filter fun c => (c.get "column").truthy)) := by
  induction clauses generalizing filter cs with
  | nil => simpa [clauseConditions] using h
  | cons c clauses ih =>
    rw [List.foldl_cons]
    by_cases hcolumn : (c.get "column").truthy = true
    · rw [List.filter_cons, if_pos hcolumn]
      cases hp : clauseCondition c session with
      | none =>
        have hsame : compileClause session filter c = filter := by
          rw [compileClause, if_pos hcolumn, hp]
        rw [hsame]
        simpa [clauseConditions, hp] using ih h
      | some p =>
        have hstep : compileClause session filter c = mergeCondition filter (clauseColumn c) p.1 p.2 := by
          rw [compileClause, if_pos hcolumn, hp]
          rfl
        rw [hstep]
        simpa [clauseConditions, hp] using ih (collects_condition h c p)
    · have hsame : compileClause session filter c = filter := by
        rw [compileClause, if_neg hcolumn]
      rw [hsame, List.filter_cons, if_neg hcolumn]
      exact ih h

theorem collects_merge {f g : CanonicalFilter} {cs ds : List Condition} (hf : Collects f cs)
    (hg : Collects g ds) : Collects (mergeIntoFilter f g) (cs ++ ds) := by
  refine ⟨fun key v hv => ?_, fun c hc hproto => ?_, fun k ops hget => ?_⟩
  · rw [operand_mergeIntoFilter] at hv
    rcases Option.or_eq_some_iff.mp hv with hv | ⟨_, hv⟩
    · exact ⟨(hg.sound key v hv).1, List.mem_append_right _ (hg.sound key v hv).2⟩
    · exact ⟨(hf.sound key v hv).1, List.mem_append_left _ (hf.sound key v hv).2⟩
  · rcases List.mem_append.mp hc with hc | hc
    · obtain ⟨canon, v, hop, hv⟩ := hf.complete c hc hproto
      refine ⟨canon, (operand g (c.column, canon)).getD v, hop, ?_⟩
      rw [operand_mergeIntoFilter, hv]
      cases operand g (c.column, canon) <;> rfl
    · obtain ⟨canon, v, hop, hv⟩ := hg.complete c hc hproto
      exact ⟨canon, v, hop, by rw [operand_mergeIntoFilter, hv, Option.some_or]⟩
  · have hmerged : (mergeIntoFilter f g).get? k =
        ((g.get? k).map fun ops => ((f.get? k).getD .empty).spread ops).or (f.get? k) :=
      Record.get?_foldl_update
        (fun _ (prev : Option (Record CanonicalOp JsValue)) ops => (prev.getD .empty).spread ops) g.distinct f k
    rw [hmerged] at hget
    rcases Option.or_eq_some_iff.mp hget with hget | ⟨_, hget⟩
    · obtain ⟨ops', hops', rfl⟩ := Option.map_eq_some_iff.mp hget
      obtain ⟨canon, v, hv⟩ := hg.inhabited k ops' hops'
      exact ⟨canon, v, by rw [Record.get?_spread, hv, Option.some_or]⟩
    · exact hf.inhabited k ops hget

theorem collects_rows {session : SessionCtx} {rows : List PolicyRow} {acc res : Resolved}
    {cs : List Condition} (h : Collects acc.filter cs) (hres : rows.foldlM (resolveRow session) acc = .ok res) :
    Collects res.filter (cs ++ clauseConditions session (policyClauses session rows)) := by
  induction rows generalizing acc cs with
  | nil =>
    cases hres
    simpa [clauseConditions, policyClauses] using h
  | cons row rows ih =>
    rw [List.foldlM_cons] at hres
    obtain ⟨mid, hmid, hrest⟩ := ExceptRules.bind_ok hres
    unfold resolveRow at hmid
    split at hmid
    · rename_i hrole
      obtain ⟨masks, _, hmid⟩ := ExceptRules.bind_ok hmid
      cases hmid
      have hrow := collects_merge h (collects_clauses collects_empty session row.rowFilter.elements)
      simpa [policyClauses, clauseConditions, hrole] using ih hrow hrest
    · rename_i hrole
      cases hmid
      simpa [policyClauses, clauseConditions, hrole] using ih h hrest

theorem resolve_collects {gates : Gates} {session : SessionCtx} {key : TableKey} {rows : List PolicyRow}
    {res : Resolved} (hrows : gates.accessPolicies key = .ok rows) (hres : resolve gates session key = .ok res) :
    Collects res.filter (clauseConditions session (policyClauses session rows)) := by
  rw [resolve, hrows] at hres
  exact collects_rows collects_empty hres

theorem same_rows_iff {xs ys zs : List Condition} :
    (∀ (R : Type) (meets : Condition → R → Prop) (r : R), (∀ t ∈ xs, meets t r) ↔
      (∀ t ∈ ys, meets t r) ∧ ∀ t ∈ zs, meets t r) ↔ ∀ t, t ∈ xs ↔ t ∈ ys ∨ t ∈ zs := by
  constructor
  · intro h t
    constructor
    · intro ht
      exact ((h Unit (fun t _ => t ∈ ys ∨ t ∈ zs) ()).mpr ⟨fun _ => .inl, fun _ => .inr⟩) t ht
    · intro ht
      obtain ⟨hys, hzs⟩ := (h Unit (fun t _ => t ∈ xs) ()).mp fun _ => id
      exact ht.elim (hys t) (hzs t)
  · intro h R meets r
    constructor
    · exact fun hx => ⟨fun t ht => hx t ((h t).mpr (.inl ht)), fun t ht => hx t ((h t).mpr (.inr ht))⟩
    · rintro ⟨hy, hz⟩ t ht
      exact ((h t).mp ht).elim (hy t) (hz t)

section Merge

variable {policy : CanonicalFilter} {cs : List Condition} {user : UserFilter}

theorem Collects.field (h : Collects policy cs) {column op : String} {ops : Record CanonicalOp JsValue}
    (hops : policy.get? column = some ops) {o : Operand} (ho : (named ops).get? op = some o) :
    column ≠ "__proto__" ∧ ⟨column, op, .operand o⟩ ∈ cs := by
  obtain ⟨canon, v, rfl, hv, rfl⟩ := get?_named.mp ho
  exact h.sound (column, canon) v (by rw [operand, hops]; exact hv)

theorem Collects.column (h : Collects policy cs) {column : String} {ops : Record CanonicalOp JsValue}
    (hops : policy.get? column = some ops) : column ≠ "__proto__" := by
  obtain ⟨canon, v, hv⟩ := h.inhabited column ops hops
  exact (h.sound (column, canon) v (by rw [operand, hops]; exact hv)).1

theorem Collects.held (h : Collects policy cs) {c : Condition} (hc : c ∈ cs) (hproto : c.column ≠ "__proto__") :
    ∃ ops v, policy.get? c.column = some ops ∧ (named ops).get? c.op = some (.value v) := by
  obtain ⟨canon, v, hop, hv⟩ := h.complete c hc hproto
  obtain ⟨ops, hops, hv⟩ := Option.bind_eq_some_iff.mp hv
  exact ⟨ops, v, hops, get?_named.mpr ⟨canon, v, hop, hv, rfl⟩⟩

theorem Collects.untouched (h : Collects policy cs) (user : UserFilter) {t : Condition} (hnone : policy.get? t.column = none) :
    (t ∈ conditions (mergeIntoUserFilter user policy) ↔ t ∈ conditions user) ∧
      (t ∈ cs → t.column = "__proto__") := by
  refine ⟨?_, fun hc => ?_⟩
  · rw [mem_conditions, mem_conditions, get?_merge, hnone]
    rfl
  · by_contra hproto
    obtain ⟨_, _, hops, _⟩ := h.held hc hproto
    cases hnone.symm.trans hops

theorem merged_column (user : UserFilter) {column : String} {ops : Record CanonicalOp JsValue}
    (hops : policy.get? column = some ops) : ∃ fields,
      (∀ op x, ⟨column, op, x⟩ ∈ conditions (mergeIntoUserFilter user policy) ↔ (op, x) ∈ splitOps (.object fields)) ∧
      ∀ op, fields.get? op = ((named ops).get? op).or ((baseFields column (user.get? column)).get? op) := by
  obtain ⟨fields, hvalue, hfields⟩ := mergeValue_fields column (user.get? column) (named ops)
  refine ⟨fields, fun op x => ?_, hfields⟩
  rw [mem_conditions]
  dsimp only
  rw [get?_merge, hops, Option.map_some, Option.some_or, hvalue]
  exact ⟨fun ⟨_, hv, hx⟩ => by cases hv; exact hx, fun hx => ⟨_, rfl, hx⟩⟩

theorem get?_single {op k : String} {o o' : Operand} :
    ((Record.empty.assign k o).get? op = some o') ↔ op = k ∧ o' = o := by
  rw [Record.get?_assign]
  by_cases h : op = k
  · simp [h, eq_comm]
  · simp [h]

theorem Fits.operators {c : Condition} (h : Fits cs user c) {op : String} {o : Operand}
    (ho : (baseFields c.column (user.get? c.column)).get? op = some o) : startsWith op "$" = true := by
  have heq : startsWith "$eq" "$" = true := by decide
  unfold Fits at h
  cases hv : user.get? c.column with
  | none =>
    rw [hv] at ho
    simp only [baseFields] at ho
    split at ho
    · exact (get?_single.mp ho).1 ▸ heq
    · exact (Option.some_ne_none _ ho.symm).elim
  | some v =>
    rw [hv] at h ho
    cases v with
    | object fields => exact (allOperators_iff.mp h.1).2 op o ho
    | array vs => exact (get?_single.mp ho).1 ▸ heq
    | scalar p =>
      simp only [baseFields] at ho
      split at ho
      · exact (Option.some_ne_none _ ho.symm).elim
      · exact (get?_single.mp ho).1 ▸ heq

theorem Fits.agrees {c : Condition} (h : Fits cs user c) {x : Reading}
    (hx : ⟨c.column, c.op, x⟩ ∈ conditions user) : c.reading = x := by
  obtain ⟨v, hv, hsplit⟩ := mem_conditions.mp hx
  unfold Fits at h
  rw [hv] at h
  cases v with
  | object fields =>
    obtain ⟨o, ho, rfl⟩ := (mem_splitOps_operators h.1).mp hsplit
    exact h.2 o ho
  | array vs =>
    obtain ⟨hop, rfl⟩ := Prod.mk.inj (List.mem_singleton.mp hsplit)
    exact h hop
  | scalar p =>
    obtain ⟨hop, rfl⟩ := Prod.mk.inj (List.mem_singleton.mp hsplit)
    exact h.1 hop

theorem Fits.others {c : Condition} (h : Fits cs user c) {op : String} {x : Reading}
    (hop : ∀ e ∈ cs, e.column = c.column → e.op ≠ op) :
    (∃ o, (baseFields c.column (user.get? c.column)).get? op = some o ∧ x = .operand o) ↔
      ⟨c.column, op, x⟩ ∈ conditions user := by
  rw [mem_conditions]
  unfold Fits at h
  cases hv : user.get? c.column with
  | none =>
    rw [hv] at h
    simp only [baseFields, reduceCtorEq, false_and, exists_false, iff_false]
    rintro ⟨o, ho, rfl⟩
    split at ho
    · rename_i hinherited
      obtain ⟨e, he, hcolumn, heq⟩ := h hinherited
      exact hop e he hcolumn (heq.trans (get?_single.mp ho).1.symm)
    · cases ho
  | some v =>
    rw [hv] at h
    simp only [Option.some.injEq, exists_eq_left']
    cases v with
    | object fields => exact (mem_splitOps_operators h.1).symm
    | array vs => simp [baseFields, splitOps]
    | scalar p =>
      by_cases hnull : (JsValue.prim p).isNullish = true
      · obtain ⟨e, he, hcolumn, heq⟩ := h.2 hnull
        have hne : op ≠ "$eq" := fun hop' => hop e he hcolumn (heq.trans hop'.symm)
        simp [baseFields, splitOps, hnull, hne]
      · simp [baseFields, splitOps, hnull]

/-- The merged filter asks for the clauses and for what the query asks, no more and no less. -/
def Adds (cs : List Condition) (user final : UserFilter) : Prop :=
  ∀ t, t ∈ conditions final ↔ t ∈ cs ∨ t ∈ conditions user

theorem adds_of_fits (h : Collects policy cs)
    (hsingle : ∀ c ∈ cs, ∀ e ∈ cs, c.column ≠ "__proto__" → c.column = e.column → c.op = e.op →
      c.reading = e.reading)
    (hproto : ∀ c ∈ cs, c.column = "__proto__" → c ∈ conditions user)
    (hfits : ∀ c ∈ cs, c.column ≠ "__proto__" → Fits cs user c) :
    Adds cs user (mergeIntoUserFilter user policy) := by
  intro t
  obtain ⟨column, op, x⟩ := t
  cases hops : policy.get? column with
  | none =>
    obtain ⟨hsame, honly⟩ := h.untouched user (t := ⟨column, op, x⟩) hops
    rw [hsame]
    exact ⟨.inr, fun ht => ht.elim (fun hc => hproto _ hc (honly hc)) id⟩
  | some ops =>
    obtain ⟨fields, hmem, hget⟩ := merged_column user hops
    have hcolumn := h.column hops
    -- some clause of the column tells what the query has there
    obtain ⟨canon, v, hv⟩ := h.inhabited column ops hops
    have hd := (h.field hops (get?_named.mpr ⟨canon, v, rfl, hv, rfl⟩)).2
    have hfitsd := hfits _ hd hcolumn
    have hall : allOperators fields = true := by
      refine allOperators_iff.mpr ⟨⟨operatorName canon, .value v, ?_⟩, fun k o ho => ?_⟩
      · rw [hget, get?_named.mpr ⟨canon, v, rfl, hv, rfl⟩, Option.some_or]
      · rw [hget] at ho
        rcases Option.or_eq_some_iff.mp ho with hnamed | ⟨_, hbase⟩
        · obtain ⟨canon', _, rfl, _, _⟩ := get?_named.mp hnamed
          exact operatorName_dollar canon'
        · exact hfitsd.operators hbase
    rw [hmem, mem_splitOps_operators hall, hget]
    cases hnamed : (named ops).get? op with
    | some o =>
      have hclause := (h.field hops hnamed).2
      simp only [Option.some_or, Option.some.injEq, exists_eq_left']
      constructor
      · rintro rfl
        exact .inl hclause
      · rintro (hc | hu)
        · exact (hsingle _ hclause _ hc hcolumn rfl rfl).symm
        · exact ((hfits _ hclause hcolumn).agrees hu).symm
    | none =>
      have hother : ∀ e ∈ cs, e.column = column → e.op ≠ op := by
        rintro e he rfl rfl
        obtain ⟨ops', v', hops', hv'⟩ := h.held he hcolumn
        cases hops.symm.trans hops'
        cases hnamed.symm.trans hv'
      rw [Option.none_or, hfitsd.others hother]
      refine ⟨.inr, fun ht => ht.resolve_left fun hc => hother _ hc rfl rfl⟩

theorem Adds.field (hadds : Adds cs user (mergeIntoUserFilter user policy)) (h : Collects policy cs)
    {c : Condition} (hc : c ∈ cs) {o : Operand} (ho : c.reading = .operand o)
    (hproto : c.column ≠ "__proto__") : ∃ ops fields, policy.get? c.column = some ops ∧
      allOperators fields = true ∧ fields.get? c.op = some o ∧
      (∀ op x, ⟨c.column, op, x⟩ ∈ conditions (mergeIntoUserFilter user policy) ↔
        (op, x) ∈ splitOps (.object fields)) ∧
      ∀ op, fields.get? op = ((named ops).get? op).or ((baseFields c.column (user.get? c.column)).get? op) := by
  obtain ⟨ops, _, hops, _⟩ := h.held hc hproto
  obtain ⟨fields, hmem, hget⟩ := merged_column user hops
  have hin := (hmem c.op c.reading).mp ((hadds c).mpr (.inl hc))
  rw [ho] at hin
  obtain ⟨hall, hfield⟩ := splitOps_operand hin
  exact ⟨ops, fields, hops, hall, hfield, hmem, hget⟩

theorem single_of_adds (hadds : Adds cs user (mergeIntoUserFilter user policy)) (h : Collects policy cs)
    (hvalues : ∀ c ∈ cs, ∃ v, c.reading = .operand (.value v)) {c e : Condition} (hc : c ∈ cs)
    (he : e ∈ cs) (hproto : c.column ≠ "__proto__") (hcolumn : c.column = e.column) (hop : c.op = e.op) :
    c.reading = e.reading := by
  obtain ⟨v, hv⟩ := hvalues c hc
  obtain ⟨w, hw⟩ := hvalues e he
  obtain ⟨_, fields, _, hall, hfield, hmem, _⟩ := hadds.field h hc hv hproto
  have hin := (hadds e).mpr (.inl he)
  rw [show e = ⟨c.column, c.op, e.reading⟩ by rw [hcolumn, hop], hmem, hw] at hin
  have hsame := (splitOps_operand hin).2.symm.trans hfield
  cases hsame
  rw [hv, hw]

theorem proto_of_adds (hadds : Adds cs user (mergeIntoUserFilter user policy)) (h : Collects policy cs)
    {c : Condition} (hc : c ∈ cs) (hproto : c.column = "__proto__") : c ∈ conditions user := by
  have hin := (hadds c).mpr (.inl hc)
  cases hops : policy.get? c.column with
  | none => exact (h.untouched user hops).1.mp hin
  | some ops => exact absurd hproto (h.column hops)

theorem fits_of_adds (hadds : Adds cs user (mergeIntoUserFilter user policy)) (h : Collects policy cs)
    (hvalues : ∀ c ∈ cs, ∃ v, c.reading = .operand (.value v)) {c : Condition} (hc : c ∈ cs)
    (hproto : c.column ≠ "__proto__") : Fits cs user c := by
  obtain ⟨v, hv⟩ := hvalues c hc
  obtain ⟨ops, fields, hops, hall, hfield, hmem, hget⟩ := hadds.field h hc hv hproto
  -- what the query asks of the column is a field too
  have huser : ∀ op x, ⟨c.column, op, x⟩ ∈ conditions user →
      ∃ o, fields.get? op = some o ∧ x = .operand o := fun op x hx =>
    (mem_splitOps_operators hall).mp ((hmem op x).mp ((hadds _).mpr (.inr hx)))
  have hclause : ∀ op o, (named ops).get? op = some o → ∃ e ∈ cs, e.column = c.column ∧ e.op = op :=
    fun op o ho => ⟨_, (h.field hops ho).2, rfl, rfl⟩
  unfold Fits
  cases hprev : user.get? c.column with
  | none =>
    intro hinherited
    cases hnamed : (named ops).get? "$eq" with
    | some o => exact hclause "$eq" o hnamed
    | none =>
      have hfunction : fields.get? "$eq" = some (.function c.column) := by
        rw [hget, hnamed, hprev, Option.none_or]
        simp [baseFields, hinherited]
      have hin := (hmem "$eq" _).mpr ((mem_splitOps_operators hall).mpr ⟨_, hfunction, rfl⟩)
      rcases (hadds _).mp hin with hcs | hu
      · obtain ⟨w, hw⟩ := hvalues _ hcs
        cases hw
      · obtain ⟨_, hsome, _⟩ := mem_conditions.mp hu
        cases hprev.symm.trans hsome
  | some prev =>
    have hasks : ∀ op x, (op, x) ∈ splitOps prev → ∃ o, fields.get? op = some o ∧ x = .operand o :=
      fun op x hx => huser op x (mem_conditions.mpr ⟨prev, hprev, hx⟩)
    cases prev with
    | object own =>
      have hown : allOperators own = true := by
        by_contra hnot
        obtain ⟨_, _, hx⟩ := hasks "$eq" (.whole own) (by rw [splitOps, if_neg hnot]; exact List.mem_singleton_self _)
        cases hx
      refine ⟨hown, fun o ho => ?_⟩
      obtain ⟨o', ho', hx⟩ := hasks c.op (.operand o) ((mem_splitOps_operators hown).mpr ⟨o, ho, rfl⟩)
      cases hx
      rw [hv, Option.some.inj (hfield.symm.trans ho')]
    | array vs =>
      intro hop
      obtain ⟨o, ho, hx⟩ := hasks "$eq" _ (List.mem_singleton_self _)
      rw [hop, ho] at hfield
      rw [hv, ← Option.some.inj hfield, ← hx]
    | scalar p =>
      obtain ⟨o, ho, hx⟩ := hasks "$eq" _ (List.mem_singleton_self _)
      refine ⟨fun hop => ?_, fun hnull => ?_⟩
      · rw [hop, ho] at hfield
        rw [hv, ← Option.some.inj hfield, ← hx]
      · rw [hget, hprev, baseFields, if_pos hnull] at ho
        rcases Option.or_eq_some_iff.mp ho with hnamed | ⟨_, hnone⟩
        · exact hclause "$eq" o hnamed
        · cases hnone

end Merge

theorem clauseConditions_values {session : SessionCtx} {clauses : List JsValue} {c : Condition}
    (hc : c ∈ clauseConditions session clauses) : ∃ v, c.reading = .operand (.value v) := by
  obtain ⟨cl, _, hsome⟩ := List.mem_filterMap.mp hc
  obtain ⟨p, _, rfl⟩ := Option.map_eq_some_iff.mp hsome
  exact ⟨p.2, rfl⟩

/-- The filter is the conjunction of the clauses and the query's own conditions exactly when they are
compatible. -/
theorem conjunctive_iff {gates : Gates} {session : SessionCtx} {key : TableKey} {rows : List PolicyRow}
    {res : Resolved} (hrows : gates.accessPolicies key = .ok rows)
    (hres : resolve gates session key = .ok res) (user : UserFilter) :
    Conjunctive session rows user (mergeIntoUserFilter user res.filter) ↔ Compatible session rows user := by
  have hcollects := resolve_collects hrows hres
  constructor
  · intro h
    have hadds : Adds _ user (mergeIntoUserFilter user res.filter) := same_rows_iff.mp h.exact_
    exact ⟨h.compiled,
      fun c hc e he hproto => single_of_adds hadds hcollects (fun _ => clauseConditions_values) hc he hproto,
      fun c hc => proto_of_adds hadds hcollects hc,
      fun c hc => fits_of_adds hadds hcollects (fun _ => clauseConditions_values) hc⟩
  · intro h
    exact ⟨h.known, same_rows_iff.mpr (adds_of_fits hcollects h.single h.proto h.fits)⟩

def clause (column op : String) (v : JsValue) : JsValue :=
  .obj [("column", .str column), ("operator", .str op), ("value", v)]

def regionPolicy (name region : String) : PolicyRow :=
  ⟨name, .arr [], .arr [clause "region" "EQ" (.str region)], .arr []⟩

def livePolicy : PolicyRow :=
  ⟨"live", .arr [], .arr [clause "deleted_at" "IS_NULL" .undefined, clause "total" "GT" (.num 0)], .arr []⟩

def ordersGates (rows : List PolicyRow) : Gates := ⟨fun _ => .ok (.arr []), fun _ => .ok rows⟩

def ordersKey : TableKey := ⟨"shop", "orders"⟩

def ordersSession : SessionCtx := { tenantId := "acme" }

def cheapOrders : UserFilter :=
  Record.empty.assign "total" (.object (Record.empty.assign "$lt" (.value (.num 10))))

theorem policies_add_up : ∃ filter, resolve (ordersGates [regionPolicy "eu" "EU", livePolicy]) ordersSession ordersKey =
    .ok ⟨filter, []⟩ ∧
    Conjunctive ordersSession [regionPolicy "eu" "EU", livePolicy] cheapOrders
      (mergeIntoUserFilter cheapOrders filter) := by
  refine ⟨_, rfl, ?_⟩
  have hrows : (ordersGates [regionPolicy "eu" "EU", livePolicy]).accessPolicies ordersKey =
      .ok [regionPolicy "eu" "EU", livePolicy] := rfl
  exact (conjunctive_iff hrows rfl cheapOrders).mpr
    ⟨by decide +kernel, by decide +kernel, by decide +kernel, by decide +kernel⟩

/-- The later of two policies takes the place of the earlier one. -/
theorem later_policy_wins : ¬ ∀ (gates : Gates) (session : SessionCtx) (key : TableKey) (rows : List PolicyRow)
    (res : Resolved) (user : UserFilter), gates.accessPolicies key = .ok rows →
      resolve gates session key = .ok res →
        Conjunctive session rows user (mergeIntoUserFilter user res.filter) := by
  intro hclaim
  have h := hclaim (ordersGates [regionPolicy "eu" "EU", regionPolicy "us" "US"]) ordersSession ordersKey _ _
    .empty rfl rfl
  have hadds := same_rows_iff.mp h.exact_ ⟨"region", "$eq", .operand (.value (.str "EU"))⟩
  exact absurd (hadds.mpr (.inl (by decide +kernel))) (by decide +kernel)

end DataFabric.PolicyConjunction
