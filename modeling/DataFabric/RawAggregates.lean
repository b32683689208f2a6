import DataFabric.DistinctMerges
import Mathlib.Algebra.BigOperators.Group.List.Basic
import Mathlib.Data.Nat.Cast.Order.Ring

set_option autoImplicit false

/-!
# Raw rows grouped in the fabric

The running values of every group against SQL's aggregates of the values that are not null.
-/
namespace DataFabric.RawAggregates
open JsValues OrderedRecords FederatedJoins KeyedJoins Aggregates PartialAggregates SqlAggregates DistinctElements
open DistinctMerges (addValue length_set foldl_frame isPrim)

/-- The first instant of the bucket that a value falls into. -/
structure DateBuckets where
  start : String → JsValue → JsValue
  start_start : ∀ dateInterval v, start dateInterval (start dateInterval v) = start dateInterval v

def DateBuckets.trunc (buckets : DateBuckets) : GroupBy → JsValue → JsValue
  | .field _, v => v
  | .bucket _ dateInterval, v => buckets.start dateInterval v

/-- COUNT(*), or an aggregate of a column; sums and means are of numbers. -/
inductive Supported (type : String → ColumnType) : AggregateSpec → Prop
  | rows (aliasName : String) : Supported type ⟨.count, none, aliasName⟩
  | column {f : AggFunc} {c : String} (aliasName : String) (hc : c ≠ "")
      (hf : f ∈ [.count, .countDistinct, .min, .max] ∨ f ∈ [.sum, .avg] ∧ type c = .number) :
      Supported type ⟨f, some c, aliasName⟩

/-- The names under which an aggregate keeps its running values. -/
def runningNames (a : AggregateSpec) : List String :=
  if a.func = .avg then [a.aliasName ++ "__s", a.aliasName ++ "__c"] else [a.aliasName]

structure Query where
  plan : AggregatePlan
  type : String → ColumnType
  supported : ∀ a ∈ plan.aggregates, Supported type a
  named : (plan.groupCols.map gName ++ plan.aggregates.map AggregateSpec.aliasName).Nodup
  apart : (plan.aggregates.flatMap runningNames).Nodup

def columnValues (rows : List SourceRow) (c : String) : List JsValue := rows.map fun row => readCol row c

/-- An aggregated column holds values of its type and nulls. -/
structure Table (q : Query) where
  rows : List SourceRow
  typed : ∀ a ∈ q.plan.aggregates, ∀ c, a.column = some c →
    ∀ v ∈ notNull (columnValues rows c), (q.type c).Admits v

section

variable (le : String → String → Bool) (buckets : DateBuckets) (q : Query)

def sqlAnswer (rows : List SourceRow) (a : AggregateSpec) : JsValue :=
  match a.column with
  | none => .num rows.length
  | some c => aggregate le (q.type c) a.func (notNull (columnValues rows c))

def sqlKey (row : SourceRow) : List JsValue :=
  q.plan.groupCols.map fun g => buckets.trunc g (orElse (readCol row (gName g)) .null)

def sqlKeys (rows : List SourceRow) : List (List JsValue) :=
  if q.plan.groupCols = [] then [[]] else distinctKeys (rows.map (sqlKey buckets q))

def resultRow (plan : AggregatePlan) (key : List JsValue) (answer : AggregateSpec → JsValue) : SourceRow :=
  .ofEntries ((plan.groupCols.map gName).zip key ++ plan.aggregates.map fun a => (a.aliasName, answer a))

def sqlGroups (rows : List SourceRow) : List SourceRow :=
  (sqlKeys buckets q rows).map fun key =>
    resultRow q.plan key (sqlAnswer le q (rows.filter fun row => sqlKey buckets q row = key))

def GroupsAsSql (parseFloat : String → Option ℚ) (rows : List SourceRow) : Prop :=
  (aggregateRaw parseFloat rows q.plan).Perm (sqlGroups le buckets q rows)

end

def NoNull (values : List JsValue) : Prop := ∀ v ∈ values, v.isNullish = false

def Unnoticed (type : ColumnType) (values : List JsValue) : AggFunc → Prop
  | .sum => notNull values ≠ []
  | .avg => notNull values ≠ [] ∧ (NoNull values ∨ ((notNull values).filterMap numberOf).sum = 0)
  | .min => type = .number ∧ (NoNull values ∨ ∃ q ≤ 0, .num q ∈ values)
  | .max => type = .number ∧ (NoNull values ∨ ∃ q ≥ 0, .num q ∈ values)
  | .countDistinct => NoNull values
  | _ => True

def groupOf (q : Query) (rows : List SourceRow) (key : List JsValue) : List SourceRow :=
  rows.filter fun row => rawKey q.plan row = key

structure HoldsWhen (buckets : DateBuckets) (q : Query) (rows : List SourceRow) : Prop where
  some_row : q.plan.groupCols = [] → rows ≠ []
  truncated : ∀ row ∈ rows, sqlKey buckets q row = rawKey q.plan row
  unnoticed : ∀ row ∈ rows, ∀ a ∈ q.plan.aggregates, ∀ c, a.column = some c →
    Unnoticed (q.type c) (columnValues (groupOf q rows (rawKey q.plan row)) c) a.func

def value (row : SourceRow) (a : AggregateSpec) : JsValue :=
  match a.column with
  | some c => if c = "" then .num 1 else readCol row c
  | none => .num 1

section

variable (parseFloat : String → Option ℚ)

def next (a : AggregateSpec) (n : String) (old : Option Running) (v : JsValue) : Option Running :=
  match a.func with
  | .count => if a.column = none ∨ v.isNullish = false then some (.number (Running.total old + 1)) else old
  | .sum => some (.number (Running.total old + numeric parseFloat v))
  | .min =>
    some (.number (if old = none then numeric parseFloat v else min (Running.total old) (numeric parseFloat v)))
  | .max =>
    some (.number (if old = none then numeric parseFloat v else max (Running.total old) (numeric parseFloat v)))
  | .avg => some (.number (Running.total old + if n = a.aliasName ++ "__s" then numeric parseFloat v else 1))
  | .countDistinct => some (Running.add v old)
  | .other _ => old

def stepValue (v : JsValue) (st : GroupState) (a : AggregateSpec) : GroupState :=
  let key := a.aliasName
  match a.func with
  | .count =>
    if a.column = none ∨ v.isNullish = false then st.assign key (.number (Running.total (st.get? key) + 1)) else st
  | .sum => st.assign key (.number (Running.total (st.get? key) + numeric parseFloat v))
  | .min =>
    st.assign key (.number (if st.get? key = none then numeric parseFloat v
      else min (Running.total (st.get? key)) (numeric parseFloat v)))
  | .max =>
    st.assign key (.number (if st.get? key = none then numeric parseFloat v
      else max (Running.total (st.get? key)) (numeric parseFloat v)))
  | .avg =>
    let st := st.assign (key ++ "__s") (.number (Running.total (st.get? (key ++ "__s")) + numeric parseFloat v))
    st.assign (key ++ "__c") (.number (Running.total (st.get? (key ++ "__c")) + 1))
  | .countDistinct => st.assign key (Running.add v (st.get? key))
  | .other _ => st

theorem stepOne_eq (row : SourceRow) (st : GroupState) (a : AggregateSpec) :
    stepOne parseFloat row st a = stepValue parseFloat (value row a) st a := rfl

def running (plan : AggregatePlan) (rows : List SourceRow) : GroupState :=
  rows.foldl (fun st row => plan.aggregates.foldl (stepOne parseFloat row) st) .empty

def shown (st : GroupState) (a : AggregateSpec) : JsValue :=
  match a.func with
  | .avg =>
    let c := Running.total (st.get? (a.aliasName ++ "__c"))
    if 0 < c then .num (Running.total (st.get? (a.aliasName ++ "__s")) / c) else .null
  | .countDistinct => .num (Running.size (st.get? a.aliasName))
  | f =>
    match st.get? a.aliasName with
    | some (.number q) => .num q
    | some (.set _) => .obj []
    | none => if f = .count then .num 0 else .null

end

section

variable {parseFloat : String → Option ℚ} {row : SourceRow} {st : GroupState} {a : AggregateSpec} {n : String}

theorem sum_ne_count (s : String) : s ++ "__s" ≠ s ++ "__c" := by
  intro h
  have hlist := congrArg String.toList h
  simp at hlist

theorem stepOne_other (h : n ∉ runningNames a) : (stepOne parseFloat row st a).get? n = st.get? n := by
  rw [stepOne_eq]
  generalize value row a = v
  rcases a with ⟨func, col, aliasName⟩
  unfold runningNames at h
  unfold stepValue
  cases func with
  | avg =>
    rw [if_pos rfl, List.mem_cons, List.mem_singleton, not_or] at h
    dsimp only
    rw [Record.get?_assign, if_neg h.2, Record.get?_assign, if_neg h.1]
  | count =>
    rw [if_neg fun e => AggFunc.noConfusion e, List.mem_singleton] at h
    dsimp only
    split
    · rw [Record.get?_assign, if_neg h]
    · rfl
  | sum | min | max | countDistinct =>
    rw [if_neg fun e => AggFunc.noConfusion e, List.mem_singleton] at h
    dsimp only
    rw [Record.get?_assign, if_neg h]
  | other name => rfl

theorem stepOne_own (h : n ∈ runningNames a) :
    (stepOne parseFloat row st a).get? n = next parseFloat a n (st.get? n) (value row a) := by
  rw [stepOne_eq]
  generalize value row a = v
  rcases a with ⟨func, col, aliasName⟩
  unfold runningNames at h
  unfold stepValue next
  cases func with
  | avg =>
    rw [if_pos rfl, List.mem_cons, List.mem_singleton] at h
    have hne := sum_ne_count aliasName
    dsimp only
    rcases h with rfl | rfl
    · rw [Record.get?_assign, if_neg hne, Record.get?_assign, if_pos rfl, if_pos rfl]
    · rw [Record.get?_assign, if_pos rfl, Record.get?_assign, if_neg hne.symm, if_neg hne.symm]
  | count =>
    rw [if_neg fun e => AggFunc.noConfusion e, List.mem_singleton] at h
    dsimp only
    split
    · rw [h, Record.get?_assign, if_pos rfl]
    · rfl
  | sum | min | max | countDistinct =>
    rw [if_neg fun e => AggFunc.noConfusion e, List.mem_singleton] at h
    dsimp only
    rw [h, Record.get?_assign, if_pos rfl]
  | other name => rfl

end

section

variable {parseFloat : String → Option ℚ} {q : Query} {a : AggregateSpec} {n : String}

theorem Query.split (ha : a ∈ q.plan.aggregates) : ∃ before after, q.plan.aggregates = before ++ a :: after ∧
    ∀ b, b ∈ before ∨ b ∈ after → ∀ n ∈ runningNames a, n ∉ runningNames b := by
  have ⟨before, after, hsplit⟩ := List.append_of_mem ha
  have hapart := q.apart
  rw [hsplit, List.flatMap_append, List.flatMap_cons, List.nodup_append, List.nodup_append] at hapart
  refine ⟨before, after, hsplit, fun b hb n hn hown => ?_⟩
  rcases hb with hb | hb
  · exact hapart.2.2 n (List.mem_flatMap.mpr ⟨b, hb, hown⟩) n (List.mem_append_left _ hn) rfl
  · exact hapart.2.1.2.2 n hn n (List.mem_flatMap.mpr ⟨b, hb, hown⟩) rfl

theorem Query.step (ha : a ∈ q.plan.aggregates) (hn : n ∈ runningNames a) (row : SourceRow) (st : GroupState) :
    (q.plan.aggregates.foldl (stepOne parseFloat row) st).get? n = next parseFloat a n (st.get? n) (value row a) := by
  have ⟨before, after, hsplit, hother⟩ := q.split ha
  have hbefore : (before.foldl (stepOne parseFloat row) st).get? n = st.get? n :=
    foldl_frame (fun st : GroupState => st.get? n) (fun b hb s => stepOne_other (hother b (.inl hb) n hn)) st
  rw [hsplit, List.foldl_append, List.foldl_cons]
  rw [foldl_frame (fun st : GroupState => st.get? n) fun b hb s => stepOne_other (hother b (.inr hb) n hn)]
  rw [stepOne_own hn]
  exact congrArg (fun old => next parseFloat a n old (value row a)) hbefore

theorem Query.running_own (ha : a ∈ q.plan.aggregates) (hn : n ∈ runningNames a) (rows : List SourceRow) :
    (running parseFloat q.plan rows).get? n = (rows.map fun row => value row a).foldl (next parseFloat a n) none := by
  induction rows using List.reverseRecOn with
  | nil => rfl
  | append_singleton rows row ih =>
    unfold running at ih ⊢
    rw [List.foldl_append, List.foldl_cons, List.foldl_nil, q.step ha hn, ih, List.map_append, List.map_cons,
      List.map_nil, List.foldl_append, List.foldl_cons, List.foldl_nil]

end

section

variable {parseFloat : String → Option ℚ} {plan : AggregatePlan}

theorem showOne_eq (st : GroupState) (acc : SourceRow) (a : AggregateSpec) :
    showOne st acc a = acc.assign a.aliasName (shown st a) := by
  rcases a with ⟨func, col, aliasName⟩
  cases func <;> rfl

theorem foldl_showOne (st : GroupState) (key : List JsValue) :
    plan.aggregates.foldl (showOne st) (groupRow plan key) = resultRow plan key (shown st) := by
  have hone : showOne st = fun acc a => acc.assign a.aliasName (shown st a) := by
    funext acc a
    exact showOne_eq st acc a
  unfold resultRow groupRow Record.ofEntries
  rw [hone, List.foldl_append, List.foldl_map]

theorem foldl_group (rows : List SourceRow) (acc : SourceRow) (st : GroupState) :
    rows.foldl (fun (group : SourceRow × GroupState) row => (group.1, plan.aggregates.foldl (stepOne parseFloat row) group.2)) (acc, st) =
      (acc, rows.foldl (fun st row => plan.aggregates.foldl (stepOne parseFloat row) st) st) := by
  induction rows generalizing st with
  | nil => rfl
  | cons row rows ih =>
    rw [List.foldl_cons, List.foldl_cons]
    exact ih _

theorem aggregateRaw_eq (rows : List SourceRow) :
    aggregateRaw parseFloat rows plan = (distinctKeys (rows.map (rawKey plan))).map fun key =>
      resultRow plan key (shown (running parseFloat plan (rows.filter fun row => rawKey plan row = key))) := by
  unfold aggregateRaw
  rw [groupFold_entries (fun key => ((groupRow plan key, .empty) : SourceRow × GroupState)) fun _ => rfl, List.map_map]
  apply List.map_congr_left
  intro key _
  rw [Function.comp_apply]
  change plan.aggregates.foldl (showOne (Prod.snd (List.foldl _ _ _))) (Prod.fst (List.foldl _ _ _)) = _
  rw [foldl_group]
  exact foldl_showOne _ key

end

section

variable {f : Option Running → JsValue → Option Running} {g : JsValue → ℚ}

theorem total_foldl (hf : ∀ old v, f old v = some (.number (Running.total old + g v))) (vs : List JsValue)
    (old : Option Running) : Running.total (vs.foldl f old) = Running.total old + (vs.map g).sum := by
  induction vs generalizing old with
  | nil => exact (add_zero _).symm
  | cons v vs ih =>
    rw [List.foldl_cons, ih, hf, List.map_cons, List.sum_cons]
    exact add_assoc _ _ _

theorem foldl_adding (hf : ∀ old v, f old v = some (.number (Running.total old + g v))) {vs : List JsValue}
    (hne : vs ≠ []) : vs.foldl f none = some (.number (vs.map g).sum) := by
  induction vs using List.reverseRecOn with
  | nil => exact absurd rfl hne
  | append_singleton vs v _ =>
    rw [List.foldl_append, List.foldl_cons, List.foldl_nil, hf, total_foldl hf, List.map_append, List.sum_append]
    change some (Running.number (0 + _ + g v)) = _
    rw [zero_add, List.map_cons, List.map_nil, List.sum_singleton]

theorem foldl_counting {p : JsValue → Bool}
    (hf : ∀ old v, f old v = if p v = true then some (.number (Running.total old + 1)) else old) (vs : List JsValue) :
    vs.foldl f none = if vs.filter p = [] then none else some (.number (vs.filter p).length) := by
  induction vs using List.reverseRecOn with
  | nil => rfl
  | append_singleton vs v ih =>
    rw [List.foldl_append, List.foldl_cons, List.foldl_nil, hf, ih, List.filter_append]
    by_cases hp : p v = true
    · have hcount : Running.total (if vs.filter p = [] then none else some (.number (vs.filter p).length)) =
          (vs.filter p).length := by
        split
        · rename_i hnil
          rw [hnil]
          rfl
        · rfl
      rw [if_pos hp, hcount, List.filter_cons_of_pos hp, List.filter_nil, if_neg (by simp), List.length_append,
        List.length_singleton]
      push_cast
      rfl
    · rw [if_neg hp, List.filter_cons_of_neg hp, List.filter_nil, List.append_nil]

theorem foldl_extreme {h : ℚ → ℚ → ℚ}
    (hf : ∀ old v, f old v = some (.number (if old = none then g v else h (Running.total old) (g v)))) (v : JsValue)
    (vs : List JsValue) : (v :: vs).foldl f none = some (.number ((vs.map g).foldl h (g v))) := by
  have hrun : ∀ m, vs.foldl f (some (.number m)) = some (.number ((vs.map g).foldl h m)) := by
    induction vs with
    | nil => exact fun _ => rfl
    | cons w vs ih =>
      intro m
      rw [List.foldl_cons, hf, if_neg nofun, ih]
      rfl
  rw [List.foldl_cons, hf, if_pos rfl]
  exact hrun _

theorem foldl_set (hf : ∀ old v, f old v = some (Running.add v old)) {vs : List JsValue} (hne : vs ≠ []) :
    vs.foldl f none = some (.set (vs.foldl addValue [])) := by
  have hrun : ∀ seen, vs.foldl f (some (.set seen)) = some (.set (vs.foldl addValue seen)) := by
    clear hne
    induction vs with
    | nil => exact fun _ => rfl
    | cons v vs ih =>
      intro seen
      rw [List.foldl_cons, hf]
      exact ih _
  cases vs with
  | nil => exact absurd rfl hne
  | cons v vs =>
    have hfirst : f none v = f (some (.set [])) v := by
      rw [hf, hf]
      rfl
    rw [List.foldl_cons, hfirst]
    exact hrun []

end

section

variable {parseFloat : String → Option ℚ} {values : List JsValue}

def nulls (values : List JsValue) : List JsValue := values.filter JsValue.isNullish

theorem noNull_iff_nulls : NoNull values ↔ nulls values = [] := by
  unfold NoNull nulls
  rw [List.filter_eq_nil_iff]
  simp only [Bool.not_eq_true]

theorem length_notNull (values : List JsValue) : values.length = (notNull values).length + (nulls values).length := by
  unfold notNull nulls
  induction values with
  | nil => rfl
  | cons v vs ih => cases h : v.isNullish <;> simp [h, ih] <;> omega

theorem numeric_nullish {v : JsValue} (h : v.isNullish = true) : numeric parseFloat v = 0 := by
  cases v with
  | prim p => cases p <;> first | rfl | cases h
  | arr vs => cases h
  | obj fields => cases h

theorem numeric_perm (h : ∀ v ∈ notNull values, ColumnType.number.Admits v) :
    (values.map (numeric parseFloat)).Perm
      ((notNull values).filterMap numberOf ++ (nulls values).map fun _ => 0) := by
  induction values with
  | nil => exact .refl _
  | cons v vs ih =>
    have hrest : ∀ w ∈ notNull vs, ColumnType.number.Admits w := by
      intro w hw
      rw [mem_notNull] at hw
      exact h w (mem_notNull.mpr ⟨List.mem_cons_of_mem _ hw.1, hw.2⟩)
    cases hv : v.isNullish with
    | true =>
      have hpresent : notNull (v :: vs) = notNull vs := List.filter_cons_of_neg (by simp [hv])
      have hnulls : nulls (v :: vs) = v :: nulls vs := List.filter_cons_of_pos hv
      rw [hpresent, hnulls, List.map_cons, List.map_cons, numeric_nullish hv]
      exact ((ih hrest).cons 0).trans List.perm_middle.symm
    | false =>
      have hpresent : notNull (v :: vs) = v :: notNull vs := List.filter_cons_of_pos (by simp [hv])
      have hnulls : nulls (v :: vs) = nulls vs := List.filter_cons_of_neg (by simp [hv])
      have ⟨q, hq⟩ := h v (mem_notNull.mpr ⟨List.mem_cons_self, hv⟩)
      rw [hpresent, hnulls, hq, List.map_cons, List.filterMap_cons]
      exact (ih hrest).cons q

theorem sum_numeric (h : ∀ v ∈ notNull values, ColumnType.number.Admits v) :
    (values.map (numeric parseFloat)).sum = ((notNull values).filterMap numberOf).sum := by
  have hzeros : ((nulls values).map fun _ => (0 : ℚ)).sum = 0 := by simp
  rw [(numeric_perm h).sum_eq, List.sum_append, hzeros, add_zero]

theorem mem_numbers {q : ℚ} : q ∈ (notNull values).filterMap numberOf ↔ .num q ∈ values := by
  rw [List.mem_filterMap]
  constructor
  · intro ⟨v, hv, hq⟩
    have hmem := (mem_notNull.mp hv).1
    cases v with
    | prim p =>
      cases p <;> cases hq
      exact hmem
    | arr vs => cases hq
    | obj fields => cases hq
  · intro h
    exact ⟨_, mem_notNull.mpr ⟨h, rfl⟩, rfl⟩

theorem min?_perm {xs ys : List ℚ} (h : xs.Perm ys) : xs.min? = ys.min? := by
  apply Option.ext
  intro m
  rw [List.min?_eq_some_iff, List.min?_eq_some_iff]
  simp only [h.mem_iff]

theorem max?_perm {xs ys : List ℚ} (h : xs.Perm ys) : xs.max? = ys.max? := by
  apply Option.ext
  intro m
  rw [List.max?_eq_some_iff, List.max?_eq_some_iff]
  simp only [h.mem_iff]

theorem zero_of_nulls {p : ℚ → Prop} : (∀ y ∈ (nulls values).map fun _ => (0 : ℚ), p y) ↔ NoNull values ∨ p 0 := by
  rw [noNull_iff_nulls, List.forall_mem_map]
  constructor
  · intro h
    cases hnulls : nulls values with
    | nil => exact .inl rfl
    | cons v vs => exact .inr (h v (hnulls ▸ List.mem_cons_self))
  · intro h v hv
    rcases h with hnil | hzero
    · rw [hnil] at hv
      cases hv
    · exact hzero

theorem min?_numeric (h : ∀ v ∈ notNull values, ColumnType.number.Admits v) :
    ((notNull values).filterMap numberOf).min? = (values.map (numeric parseFloat)).min? ↔
      NoNull values ∨ ∃ q ≤ 0, .num q ∈ values := by
  rw [min?_perm (numeric_perm h), min?_append, zero_of_nulls]
  simp only [mem_numbers, and_comm]

theorem max?_numeric (h : ∀ v ∈ notNull values, ColumnType.number.Admits v) :
    ((notNull values).filterMap numberOf).max? = (values.map (numeric parseFloat)).max? ↔
      NoNull values ∨ ∃ q ≥ 0, .num q ∈ values := by
  rw [max?_perm (numeric_perm h), max?_append, zero_of_nulls]
  simp only [mem_numbers, and_comm]

theorem mean_iff {total : ℚ} {n m : ℕ} (hn : n ≠ 0) (hm : m ≠ 0) : total / n = total / m ↔ n = m ∨ total = 0 := by
  rw [div_eq_div_iff (Nat.cast_ne_zero.mpr hn) (Nat.cast_ne_zero.mpr hm), mul_eq_mul_left_iff, Nat.cast_inj, eq_comm]

theorem length_distinct {type : ColumnType} (h : ∀ v ∈ notNull values, type.Admits v) :
    (values.foldl addValue []).length = values.eraseDups.length := by
  have hprim : ∀ v ∈ values, isPrim v = true := by
    intro v hv
    cases hnull : v.isNullish with
    | true =>
      cases v with
      | prim p => rfl
      | arr vs => cases hnull
      | obj fields => cases hnull
    | false =>
      have hadmits := h v (mem_notNull.mpr ⟨hv, hnull⟩)
      cases type with
      | number =>
        have ⟨q, hq⟩ := hadmits
        rw [hq]
        rfl
      | text =>
        have ⟨s, hs⟩ := hadmits
        rw [hs]
        rfl
  have hall : values.filter isPrim = values := List.filter_eq_self.mpr hprim
  have hnone : (values.filter fun v => !isPrim v) = [] := by
    rw [List.filter_eq_nil_iff]
    intro v hv
    rw [hprim v hv]
    decide
  rw [length_set, hall, hnone]
  rfl

theorem distinct_notNull_iff : values.eraseDups.length = (notNull values).eraseDups.length ↔ NoNull values := by
  have hsplit := length_eraseDups_filter (fun v : JsValue => !v.isNullish) values
  have hnulls : (values.filter fun v => !!v.isNullish) = nulls values := by
    unfold nulls
    simp only [Bool.not_not]
  rw [hnulls] at hsplit
  change values.eraseDups.length = (notNull values).eraseDups.length + (nulls values).eraseDups.length at hsplit
  rw [noNull_iff_nulls]
  constructor
  · intro h
    have hnone : (nulls values).eraseDups.length = 0 := by omega
    rw [List.length_eq_zero_iff] at hnone
    rw [List.eq_nil_iff_forall_not_mem]
    intro v hv
    rw [← List.mem_eraseDups, hnone] at hv
    cases hv
  · intro h
    rw [h, List.eraseDups_nil, List.length_nil] at hsplit
    omega

end

section

variable {parseFloat : String → Option ℚ} {le : String → String → Bool} {q : Query} {a : AggregateSpec}
  {rows : List SourceRow} {c aliasName : String} {values : List JsValue} {st : GroupState} {type : ColumnType}

def Typed (type : ColumnType) (values : List JsValue) : Prop := ∀ v ∈ notNull values, type.Admits v

theorem shown_count (h : st.get? aliasName = values.foldl (next parseFloat ⟨.count, some c, aliasName⟩ aliasName) none) :
    shown st ⟨.count, some c, aliasName⟩ = .num (notNull values).length := by
  have hcount : values.foldl (next parseFloat ⟨.count, some c, aliasName⟩ aliasName) none =
      if notNull values = [] then none else some (.number (notNull values).length) := by
    apply foldl_counting
    intro old v
    unfold next
    cases v.isNullish <;> simp
  unfold shown
  dsimp only
  rw [h, hcount]
  by_cases hnil : notNull values = []
  · rw [if_pos hnil, hnil]
    rfl
  · rw [if_neg hnil]

theorem shown_rows (h : st.get? aliasName = values.foldl (next parseFloat ⟨.count, none, aliasName⟩ aliasName) none) :
    shown st ⟨.count, none, aliasName⟩ = .num values.length := by
  have hall : values.filter (fun _ => true) = values := List.filter_eq_self.mpr fun _ _ => rfl
  have hcount := foldl_counting (f := next parseFloat ⟨.count, none, aliasName⟩ aliasName) (p := fun _ => true)
    (fun old v => by unfold next; simp) values
  rw [hall] at hcount
  unfold shown
  dsimp only
  rw [h, hcount]
  by_cases hnil : values = []
  · rw [if_pos hnil, hnil]
    rfl
  · rw [if_neg hnil]

theorem shown_sum (hne : values ≠ []) (htyped : Typed .number values)
    (h : st.get? aliasName = values.foldl (next parseFloat ⟨.sum, some c, aliasName⟩ aliasName) none) :
    shown st ⟨.sum, some c, aliasName⟩ = .num ((notNull values).filterMap numberOf).sum := by
  have hstep : ∀ old v, next parseFloat ⟨.sum, some c, aliasName⟩ aliasName old v =
      some (.number (Running.total old + numeric parseFloat v)) := fun _ _ => rfl
  unfold shown
  dsimp only
  rw [h, foldl_adding hstep hne, ← sum_numeric htyped]

theorem shown_avg (hne : values ≠ []) (htyped : Typed .number values)
    (h : ∀ n ∈ runningNames ⟨.avg, some c, aliasName⟩,
      st.get? n = values.foldl (next parseFloat ⟨.avg, some c, aliasName⟩ n) none) :
    shown st ⟨.avg, some c, aliasName⟩ = .num (((notNull values).filterMap numberOf).sum / values.length) := by
  have hsum : st.get? (aliasName ++ "__s") = some (.number (values.map (numeric parseFloat)).sum) := by
    rw [h _ List.mem_cons_self]
    apply foldl_adding _ hne
    intro old v
    unfold next
    rw [if_pos rfl]
  have hcount : st.get? (aliasName ++ "__c") = some (.number (values.map fun _ => (1 : ℚ)).sum) := by
    rw [h _ (List.mem_cons_of_mem _ List.mem_cons_self)]
    apply foldl_adding _ hne
    intro old v
    unfold next
    rw [if_neg (sum_ne_count aliasName).symm]
  have hlength : (values.map fun _ => (1 : ℚ)).sum = values.length := by simp
  have hpos : (0 : ℚ) < values.length := Nat.cast_pos.mpr (List.length_pos_iff.mpr hne)
  unfold shown
  dsimp only
  rw [hsum, hcount, hlength]
  change (if (0 : ℚ) < values.length then _ else _) = _
  rw [if_pos hpos, ← sum_numeric htyped]
  rfl

theorem shown_min (hne : values ≠ [])
    (h : st.get? aliasName = values.foldl (next parseFloat ⟨.min, some c, aliasName⟩ aliasName) none) :
    ∃ m, shown st ⟨.min, some c, aliasName⟩ = .num m ∧ (values.map (numeric parseFloat)).min? = some m := by
  cases values with
  | nil => exact absurd rfl hne
  | cons v vs =>
    refine ⟨_, ?_, List.min?_cons'⟩
    have hstep : ∀ old v, next parseFloat ⟨.min, some c, aliasName⟩ aliasName old v = some (.number
        (if old = none then numeric parseFloat v else min (Running.total old) (numeric parseFloat v))) := fun _ _ => rfl
    unfold shown
    dsimp only
    rw [h, foldl_extreme hstep]

theorem shown_max (hne : values ≠ [])
    (h : st.get? aliasName = values.foldl (next parseFloat ⟨.max, some c, aliasName⟩ aliasName) none) :
    ∃ m, shown st ⟨.max, some c, aliasName⟩ = .num m ∧ (values.map (numeric parseFloat)).max? = some m := by
  cases values with
  | nil => exact absurd rfl hne
  | cons v vs =>
    refine ⟨_, ?_, List.max?_cons'⟩
    have hstep : ∀ old v, next parseFloat ⟨.max, some c, aliasName⟩ aliasName old v = some (.number
        (if old = none then numeric parseFloat v else max (Running.total old) (numeric parseFloat v))) := fun _ _ => rfl
    unfold shown
    dsimp only
    rw [h, foldl_extreme hstep]

theorem shown_distinct (hne : values ≠ []) (htyped : Typed type values)
    (h : st.get? aliasName = values.foldl (next parseFloat ⟨.countDistinct, some c, aliasName⟩ aliasName) none) :
    shown st ⟨.countDistinct, some c, aliasName⟩ = .num values.eraseDups.length := by
  have hstep : ∀ old v, next parseFloat ⟨.countDistinct, some c, aliasName⟩ aliasName old v =
      some (Running.add v old) := fun _ _ => rfl
  unfold shown
  dsimp only
  rw [h, foldl_set hstep hne, ← length_distinct htyped]
  rfl

theorem num_ne_null (m : ℚ) : ∀ s : String, JsValue.num m ≠ .str s := nofun

theorem extreme_iff {number : List ℚ → Option ℚ} {le : String → String → Bool} {m : ℚ} {p : Prop}
    (htyped : Typed type values) (hm : number (values.map (numeric parseFloat)) = some m)
    (hnumeric : Typed .number values →
      (number ((notNull values).filterMap numberOf) = number (values.map (numeric parseFloat)) ↔ p)) :
    .num m = extreme number (firstText le) type (notNull values) ↔ type = .number ∧ p := by
  cases type with
  | number =>
    rw [← hnumeric htyped, hm]
    change PartialAggregates.optional (some m) = PartialAggregates.optional _ ↔ _
    rw [optional_inj, eq_comm]
    exact (and_iff_right rfl).symm
  | text =>
    rw [eq_comm, extreme_text number le htyped _ (num_ne_null m)]
    constructor
    · intro h
      cases h.2
    · intro h
      cases h.1

theorem Query.shown_iff (ha : a ∈ q.plan.aggregates) (hne : rows ≠ [])
    (htyped : ∀ c, a.column = some c → Typed (q.type c) (columnValues rows c)) :
    shown (running parseFloat q.plan rows) a = sqlAnswer le q rows a ↔
      ∀ c, a.column = some c → Unnoticed (q.type c) (columnValues rows c) a.func := by
  have hown : ∀ n ∈ runningNames a, (running parseFloat q.plan rows).get? n =
      (rows.map fun row => value row a).foldl (next parseFloat a n) none := fun n hn => q.running_own ha hn rows
  cases q.supported a ha with
  | rows aliasName =>
    rw [shown_rows (hown aliasName List.mem_cons_self), List.length_map]
    exact ⟨fun _ _ h => (by cases h), fun _ => rfl⟩
  | @column f c aliasName hc hf =>
    have hvalues : (rows.map fun row => value row ⟨f, some c, aliasName⟩) = columnValues rows c :=
      List.map_congr_left fun _ _ => if_neg hc
    have hvalues_ne : columnValues rows c ≠ [] := by
      unfold columnValues
      rw [ne_eq, List.map_eq_nil_iff]
      exact hne
    have hcolumn := htyped c rfl
    have hall : ∀ p : String → Prop, (∀ d, some c = some d → p d) ↔ p c := fun p =>
      ⟨fun h => h c rfl, fun h d hd => Option.some.inj hd ▸ h⟩
    rw [hvalues] at hown
    change _ ↔ ∀ d, some c = some d → Unnoticed (q.type d) (columnValues rows d) f
    rw [hall fun d => Unnoticed (q.type d) (columnValues rows d) f]
    unfold sqlAnswer
    dsimp only
    have hnumber : f ∈ [AggFunc.sum, .avg] → q.type c = .number := fun h => hf.elim
      (fun hother => by simp only [List.mem_cons, List.not_mem_nil, or_false] at h hother; rcases h with rfl | rfl <;> simp at hother)
      And.right
    cases f with
    | count =>
      rw [shown_count (hown aliasName List.mem_cons_self)]
      exact ⟨fun _ => trivial, fun _ => rfl⟩
    | countDistinct =>
      rw [shown_distinct hvalues_ne hcolumn (hown aliasName List.mem_cons_self)]
      change JsValue.num _ = .num _ ↔ NoNull _
      rw [num_inj, Nat.cast_inj, distinct_notNull_iff]
    | sum =>
      have htype := hnumber (by simp)
      rw [htype] at hcolumn
      rw [shown_sum hvalues_ne hcolumn (hown aliasName List.mem_cons_self)]
      change _ = sumValue _ ↔ notNull _ ≠ []
      unfold sumValue
      rw [ne_eq, ← numbers_eq_nil hcolumn]
      split
      · rename_i hnil
        exact ⟨fun h => (by cases h), fun h => absurd hnil h⟩
      · rename_i hsome
        exact ⟨fun _ => hsome, fun _ => rfl⟩
    | avg =>
      have htype := hnumber (by simp)
      rw [htype] at hcolumn
      rw [shown_avg hvalues_ne hcolumn hown]
      change _ = (if notNull _ = [] then JsValue.null else .num _) ↔ notNull _ ≠ [] ∧ _
      split
      · rename_i hnil
        exact ⟨fun h => (by cases h), fun h => absurd hnil h.1⟩
      · rename_i hsome
        have hlength : (columnValues rows c).length = (notNull (columnValues rows c)).length ↔
            NoNull (columnValues rows c) := by
          rw [noNull_iff_nulls, ← List.length_eq_zero_iff, length_notNull (columnValues rows c)]
          omega
        rw [num_inj, mean_iff (List.length_pos_iff.mpr hvalues_ne).ne' (List.length_pos_iff.mpr hsome).ne', hlength]
        exact (and_iff_right hsome).symm
    | min =>
      have ⟨m, hm, hmin⟩ := shown_min hvalues_ne (hown aliasName List.mem_cons_self)
      rw [hm]
      exact extreme_iff hcolumn hmin min?_numeric
    | max =>
      have ⟨m, hm, hmax⟩ := shown_max hvalues_ne (hown aliasName List.mem_cons_self)
      rw [hm]
      exact extreme_iff hcolumn hmax max?_numeric
    | other name => simp at hf

end

section

variable {parseFloat : String → Option ℚ} {le : String → String → Bool} {buckets : DateBuckets} {q : Query}
  {rows : List SourceRow} {key other : List JsValue} {answer answer' : AggregateSpec → JsValue}

theorem assignEntry_new {es : List (String × JsValue)} {k : String} {v : JsValue} (h : k ∉ es.map Prod.fst) :
    assignEntry k v es = es ++ [(k, v)] := by
  induction es with
  | nil => rfl
  | cons e es ih =>
    rw [List.map_cons, List.mem_cons, not_or] at h
    unfold assignEntry
    rw [if_neg (Ne.symm h.1), ih h.2]
    rfl

theorem entries_ofEntries {es : List (String × JsValue)} (h : (es.map Prod.fst).Nodup) :
    (Record.ofEntries es).entries = es := by
  induction es using List.reverseRecOn with
  | nil => rfl
  | append_singleton es e ih =>
    rw [List.map_append, List.nodup_append] at h
    have hnew : e.1 ∉ es.map Prod.fst := fun hmem => h.2.2 _ hmem _ List.mem_cons_self rfl
    unfold Record.ofEntries at ih ⊢
    rw [List.foldl_append, List.foldl_cons, List.foldl_nil]
    exact (congrArg (assignEntry e.1 e.2) (ih h.1)).trans (assignEntry_new hnew)

theorem resultRow_inj (hkey : key.length = q.plan.groupCols.length) (hother : other.length = q.plan.groupCols.length) :
    resultRow q.plan key answer = resultRow q.plan other answer' ↔
      key = other ∧ ∀ a ∈ q.plan.aggregates, answer a = answer' a := by
  have hnames : ∀ (k : List JsValue) (f : AggregateSpec → JsValue), k.length = q.plan.groupCols.length →
      ((q.plan.groupCols.map gName).zip k ++ q.plan.aggregates.map fun a => (a.aliasName, f a)).map Prod.fst =
        q.plan.groupCols.map gName ++ q.plan.aggregates.map AggregateSpec.aliasName := by
    intro k f hk
    rw [List.map_append, List.map_fst_zip (by rw [List.length_map, hk]), List.map_map]
    rfl
  have hentries : ∀ (k : List JsValue) (f : AggregateSpec → JsValue), k.length = q.plan.groupCols.length →
      (resultRow q.plan k f).entries =
        (q.plan.groupCols.map gName).zip k ++ q.plan.aggregates.map fun a => (a.aliasName, f a) := by
    intro k f hk
    apply entries_ofEntries
    rw [hnames k f hk]
    exact q.named
  constructor
  · intro h
    have hlists := congrArg Record.entries h
    rw [hentries key answer hkey, hentries other answer' hother] at hlists
    have hlength : ((q.plan.groupCols.map gName).zip key).length = ((q.plan.groupCols.map gName).zip other).length := by
      rw [List.length_zip, List.length_zip, hkey, hother]
    have ⟨hzip, hmap⟩ := List.append_inj hlists hlength
    constructor
    · have hsnd := congrArg (List.map Prod.snd) hzip
      rwa [List.map_snd_zip (by rw [List.length_map, hkey]), List.map_snd_zip (by rw [List.length_map, hother])] at hsnd
    · intro a ha
      exact (Prod.mk.inj (List.map_inj_left.mp hmap a ha)).2
  · intro ⟨hsame, hanswers⟩
    unfold resultRow
    rw [hsame, List.map_congr_left fun a ha => congrArg (Prod.mk a.aliasName) (hanswers a ha)]

theorem length_of_mem_keys {k : List JsValue} (h : k ∈ distinctKeys (rows.map (rawKey q.plan))) :
    k.length = q.plan.groupCols.length := by
  have ⟨row, _, hrow⟩ := List.mem_map.mp (mem_distinctKeys.mp h)
  rw [← hrow]
  exact List.length_map ..

theorem length_of_mem_sqlKeys {k : List JsValue} (h : k ∈ sqlKeys buckets q rows) :
    k.length = q.plan.groupCols.length := by
  unfold sqlKeys at h
  split at h
  · rename_i hnil
    rw [List.mem_singleton.mp h, hnil]
    rfl
  · have ⟨row, _, hrow⟩ := List.mem_map.mp (mem_distinctKeys.mp h)
    rw [← hrow]
    exact List.length_map ..

theorem sqlKeys_eq (hsome : q.plan.groupCols = [] → rows ≠ []) (htrunc : ∀ row ∈ rows, sqlKey buckets q row = rawKey q.plan row) :
    sqlKeys buckets q rows = distinctKeys (rows.map (rawKey q.plan)) := by
  unfold sqlKeys
  split
  · rename_i hnil
    have hkeys : ∀ k, k ∈ distinctKeys (rows.map (rawKey q.plan)) ↔ k ∈ [([] : List JsValue)] := by
      intro k
      rw [mem_distinctKeys, List.mem_map, List.mem_singleton]
      constructor
      · intro ⟨row, _, hrow⟩
        rw [← hrow]
        unfold rawKey
        rw [hnil]
        rfl
      · intro hk
        have ⟨row, hrow⟩ := List.exists_mem_of_ne_nil _ (hsome hnil)
        refine ⟨row, hrow, ?_⟩
        unfold rawKey
        rw [hnil, hk]
        rfl
    exact (List.perm_singleton.mp ((List.perm_ext_iff_of_nodup (nodup_distinctKeys _) (List.nodup_singleton _)).mpr hkeys)).symm
  · rw [List.map_congr_left htrunc]

theorem groups_iff (hsome : q.plan.groupCols = [] → rows ≠ [])
    (htrunc : ∀ row ∈ rows, sqlKey buckets q row = rawKey q.plan row) :
    GroupsAsSql le buckets q parseFloat rows ↔ ∀ row ∈ rows, ∀ a ∈ q.plan.aggregates,
      shown (running parseFloat q.plan (groupOf q rows (rawKey q.plan row))) a =
        sqlAnswer le q (groupOf q rows (rawKey q.plan row)) a := by
  have hgroup : ∀ key, (rows.filter fun row => sqlKey buckets q row = key) = groupOf q rows key := by
    intro key
    apply List.filter_congr
    intro row hrow
    rw [htrunc row hrow]
  unfold GroupsAsSql sqlGroups
  rw [aggregateRaw_eq, sqlKeys_eq hsome htrunc, map_perm_map_iff (List.Perm.refl _)]
  · simp only [hgroup]
    constructor
    · intro h row hrow
      have hkey : rawKey q.plan row ∈ distinctKeys (rows.map (rawKey q.plan)) :=
        mem_distinctKeys.mpr (List.mem_map_of_mem hrow)
      exact ((resultRow_inj (length_of_mem_keys hkey) (length_of_mem_keys hkey)).mp (h _ hkey)).2
    · intro h key hkey
      have ⟨row, hrow, hrowkey⟩ := List.mem_map.mp (mem_distinctKeys.mp hkey)
      rw [resultRow_inj (length_of_mem_keys hkey) (length_of_mem_keys hkey), ← hrowkey]
      exact ⟨rfl, h row hrow⟩
  · intro k hk k' hk' h
    exact ((resultRow_inj (length_of_mem_keys hk) (length_of_mem_keys hk')).mp h).1

theorem some_row_of_groups (h : GroupsAsSql le buckets q parseFloat rows) : q.plan.groupCols = [] → rows ≠ [] := by
  intro hnil hrows
  have hlength := h.length_eq
  unfold sqlGroups sqlKeys at hlength
  rw [hrows, if_pos hnil] at hlength
  cases hlength

theorem truncated_of_groups (h : GroupsAsSql le buckets q parseFloat rows) :
    ∀ row ∈ rows, sqlKey buckets q row = rawKey q.plan row := by
  intro row hrow
  have hkey : rawKey q.plan row ∈ distinctKeys (rows.map (rawKey q.plan)) :=
    mem_distinctKeys.mpr (List.mem_map_of_mem hrow)
  unfold GroupsAsSql at h
  rw [aggregateRaw_eq] at h
  have ⟨k, hk, hrowk⟩ := List.mem_map.mp (h.subset (List.mem_map_of_mem hkey))
  have hsame := ((resultRow_inj (length_of_mem_sqlKeys hk) (length_of_mem_keys hkey)).mp hrowk).1
  rw [hsame] at hk
  unfold sqlKeys at hk
  split at hk
  · rename_i hnil
    unfold sqlKey rawKey
    rw [hnil]
    rfl
  · have ⟨row', _, hrow'⟩ := List.mem_map.mp (mem_distinctKeys.mp hk)
    unfold sqlKey rawKey at hrow' ⊢
    rw [List.map_inj_left] at hrow' ⊢
    intro g hg
    rw [← hrow' g hg]
    cases g with
    | field path => rfl
    | bucket field dateInterval => exact buckets.start_start dateInterval _

end

def countAndMean : Query where
  plan := ⟨[], [⟨.count, none, "n"⟩, ⟨.avg, some "amount", "mean"⟩]⟩
  type _ := .number
  supported a ha := by
    rcases List.mem_cons.mp ha with rfl | ha
    · exact .rows "n"
    · rw [List.mem_singleton.mp ha]
      exact .column "mean" (by decide) (.inr ⟨by decide, rfl⟩)
  named := by decide
  apart := by decide

end DataFabric.RawAggregates
