import DataFabric.Aggregates
import Mathlib.Data.List.Pairwise

set_option autoImplicit false

/-!
# The rows of partial aggregates

What SQL answers to an aggregate query, under which names the values stand in partial,
merged and final rows, and what the merge of the partial rows of one group holds.
-/
namespace DataFabric.PartialAggregates
open JsValues OrderedRecords FederatedJoins KeyedJoins Aggregates

/-- What a date bucket makes of a value is the source's own. -/
def groupExpr (bucket : String → JsValue → JsValue) (row : SourceRow) : GroupBy → JsValue
  | .field path => orElse (column row (baseColumn path)) .null
  | .bucket field dateInterval => orElse (bucket dateInterval (column row (baseColumn field))) .null

/-- A bucket is named as its field, a column by the last part of its path. -/
def resultName : GroupBy → String
  | .field path => baseColumn path
  | .bucket field _ => field

def amount (row : SourceRow) (col : String) : Option ℚ :=
  match column row col with
  | .num q => some q
  | _ => none

def present (rows : List SourceRow) : Option String → List ℚ
  | some col => rows.filterMap fun row => amount row col
  | none => []

def sumValue (values : List ℚ) : JsValue := if values = [] then .null else .num values.sum

def optional (v : Option ℚ) : JsValue := v.elim .null .num

def sqlValue (rows : List SourceRow) (a : AggregateSpec) : JsValue :=
  let values := present rows a.column
  match a.func with
  | .count => .num (if a.column = none then rows.length else values.length)
  | .sum => sumValue values
  | .min => optional values.min?
  | .max => optional values.max?
  | .avg => if values = [] then .null else .num (values.sum / values.length)
  | .countDistinct => .num values.eraseDups.length
  | .other _ => .null

section

variable (bucket : String → JsValue → JsValue)

def sqlKey (groupCols : List GroupBy) (row : SourceRow) : List JsValue := groupCols.map (groupExpr bucket row)

def sqlKeys (groupCols : List GroupBy) (rows : List SourceRow) : List (List JsValue) :=
  if groupCols = [] then [[]] else (rows.map (sqlKey bucket groupCols)).eraseDups

def ofKey (groupCols : List GroupBy) (rows : List SourceRow) (key : List JsValue) : List SourceRow :=
  rows.filter fun row => sqlKey bucket groupCols row = key

def sqlRow (name : GroupBy → String) (plan : AggregatePlan) (key : List JsValue) (rows : List SourceRow) :
    SourceRow :=
  .ofEntries ((plan.groupCols.map name).zip key ++ plan.aggregates.map fun a => (a.aliasName, sqlValue rows a))

def sqlResult (name : GroupBy → String) (plan : AggregatePlan) (rows : List SourceRow) : List SourceRow :=
  (sqlKeys bucket plan.groupCols rows).map fun key => sqlRow name plan key (ofKey bucket plan.groupCols rows key)

def partialResult (plan : AggregatePlan) (rows : List SourceRow) : List SourceRow :=
  sqlResult bucket resultName (partialSpec plan) rows

/-- The aggregate over all rows, under the names of the query. -/
def totalResult (plan : AggregatePlan) (rows : List SourceRow) : List SourceRow :=
  sqlResult bucket gName plan rows

end

/-- The names under which an aggregate stands in partial and final rows. -/
def writtenNames (a : AggregateSpec) : List String :=
  a.aliasName :: if a.func = .avg then [sumName a.aliasName, cntName a.aliasName] else []

structure WellNamed (plan : AggregatePlan) : Prop where
  distinct : (plan.groupCols.map (fun g => baseColumn (gName g)) ++ plan.aggregates.flatMap writtenNames).Nodup
  apart : ∀ g ∈ plan.groupCols, gName g ∉ plan.aggregates.flatMap writtenNames

/-- `COUNT(*)`, `COUNT(c)`, `SUM(c)`, `MIN(c)`, `MAX(c)` or `AVG(c)` -/
def Decomposes (a : AggregateSpec) : Prop :=
  a.func = .count ∨ a.func ∈ [AggFunc.sum, .min, .max, .avg] ∧ a.column ≠ none

theorem baseColumn_resultName (g : GroupBy) : baseColumn (resultName g) = baseColumn (gName g) := by
  cases g with
  | field path => exact baseColumn_idem path
  | bucket field dateInterval => rfl

theorem resultName_eq (g : GroupBy) : resultName g = gName g ∨ resultName g = baseColumn (gName g) := by
  cases g with
  | field path => exact .inr rfl
  | bucket field dateInterval => exact .inl rfl

section

variable {plan : AggregatePlan}

theorem partial_aliases (plan : AggregatePlan) :
    ((partialSpec plan).aggregates.map AggregateSpec.aliasName).Sublist (plan.aggregates.flatMap writtenNames) := by
  rw [partialSpec]
  generalize plan.aggregates = aggregates
  induction aggregates with
  | nil => exact .slnil
  | cons a aggregates ih =>
    rw [List.flatMap_cons, List.flatMap_cons, List.map_append]
    apply List.Sublist.append _ ih
    by_cases mean : a.func = .avg
    · simp [writtenNames, mean]
    · simp [writtenNames, mean]

theorem WellNamed.group_inj (named : WellNamed plan) {g g' : GroupBy} (hg : g ∈ plan.groupCols)
    (hg' : g' ∈ plan.groupCols) (same : baseColumn (gName g) = baseColumn (gName g')) : g = g' :=
  List.inj_on_of_nodup_map (List.nodup_append.mp named.distinct).1 hg hg' same

theorem WellNamed.resultName_apart (named : WellNamed plan) {g : GroupBy} (hg : g ∈ plan.groupCols) :
    resultName g ∉ plan.aggregates.flatMap writtenNames := by
  rcases resultName_eq g with name | name
  · rw [name]
    exact named.apart g hg
  · rw [name]
    intro written
    exact (List.nodup_append.mp named.distinct).2.2 _ (List.mem_map_of_mem hg) _ written rfl

theorem aliases_sublist (plan : AggregatePlan) :
    (plan.aggregates.map AggregateSpec.aliasName).Sublist (plan.aggregates.flatMap writtenNames) := by
  generalize plan.aggregates = aggregates
  induction aggregates with
  | nil => exact .slnil
  | cons a aggregates ih =>
    rw [List.map_cons, List.flatMap_cons]
    exact (List.Sublist.cons_cons _ (List.nil_sublist _)).append ih

theorem WellNamed.alias_inj (named : WellNamed plan) {a b : AggregateSpec} (ha : a ∈ plan.aggregates)
    (hb : b ∈ plan.aggregates) {m : String} (own : m ∈ writtenNames a) (other : m ∈ writtenNames b) : a = b := by
  have apart := (List.nodup_flatMap.mp (List.nodup_append.mp named.distinct).2.1).2
  have : Std.Symm (Function.onFun List.Disjoint writtenNames) := ⟨fun _ _ disjoint _ own other => disjoint other own⟩
  by_contra differ
  exact apart.forall ha hb differ own other

theorem WellNamed.nodup (named : WellNamed plan) (name : GroupBy → String) (aliases : List String)
    (based : ∀ g, baseColumn (name g) = baseColumn (gName g))
    (apart : ∀ g ∈ plan.groupCols, name g ∉ plan.aggregates.flatMap writtenNames)
    (sub : aliases.Sublist (plan.aggregates.flatMap writtenNames)) :
    (plan.groupCols.map name ++ aliases).Nodup := by
  have distinct := List.nodup_append.mp named.distinct
  have names : (plan.groupCols.map name).Nodup := by
    apply List.Nodup.of_map baseColumn
    rw [List.map_map]
    simpa only [Function.comp_def, based] using distinct.1
  rw [List.nodup_append]
  refine ⟨names, distinct.2.1.sublist sub, ?_⟩
  intro a inNames b inAliases equal
  rcases List.mem_map.mp inNames with ⟨g, hg, rfl⟩
  exact apart g hg (equal ▸ sub.subset inAliases)

end

theorem column_of_get? {row : SourceRow} {name : String} {v : JsValue} (held : row.get? name = some v) :
    column row name = v := by
  rw [column, held, Option.getD_some]

theorem column_of_none {row : SourceRow} {name : String} (missing : row.get? name = none) :
    column row name = .undefined := by
  rw [column, missing, Option.getD_none]

section

variable {bucket : String → JsValue → JsValue} {plan : AggregatePlan} {rows : List SourceRow} {h : GroupBy → JsValue}

theorem exists_of_mem_sqlKeys {groupCols : List GroupBy} {key : List JsValue}
    (inKeys : key ∈ sqlKeys bucket groupCols rows) :
    ∃ h : GroupBy → JsValue, (∀ g, orElse (h g) .null = h g) ∧ key = groupCols.map h := by
  rw [sqlKeys] at inKeys
  split_ifs at inKeys with none
  · exact ⟨fun _ => .null, fun _ => rfl, by rw [List.mem_singleton.mp inKeys, none, List.map_nil]⟩
  · rw [List.mem_eraseDups, List.mem_map] at inKeys
    rcases inKeys with ⟨row, _, rfl⟩
    refine ⟨groupExpr bucket row, ?_, rfl⟩
    intro g
    have settled : ∀ v : JsValue, orElse (orElse v .null) .null = orElse v .null := by
      intro v
      rw [orElse]
      by_cases nullish : orElse v .null = .null
      · rw [nullish]
        rfl
      · rw [if_neg]
        intro h
        apply nullish
        rw [orElse] at h ⊢
        split_ifs at h ⊢
        · rfl
        · contradiction
    cases g with
    | field path => exact settled _
    | bucket field dateInterval => exact settled _

theorem get?_sqlRow (plan : AggregatePlan) (h : GroupBy → JsValue) (rows : List SourceRow) {name : GroupBy → String}
    (nodup : (plan.groupCols.map name ++ plan.aggregates.map AggregateSpec.aliasName).Nodup) (m : String)
    (v : JsValue) :
    (sqlRow name plan (plan.groupCols.map h) rows).get? m = some v ↔
      (∃ g ∈ plan.groupCols, name g = m ∧ h g = v) ∨ ∃ a ∈ plan.aggregates, a.aliasName = m ∧ sqlValue rows a = v := by
  have names : (((plan.groupCols.map name).zip (plan.groupCols.map h) ++
      plan.aggregates.map fun a => (a.aliasName, sqlValue rows a)).map Prod.fst).Nodup := by
    rw [List.map_append, List.map_fst_zip (by rw [List.length_map, List.length_map]), List.map_map]
    exact nodup
  rw [sqlRow, Record.get?_ofEntries names, lookup_eq_some_iff names, List.mem_append, List.zip_map', List.mem_map,
    List.mem_map]
  simp only [Prod.mk.injEq]

theorem mergeKey_sqlRow (named : WellNamed plan) (settled : ∀ g, orElse (h g) .null = h g) :
    mergeKey plan (sqlRow resultName (partialSpec plan) (plan.groupCols.map h) rows) = plan.groupCols.map h := by
  apply List.map_congr_left
  intro g hg
  have nodup := named.nodup _ _ baseColumn_resultName (fun g hg => named.resultName_apart hg) (partial_aliases plan)
  have read : ∀ m, baseColumn m = baseColumn (gName g) → m ∉ plan.aggregates.flatMap writtenNames →
      column (sqlRow resultName (partialSpec plan) (plan.groupCols.map h) rows) m =
        if m = resultName g then h g else .undefined := by
    intro m based apart
    have held := get?_sqlRow (partialSpec plan) h rows nodup m
    by_cases same : m = resultName g
    · rw [if_pos same]
      exact column_of_get? ((held _).mpr (.inl ⟨g, hg, same.symm, rfl⟩))
    · rw [if_neg same]
      apply column_of_none
      rw [Option.eq_none_iff_forall_not_mem]
      intro v value
      rcases (held v).mp value with ⟨g', hg', name, _⟩ | ⟨a, ha, name, _⟩
      · apply same
        rw [← named.group_inj hg' hg (by rw [← baseColumn_resultName, name, based]), name]
      · exact apart (name ▸ (partial_aliases plan).subset (List.mem_map_of_mem ha))
  have baseApart : baseColumn (gName g) ∉ plan.aggregates.flatMap writtenNames :=
    fun written => (List.nodup_append.mp named.distinct).2.2 _ (List.mem_map_of_mem hg) _ written rfl
  rw [groupValue, read _ rfl (named.apart g hg), read _ (baseColumn_idem _) baseApart]
  have value := settled g
  rcases resultName_eq g with name | name
  · rw [if_pos name.symm]
    split_ifs
    · rw [value, orElse, ite_self]
    · exact value
  · rw [if_pos name.symm, value]
    split_ifs
    · rw [orElse, ite_self]
    · rfl

end

section

variable (parseFloat : String → Option ℚ)

/-- What an aggregate keeps of a group, and how it takes in a partial value. -/
def slots (a : AggregateSpec) : List (String × (JsValue → JsValue → JsValue)) :=
  match a.func with
  | .avg => [(sumName a.aliasName, add parseFloat), (cntName a.aliasName, add parseFloat)]
  | .count | .sum | .countDistinct => [(a.aliasName, add parseFloat)]
  | .min => [(a.aliasName, Aggregates.fold parseFloat min)]
  | .max => [(a.aliasName, Aggregates.fold parseFloat max)]
  | .other _ => []

def takeIn (row acc : SourceRow) (slot : String × (JsValue → JsValue → JsValue)) : SourceRow :=
  acc.assign slot.1 (slot.2 (column acc slot.1) (column row slot.1))

theorem mergeOne_eq (row acc : SourceRow) (a : AggregateSpec) :
    mergeOne parseFloat row acc a = (slots parseFloat a).foldl (takeIn row) acc := by
  rcases a with ⟨func, col, aliasName⟩
  cases func <;> rfl

def planSlots (plan : AggregatePlan) : List (String × (JsValue → JsValue → JsValue)) :=
  plan.aggregates.flatMap (slots parseFloat)

theorem mergeRowInto_eq (plan : AggregatePlan) (acc row : SourceRow) :
    mergeRowInto parseFloat plan acc row = (planSlots parseFloat plan).foldl (takeIn row) acc := by
  rw [mergeRowInto, planSlots]
  generalize plan.aggregates = aggregates
  induction aggregates generalizing acc with
  | nil => rfl
  | cons a aggregates ih => rw [List.foldl_cons, mergeOne_eq, List.flatMap_cons, List.foldl_append, ih]

theorem slots_names (a : AggregateSpec) : ((slots parseFloat a).map Prod.fst).Sublist (writtenNames a) := by
  rcases a with ⟨func, col, aliasName⟩
  cases func <;> simp [slots, writtenNames]

variable {parseFloat} {plan : AggregatePlan}

theorem planSlots_nodup (named : WellNamed plan) : ((planSlots parseFloat plan).map Prod.fst).Nodup := by
  have distinct := (List.nodup_append.mp named.distinct).2.1
  rw [planSlots]
  generalize plan.aggregates = aggregates at distinct
  have sub : ((aggregates.flatMap (slots parseFloat)).map Prod.fst).Sublist (aggregates.flatMap writtenNames) := by
    clear distinct
    induction aggregates with
    | nil => exact .slnil
    | cons a aggregates ih =>
      rw [List.flatMap_cons, List.flatMap_cons, List.map_append]
      exact (slots_names parseFloat a).append ih
  exact distinct.sublist sub

theorem get?_mergeRowInto (named : WellNamed plan) (acc row : SourceRow) (m : String) :
    (mergeRowInto parseFloat plan acc row).get? m =
      (((planSlots parseFloat plan).lookup m).map fun f => f (column acc m) (column row m)).or (acc.get? m) := by
  rw [mergeRowInto_eq]
  exact Record.get?_foldl_update (fun m old f => f (old.getD .undefined) (column row m)) (planSlots_nodup named) acc m

theorem column_mergeRows (named : WellNamed plan) {m : String} {f : JsValue → JsValue → JsValue}
    (slot : (m, f) ∈ planSlots parseFloat plan) (rows : List SourceRow) (acc : SourceRow) :
    column (rows.foldl (mergeRowInto parseFloat plan) acc) m =
      (rows.map (column · m)).foldl f (column acc m) := by
  induction rows generalizing acc with
  | nil => rfl
  | cons row rows ih =>
    rw [List.foldl_cons, ih, List.map_cons, List.foldl_cons]
    congr 1
    apply column_of_get?
    rw [get?_mergeRowInto named, (lookup_eq_some_iff (planSlots_nodup named) m f).mpr slot]
    rfl

theorem get?_mergeRows (named : WellNamed plan) {rows : List SourceRow} (nonempty : rows ≠ []) (acc : SourceRow)
    (m : String) :
    (rows.foldl (mergeRowInto parseFloat plan) acc).get? m =
      (((planSlots parseFloat plan).lookup m).map fun f => (rows.map (column · m)).foldl f (column acc m)).or
        (acc.get? m) := by
  induction rows using List.reverseRecOn with
  | nil => contradiction
  | append_singleton rows row ih =>
    rw [List.foldl_append, List.foldl_cons, List.foldl_nil, get?_mergeRowInto named]
    cases slot : (planSlots parseFloat plan).lookup m with
    | none =>
      rw [Option.map_none, Option.map_none, Option.none_or, Option.none_or]
      cases rows with
      | nil => rfl
      | cons first rows =>
        rw [ih (List.cons_ne_nil _ _), slot]
        rfl
    | some f =>
      have folded := column_mergeRows named ((lookup_eq_some_iff (planSlots_nodup named) m f).mp slot) rows acc
      rw [Option.map_some, Option.map_some, Option.some_or, Option.some_or, folded, List.map_append,
        List.foldl_append]
      rfl

theorem get?_finishOne_frame {a : AggregateSpec} {m : String} (apart : m ∉ writtenNames a) (acc : SourceRow) :
    (finishOne parseFloat acc a).get? m = acc.get? m := by
  rcases a with ⟨func, col, aliasName⟩
  cases func with
  | avg =>
    simp only [writtenNames, List.mem_cons, if_true, List.not_mem_nil, or_false, not_or] at apart
    simp [finishOne, apart]
  | _ => rfl

theorem get?_finish_frame {aggregates : List AggregateSpec} {m : String} (apart : m ∉ aggregates.flatMap writtenNames)
    (acc : SourceRow) : (aggregates.foldl (finishOne parseFloat) acc).get? m = acc.get? m := by
  induction aggregates generalizing acc with
  | nil => rfl
  | cons a aggregates ih =>
    rw [List.flatMap_cons, List.mem_append, not_or] at apart
    rw [List.foldl_cons, ih apart.2, get?_finishOne_frame apart.1]

def finished (parseFloat : String → Option ℚ) (a : AggregateSpec) (acc : SourceRow) (m : String) : Option JsValue :=
  (finishOne parseFloat acc a).get? m

theorem finished_congr {a : AggregateSpec} {acc acc' : SourceRow} (same : ∀ m ∈ writtenNames a, acc.get? m = acc'.get? m)
    {m : String} (written : m ∈ writtenNames a) : finished parseFloat a acc m = finished parseFloat a acc' m := by
  rcases a with ⟨func, col, aliasName⟩
  cases func with
  | avg =>
    have hidden : ∀ m ∈ [sumName aliasName, cntName aliasName], column acc m = column acc' m := by
      intro m inHidden
      rw [column, column, same m (by simpa [writtenNames] using .inr (by simpa using inHidden))]
    simp only [finished, finishOne, Record.get?_erase, Record.get?_assign, hidden _ List.mem_cons_self,
      hidden _ (List.mem_cons_of_mem _ List.mem_cons_self), same m written]
  | _ => exact same m written

theorem get?_finish (named : WellNamed plan) {a : AggregateSpec} (ha : a ∈ plan.aggregates) {m : String}
    (written : m ∈ writtenNames a) (acc : SourceRow) :
    (plan.aggregates.foldl (finishOne parseFloat) acc).get? m = finished parseFloat a acc m := by
  have distinct := (List.nodup_append.mp named.distinct).2.1
  rcases List.append_of_mem ha with ⟨before, after, split⟩
  rw [split] at distinct ⊢
  rw [List.flatMap_append, List.flatMap_cons, List.nodup_append] at distinct
  have apartAfter : m ∉ after.flatMap writtenNames := fun inAfter =>
    (List.nodup_append.mp distinct.2.1).2.2 m written m inAfter rfl
  rw [List.foldl_append, List.foldl_cons, get?_finish_frame apartAfter]
  apply finished_congr _ written
  intro m written
  apply get?_finish_frame
  intro inBefore
  exact distinct.2.2 m inBefore m (List.mem_append_left _ written) rfl

end

section

variable {parseFloat : String → Option ℚ} {plan : AggregatePlan} {h : GroupBy → JsValue}
  {parts : List (List SourceRow)}

/-- The partial rows of one group, by the rows each source has of it. -/
def partialRows (plan : AggregatePlan) (key : List JsValue) (parts : List (List SourceRow)) : List SourceRow :=
  parts.map fun rows => sqlRow resultName (partialSpec plan) key rows

def mergedGroup (parseFloat : String → Option ℚ) (plan : AggregatePlan) (key : List JsValue)
    (parts : List (List SourceRow)) : SourceRow :=
  plan.aggregates.foldl (finishOne parseFloat)
    ((partialRows plan key parts).foldl (mergeRowInto parseFloat plan) (groupRow plan key))

def foldParts (parts : List (List SourceRow)) (f : JsValue → JsValue → JsValue) (a : AggregateSpec) : JsValue :=
  (parts.map fun rows => sqlValue rows a).foldl f .undefined

def meanOf (s c : ℚ) : JsValue := if 0 < c then .num (s / c) else .null

def mergedValue (parseFloat : String → Option ℚ) (parts : List (List SourceRow)) (a : AggregateSpec) : JsValue :=
  match a.func with
  | .avg =>
    meanOf (numeric parseFloat (foldParts parts (add parseFloat) ⟨.sum, a.column, sumName a.aliasName⟩))
      (numeric parseFloat (foldParts parts (add parseFloat) ⟨.count, a.column, cntName a.aliasName⟩))
  | .min => foldParts parts (Aggregates.fold parseFloat min) a
  | .max => foldParts parts (Aggregates.fold parseFloat max) a
  | _ => foldParts parts (add parseFloat) a

theorem get?_groupRow (named : WellNamed plan) (m : String) (v : JsValue) :
    (groupRow plan (plan.groupCols.map h)).get? m = some v ↔ ∃ g ∈ plan.groupCols, gName g = m ∧ h g = v := by
  have nodup := named.nodup _ _ (fun _ => rfl) named.apart (List.nil_sublist _)
  rw [List.append_nil] at nodup
  have names : (((plan.groupCols.map gName).zip (plan.groupCols.map h)).map Prod.fst).Nodup := by
    rw [List.map_fst_zip (by rw [List.length_map, List.length_map])]
    exact nodup
  rw [groupRow, Record.get?_ofEntries names, lookup_eq_some_iff names, List.zip_map', List.mem_map]
  simp only [Prod.mk.injEq]

theorem column_groupRow (named : WellNamed plan) {m : String} (written : m ∈ plan.aggregates.flatMap writtenNames) :
    column (groupRow plan (plan.groupCols.map h)) m = .undefined := by
  apply column_of_none
  rw [Option.eq_none_iff_forall_not_mem]
  intro v held
  rcases (get?_groupRow named m v).mp held with ⟨g, hg, rfl, _⟩
  exact named.apart g hg written

theorem get?_slot (parseFloat : String → Option ℚ) (h : GroupBy → JsValue) (named : WellNamed plan) (nonempty : parts ≠ []) {b : AggregateSpec}
    (hb : b ∈ (partialSpec plan).aggregates) {f : JsValue → JsValue → JsValue}
    (slot : (b.aliasName, f) ∈ planSlots parseFloat plan) :
    ((partialRows plan (plan.groupCols.map h) parts).foldl (mergeRowInto parseFloat plan)
      (groupRow plan (plan.groupCols.map h))).get? b.aliasName = some (foldParts parts f b) := by
  have rows : partialRows plan (plan.groupCols.map h) parts ≠ [] := fun none => nonempty (List.map_eq_nil_iff.mp none)
  have written := (partial_aliases plan).subset (List.mem_map_of_mem hb)
  rw [get?_mergeRows named rows, (lookup_eq_some_iff (planSlots_nodup named) _ f).mpr slot, column_groupRow named written,
    Option.map_some, Option.some_or, foldParts, partialRows, List.map_map]
  congr 2
  apply List.map_congr_left
  intro rows _
  apply column_of_get?
  have nodup := named.nodup _ _ baseColumn_resultName (fun g hg => named.resultName_apart hg) (partial_aliases plan)
  exact (get?_sqlRow (partialSpec plan) h _ nodup _ _).mpr (.inr ⟨b, hb, rfl, rfl⟩)

theorem mem_partialSpec {a : AggregateSpec} (ha : a ∈ plan.aggregates) (plain : a.func ≠ .avg) :
    a ∈ (partialSpec plan).aggregates := by
  rw [partialSpec, List.mem_flatMap]
  exact ⟨a, ha, by simp [plain]⟩

theorem mem_partialSpec_avg {a : AggregateSpec} (ha : a ∈ plan.aggregates) (mean : a.func = .avg) :
    (⟨.sum, a.column, sumName a.aliasName⟩ : AggregateSpec) ∈ (partialSpec plan).aggregates ∧
      (⟨.count, a.column, cntName a.aliasName⟩ : AggregateSpec) ∈ (partialSpec plan).aggregates := by
  rw [partialSpec, List.mem_flatMap, List.mem_flatMap]
  exact ⟨⟨a, ha, by simp [mean]⟩, ⟨a, ha, by simp [mean]⟩⟩

theorem mem_planSlots {a : AggregateSpec} (ha : a ∈ plan.aggregates) {slot : String × (JsValue → JsValue → JsValue)}
    (own : slot ∈ slots parseFloat a) : slot ∈ planSlots parseFloat plan :=
  List.mem_flatMap.mpr ⟨a, ha, own⟩

theorem get?_alias (named : WellNamed plan) (nonempty : parts ≠ []) {a : AggregateSpec} (ha : a ∈ plan.aggregates)
    (known : Decomposes a) :
    (mergedGroup parseFloat plan (plan.groupCols.map h) parts).get? a.aliasName =
      some (mergedValue parseFloat parts a) := by
  have slot {b : AggregateSpec} (hb : b ∈ (partialSpec plan).aggregates) {f : JsValue → JsValue → JsValue}
      (own : (b.aliasName, f) ∈ slots parseFloat a) :=
    get?_slot parseFloat h named nonempty hb (mem_planSlots ha own)
  rw [mergedGroup, get?_finish named ha List.mem_cons_self]
  rcases a with ⟨func, col, aliasName⟩
  cases func with
  | avg =>
    have both := mem_partialSpec_avg ha rfl
    have sum := column_of_get? (slot both.1 List.mem_cons_self)
    have cnt := column_of_get? (slot both.2 (List.mem_cons_of_mem _ List.mem_cons_self))
    have distinct := (List.nodup_append.mp named.distinct).2.1
    have own : (writtenNames ⟨.avg, col, aliasName⟩).Nodup :=
      (List.nodup_flatMap.mp distinct).1 _ ha
    simp only [writtenNames, if_true, List.nodup_cons, List.mem_cons, List.not_mem_nil, or_false, not_or] at own
    dsimp only at sum cnt
    simp only [finished, finishOne, Record.get?_erase, Record.get?_assign, own.1.1, own.1.2, if_false, if_true, sum, cnt,
      mergedValue, meanOf]
  | count => exact slot (mem_partialSpec ha (by simp)) List.mem_cons_self
  | sum => exact slot (mem_partialSpec ha (by simp)) List.mem_cons_self
  | min => exact slot (mem_partialSpec ha (by simp)) List.mem_cons_self
  | max => exact slot (mem_partialSpec ha (by simp)) List.mem_cons_self
  | countDistinct => exact slot (mem_partialSpec ha (by simp)) List.mem_cons_self
  | other name => simp [Decomposes] at known

theorem get?_mergedGroup (parseFloat : String → Option ℚ) (h : GroupBy → JsValue) (named : WellNamed plan) (known : ∀ a ∈ plan.aggregates, Decomposes a) (nonempty : parts ≠ [])
    (m : String) (v : JsValue) :
    (mergedGroup parseFloat plan (plan.groupCols.map h) parts).get? m = some v ↔
      (∃ g ∈ plan.groupCols, gName g = m ∧ h g = v) ∨
        ∃ a ∈ plan.aggregates, a.aliasName = m ∧ mergedValue parseFloat parts a = v := by
  by_cases written : m ∈ plan.aggregates.flatMap writtenNames
  · have noGroup : ¬ ∃ g ∈ plan.groupCols, gName g = m ∧ h g = v := by
      rintro ⟨g, hg, rfl, _⟩
      exact named.apart g hg written
    rw [or_iff_right noGroup]
    rcases List.mem_flatMap.mp written with ⟨a, ha, own⟩
    by_cases shown : m = a.aliasName
    · subst shown
      rw [get?_alias named nonempty ha (known a ha), Option.some.injEq]
      constructor
      · exact fun value => ⟨a, ha, rfl, value⟩
      · rintro ⟨b, hb, same, value⟩
        rwa [named.alias_inj hb ha List.mem_cons_self (same ▸ List.mem_cons_self)] at value
    · constructor
      · intro held
        rw [mergedGroup, get?_finish named ha own] at held
        rcases a with ⟨func, col, aliasName⟩
        cases func <;> simp [writtenNames, shown] at own
        rcases own with rfl | rfl
        · simp [finished, finishOne] at held
        · simp [finished, finishOne] at held
      · rintro ⟨b, hb, rfl, _⟩
        exact absurd (congrArg AggregateSpec.aliasName (named.alias_inj hb ha List.mem_cons_self own)) shown
  · have noAlias : ¬ ∃ a ∈ plan.aggregates, a.aliasName = m ∧ mergedValue parseFloat parts a = v := by
      rintro ⟨a, ha, rfl, _⟩
      exact written (List.mem_flatMap.mpr ⟨a, ha, List.mem_cons_self⟩)
    rw [or_iff_left noAlias, ← get?_groupRow named, mergedGroup, get?_finish_frame written]
    have rows : partialRows plan (plan.groupCols.map h) parts ≠ [] :=
      fun none => nonempty (List.map_eq_nil_iff.mp none)
    have noSlot : (planSlots parseFloat plan).lookup m = none := by
      rw [List.lookup_eq_none_iff]
      rintro ⟨name, f⟩ slot
      rcases List.mem_flatMap.mp slot with ⟨a, ha, own⟩
      rw [bne_iff_ne]
      rintro rfl
      exact written (List.mem_flatMap.mpr ⟨a, ha, (slots_names parseFloat a).subset (List.mem_map_of_mem own)⟩)
    rw [get?_mergeRows named rows, noSlot]
    rfl

end

end DataFabric.PartialAggregates
