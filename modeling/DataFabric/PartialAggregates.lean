import DataFabric.PartialRows
import Mathlib.Algebra.BigOperators.Ring.Finset
import Mathlib.Data.Nat.Cast.Order.Ring

set_option autoImplicit false

/-!
# Partial aggregates against the aggregate of all rows

Each source answers the partial plan with one row for each of its groups, and the rows of
all sources are merged. COUNT and AVG come out as over all rows together; SUM turns a
group without values to 0, and MIN and MAX take a source without values for a 0.
-/
namespace DataFabric.PartialAggregates
open JsValues OrderedRecords FederatedJoins KeyedJoins Aggregates

section

variable {parseFloat : String → Option ℚ}

theorem present_flatten (parts : List (List SourceRow)) (col : Option String) :
    present parts.flatten col = (parts.map fun rows => present rows col).flatten := by
  cases col with
  | none =>
    symm
    rw [present, List.flatten_eq_nil_iff]
    intro values inValues
    rcases List.mem_map.mp inValues with ⟨rows, _, rfl⟩
    rfl
  | some col => exact List.filterMap_flatten

theorem foldl_add {vs : List JsValue} (nonempty : vs ≠ []) (v : JsValue) :
    vs.foldl (add parseFloat) v = .num (numeric parseFloat v + (vs.map (numeric parseFloat)).sum) := by
  induction vs generalizing v with
  | nil => contradiction
  | cons w vs ih =>
    rw [List.foldl_cons, List.map_cons, List.sum_cons]
    cases vs with
    | nil => simp [add]
    | cons u vs =>
      rw [ih (List.cons_ne_nil _ _), ← add_assoc]
      rfl

theorem numeric_sumValue (values : List ℚ) : numeric parseFloat (sumValue values) = values.sum := by
  rw [sumValue]
  split_ifs with none
  · rw [none]
    rfl
  · rfl

variable {parts : List (List SourceRow)}

theorem foldParts_sum (nonempty : parts ≠ []) (col : Option String) (aliasName : String) :
    foldParts parts (add parseFloat) ⟨.sum, col, aliasName⟩ = .num (present parts.flatten col).sum := by
  have numbers : (parts.map fun rows => numeric parseFloat (sqlValue rows ⟨.sum, col, aliasName⟩)) =
      parts.map fun rows => (present rows col).sum :=
    List.map_congr_left fun rows _ => numeric_sumValue _
  rw [foldParts, foldl_add (fun none => nonempty (List.map_eq_nil_iff.mp none)), List.map_map, Function.comp_def, numbers,
    present_flatten, List.sum_flatten, List.map_map]
  exact congrArg JsValue.num (zero_add _)

theorem foldParts_count (nonempty : parts ≠ []) (col : Option String) (aliasName : String) :
    foldParts parts (add parseFloat) ⟨.count, col, aliasName⟩ =
      .num (if col = none then parts.flatten.length else (present parts.flatten col).length) := by
  rw [foldParts, foldl_add (fun none => nonempty (List.map_eq_nil_iff.mp none)), List.map_map]
  have start : numeric parseFloat .undefined = 0 := rfl
  rw [start, zero_add]
  congr 1
  rw [present_flatten, List.length_flatten, List.length_flatten, List.map_map]
  by_cases all : col = none
  · simp [all, sqlValue, numeric, Function.comp_def, Nat.cast_list_sum]
  · simp [all, sqlValue, numeric, Function.comp_def, Nat.cast_list_sum]

theorem sum_exact (nonempty : parts ≠ []) (col : Option String) (aliasName : String) :
    mergedValue parseFloat parts ⟨.sum, col, aliasName⟩ = sqlValue parts.flatten ⟨.sum, col, aliasName⟩ ↔
      present parts.flatten col ≠ [] := by
  change foldParts parts (add parseFloat) _ = sumValue (present parts.flatten col) ↔ _
  rw [foldParts_sum nonempty, sumValue]
  split_ifs with none
  · simp [none]
  · simp [none]

theorem count_exact (nonempty : parts ≠ []) (col : Option String) (aliasName : String) :
    mergedValue parseFloat parts ⟨.count, col, aliasName⟩ = sqlValue parts.flatten ⟨.count, col, aliasName⟩ := by
  change foldParts parts (add parseFloat) _ = _
  rw [foldParts_count nonempty]
  rfl

theorem avg_exact (nonempty : parts ≠ []) (col : String) (aliasName : String) :
    mergedValue parseFloat parts ⟨.avg, some col, aliasName⟩ =
      sqlValue parts.flatten ⟨.avg, some col, aliasName⟩ := by
  rw [mergedValue]
  dsimp only
  rw [foldParts_sum nonempty, foldParts_count nonempty, if_neg (Option.some_ne_none col), sqlValue]
  simp only [numeric, meanOf, Nat.cast_pos, List.length_pos_iff]
  split_ifs <;> first | rfl | contradiction

end

/-- `f` keeps the better of two numbers and `best` finds the best of a list. -/
structure Selects (le : ℚ → ℚ → Prop) (f : ℚ → ℚ → ℚ) (best : List ℚ → Option ℚ) : Prop where
  trans : ∀ {a b c}, le a b → le b c → le a c
  antisymm : ∀ {a b}, le a b → le b a → a = b
  choose : ∀ a b, f a b = a ∧ le a b ∨ f a b = b ∧ le b a
  best_iff : ∀ {l m}, best l = some m ↔ m ∈ l ∧ ∀ v ∈ l, le m v
  none_iff : ∀ {l}, best l = none ↔ l = []

theorem selects_min : Selects (· ≤ ·) min List.min? where
  trans := le_trans
  antisymm := le_antisymm
  choose a b := by
    rcases le_total a b with h | h
    · exact .inl ⟨min_eq_left h, h⟩
    · exact .inr ⟨min_eq_right h, h⟩
  best_iff := List.min?_eq_some_iff
  none_iff := List.min?_eq_none_iff

theorem selects_max : Selects (fun a b => b ≤ a) max List.max? where
  trans h h' := h'.trans h
  antisymm h h' := le_antisymm h' h
  choose a b := by
    rcases le_total a b with h | h
    · exact .inr ⟨max_eq_right h, h⟩
    · exact .inl ⟨max_eq_left h, h⟩
  best_iff := List.max?_eq_some_iff
  none_iff := List.max?_eq_none_iff

section

variable {parseFloat : String → Option ℚ} {le : ℚ → ℚ → Prop} {f : ℚ → ℚ → ℚ} {best : List ℚ → Option ℚ}

theorem Selects.refl (sel : Selects le f best) (a : ℚ) : le a a := by
  rcases sel.choose a a with ⟨_, h⟩ | ⟨_, h⟩ <;> exact h

theorem Selects.foldl (sel : Selects le f best) (a : ℚ) (l : List ℚ) :
    l.foldl f a ∈ a :: l ∧ ∀ n ∈ a :: l, le (l.foldl f a) n := by
  induction l generalizing a with
  | nil => exact ⟨List.mem_cons_self, fun n h => by rw [List.mem_singleton.mp h]; exact sel.refl a⟩
  | cons b l ih =>
    have kept := ih (f a b)
    rw [List.foldl_cons]
    have better : le (f a b) a ∧ le (f a b) b ∧ f a b ∈ [a, b] := by
      rcases sel.choose a b with ⟨h, h'⟩ | ⟨h, h'⟩
      · rw [h]
        exact ⟨sel.refl a, h', List.mem_cons_self⟩
      · rw [h]
        exact ⟨h', sel.refl b, List.mem_cons_of_mem _ List.mem_cons_self⟩
    constructor
    · rcases List.mem_cons.mp kept.1 with h | h
      · rw [h]
        exact List.mem_append_left l better.2.2
      · exact List.mem_cons_of_mem _ (List.mem_cons_of_mem _ h)
    · intro n inList
      have least := kept.2 _ List.mem_cons_self
      rcases List.mem_cons.mp inList with rfl | inList
      · exact sel.trans least better.1
      · rcases List.mem_cons.mp inList with rfl | inList
        · exact sel.trans least better.2.1
        · exact kept.2 n (List.mem_cons_of_mem _ inList)

theorem foldl_fold {v : JsValue} (present : v ≠ .undefined) {vs : List JsValue} (nonempty : vs ≠ []) :
    vs.foldl (Aggregates.fold parseFloat f) v =
      .num ((vs.map (numeric parseFloat)).foldl f (numeric parseFloat v)) := by
  induction vs generalizing v with
  | nil => contradiction
  | cons w vs ih =>
    rw [List.foldl_cons, List.map_cons, List.foldl_cons, Aggregates.fold, if_neg present]
    cases vs with
    | nil => rfl
    | cons u vs => exact ih nofun (List.cons_ne_nil _ _)

theorem Selects.exact (parseFloat : String → Option ℚ) (sel : Selects le f best) {vss : List (List ℚ)} (nonempty : vss ≠ []) :
    (vss.map fun vs => optional (best vs)).foldl (Aggregates.fold parseFloat f) .undefined =
        optional (best vss.flatten) ↔
      vss.length ≤ 1 ∨ (∀ vs ∈ vss, vs ≠ []) ∨ ∃ v ∈ vss.flatten, le v 0 := by
  rcases vss with _ | ⟨vs, _ | ⟨ws, rest⟩⟩
  · contradiction
  · simp [Aggregates.fold]
  · have first : optional (best vs) ≠ .undefined := by cases best vs <;> nofun
    have start : Aggregates.fold parseFloat f .undefined (optional (best vs)) = optional (best vs) := if_pos rfl
    rw [List.map_cons, List.foldl_cons, start, foldl_fold first (by simp), List.map_map,
      or_iff_right (by simp)]
    generalize hx : List.foldl f _ _ = x
    have kept := sel.foldl (numeric parseFloat (optional (best vs)))
      ((ws :: rest).map (numeric parseFloat ∘ fun vs => optional (best vs)))
    rw [hx] at kept
    change x ∈ (vs :: ws :: rest).map (numeric parseFloat ∘ fun vs => optional (best vs)) ∧
      ∀ n ∈ (vs :: ws :: rest).map (numeric parseFloat ∘ fun vs => optional (best vs)), le x n at kept
    generalize vs :: ws :: rest = vss at kept
    have lower : ∀ v ∈ vss.flatten, le x v := by
      intro v inAll
      rcases List.mem_flatten.mp inAll with ⟨part, inParts, inPart⟩
      have bound := kept.2 _ (List.mem_map_of_mem inParts)
      cases least : best part with
      | none => exact absurd inPart (sel.none_iff.mp least ▸ List.not_mem_nil)
      | some m =>
        rw [Function.comp_apply, least] at bound
        exact sel.trans bound ((sel.best_iff.mp least).2 v inPart)
    have exact_iff : .num x = optional (best vss.flatten) ↔ x ∈ vss.flatten := by
      constructor
      · intro equal
        cases least : best vss.flatten with
        | none =>
          rw [least] at equal
          cases equal
        | some m =>
          rw [least] at equal
          cases equal
          exact (sel.best_iff.mp least).1
      · intro inAll
        rw [sel.best_iff.mpr ⟨inAll, lower⟩]
        rfl
    rw [exact_iff]
    rcases List.mem_map.mp kept.1 with ⟨part, inParts, value⟩
    rw [Function.comp_apply] at value
    constructor
    · intro inAll
      by_cases full : ∀ vs ∈ vss, vs ≠ []
      · exact .inl full
      · right
        push Not at full
        rcases full with ⟨empty, inParts, rfl⟩
        have bound := kept.2 _ (List.mem_map_of_mem inParts)
        rw [Function.comp_apply, sel.none_iff.mpr rfl] at bound
        exact ⟨x, inAll, bound⟩
    · intro good
      cases least : best part with
      | some m =>
        rw [least] at value
        change m = x at value
        rw [← value]
        exact List.mem_flatten.mpr ⟨part, inParts, (sel.best_iff.mp least).1⟩
      | none =>
        rw [least] at value
        change 0 = x at value
        rcases good with full | ⟨v, inAll, nonpositive⟩
        · exact absurd (sel.none_iff.mp least) (full part inParts)
        · have same := sel.antisymm nonpositive (value ▸ lower v inAll)
          rwa [← value, ← same]

end

/-- Where the merged value of an aggregate is the one over all rows of the group, given the rows
of each source that has the group. -/
def AggregateSplits (parts : List (List SourceRow)) (a : AggregateSpec) : Prop :=
  match a.func with
  | .sum => present parts.flatten a.column ≠ []
  | .min =>
    parts.length ≤ 1 ∨ (∀ part ∈ parts, present part a.column ≠ []) ∨ ∃ v ∈ present parts.flatten a.column, v ≤ 0
  | .max =>
    parts.length ≤ 1 ∨ (∀ part ∈ parts, present part a.column ≠ []) ∨ ∃ v ∈ present parts.flatten a.column, 0 ≤ v
  | _ => True

section

variable {parseFloat : String → Option ℚ} {parts : List (List SourceRow)}

theorem mergedValue_eq_iff (nonempty : parts ≠ []) {a : AggregateSpec} (known : Decomposes a) :
    mergedValue parseFloat parts a = sqlValue parts.flatten a ↔ AggregateSplits parts a := by
  rcases a with ⟨func, col, aliasName⟩
  have columns : (parts.map fun rows => present rows col) ≠ [] := fun none => nonempty (List.map_eq_nil_iff.mp none)
  cases func with
  | count => exact iff_of_true (count_exact nonempty col aliasName) trivial
  | sum => exact sum_exact nonempty col aliasName
  | min =>
    have exact_iff := selects_min.exact parseFloat columns
    rw [List.map_map, ← present_flatten, List.length_map, List.forall_mem_map] at exact_iff
    exact exact_iff
  | max =>
    have exact_iff := selects_max.exact parseFloat columns
    rw [List.map_map, ← present_flatten, List.length_map, List.forall_mem_map] at exact_iff
    exact exact_iff
  | avg =>
    cases col with
    | none => simp [Decomposes] at known
    | some col => exact iff_of_true (avg_exact nonempty col aliasName) trivial
  | countDistinct => simp [Decomposes] at known
  | other name => simp [Decomposes] at known

end

section

variable {bucket : String → JsValue → JsValue} {plan : AggregatePlan} {sources answers : List (List SourceRow)}
  {parseFloat : String → Option ℚ}

def groupParts (bucket : String → JsValue → JsValue) (groupCols : List GroupBy) (sources : List (List SourceRow))
    (key : List JsValue) : List (List SourceRow) :=
  (sources.filter fun rows => key ∈ sqlKeys bucket groupCols rows).map fun rows => ofKey bucket groupCols rows key

/-- An aggregate without GROUP BY has a source, every group a value to sum, and a least value
above 0 (a greatest one below) only if each source with the group has one. -/
def SplitsWell (bucket : String → JsValue → JsValue) (plan : AggregatePlan) (sources : List (List SourceRow)) : Prop :=
  (plan.groupCols = [] → sources ≠ []) ∧
    ∀ key ∈ sqlKeys bucket plan.groupCols sources.flatten, ∀ a ∈ plan.aggregates,
      AggregateSplits (groupParts bucket plan.groupCols sources key) a

theorem nodup_sqlKeys (groupCols : List GroupBy) (rows : List SourceRow) : (sqlKeys bucket groupCols rows).Nodup := by
  rw [sqlKeys]
  split_ifs
  · exact List.nodup_singleton _
  · exact nodup_eraseDups _

theorem ofKey_eq_nil {groupCols : List GroupBy} {rows : List SourceRow} {key : List JsValue}
    (absent : key ∉ sqlKeys bucket groupCols rows) : ofKey bucket groupCols rows key = [] := by
  rw [ofKey, List.filter_eq_nil_iff]
  intro row inRows same
  apply absent
  rw [← of_decide_eq_true same, sqlKeys]
  split_ifs with none
  · rw [none]
    exact List.mem_cons_self
  · exact List.mem_eraseDups.mpr (List.mem_map_of_mem inRows)

theorem groupParts_flatten (groupCols : List GroupBy) (sources : List (List SourceRow)) (key : List JsValue) :
    (groupParts bucket groupCols sources key).flatten = ofKey bucket groupCols sources.flatten key := by
  induction sources with
  | nil => rfl
  | cons rows sources ih =>
    rw [List.flatten_cons, ofKey, List.filter_append, ← ofKey, ← ofKey, ← ih, groupParts, groupParts]
    by_cases inKeys : key ∈ sqlKeys bucket groupCols rows
    · rw [List.filter_cons_of_pos (by simpa using inKeys), List.map_cons, List.flatten_cons]
    · rw [List.filter_cons_of_neg (by simpa using inKeys), ofKey_eq_nil inKeys, List.nil_append]

theorem groupParts_ne_nil {groupCols : List GroupBy} {key : List JsValue} :
    groupParts bucket groupCols sources key ≠ [] ↔ ∃ rows ∈ sources, key ∈ sqlKeys bucket groupCols rows := by
  simp [groupParts]

theorem filter_answer (named : WellNamed plan) {answer rows : List SourceRow}
    (answered : answer.Perm (partialResult bucket plan rows)) (key : List JsValue) :
    (answer.filter fun row => mergeKey plan row = key) =
      if key ∈ sqlKeys bucket plan.groupCols rows then
        [sqlRow resultName (partialSpec plan) key (ofKey bucket plan.groupCols rows key)]
      else [] := by
  have own : ∀ k ∈ sqlKeys bucket plan.groupCols rows,
      mergeKey plan (sqlRow resultName (partialSpec plan) k (ofKey bucket plan.groupCols rows k)) = k := by
    intro k inKeys
    rcases exists_of_mem_sqlKeys inKeys with ⟨h, settled, rfl⟩
    exact mergeKey_sqlRow named settled
  have single : ((partialResult bucket plan rows).filter fun row => mergeKey plan row = key) =
      ((sqlKeys bucket plan.groupCols rows).filter (· = key)).map fun k =>
        sqlRow resultName (partialSpec plan) k (ofKey bucket plan.groupCols rows k) := by
    rw [partialResult, sqlResult, List.filter_map]
    congr 1
    apply List.filter_congr
    intro k inKeys
    exact congrArg (fun l => decide (l = key)) (own k inKeys)
  have filtered := answered.filter fun row => mergeKey plan row = key
  rw [single] at filtered
  by_cases inKeys : key ∈ sqlKeys bucket plan.groupCols rows
  · have one : (sqlKeys bucket plan.groupCols rows).filter (· = key) = [key] := by
      rw [List.filter_eq, List.count_eq_one_of_mem (nodup_sqlKeys _ _) inKeys]
      rfl
    rw [one] at filtered
    rw [if_pos inKeys]
    exact List.perm_singleton.mp filtered
  · have none : (sqlKeys bucket plan.groupCols rows).filter (· = key) = [] := by
      rw [List.filter_eq_nil_iff]
      intro k inside same
      exact inKeys (of_decide_eq_true same ▸ inside)
    rw [none] at filtered
    rw [if_neg inKeys]
    exact List.perm_nil.mp filtered

abbrev Answers (bucket : String → JsValue → JsValue) (plan : AggregatePlan) (answers sources : List (List SourceRow)) :
    Prop :=
  List.Forall₂ (fun answer rows => answer.Perm (partialResult bucket plan rows)) answers sources

theorem filter_answers (named : WellNamed plan) (answered : Answers bucket plan answers sources) (key : List JsValue) :
    (answers.flatten.filter fun row => mergeKey plan row = key) =
      partialRows plan key (groupParts bucket plan.groupCols sources key) := by
  induction answered with
  | nil => rfl
  | @cons answer rows answers sources answered _ ih =>
    rw [List.flatten_cons, List.filter_append, ih, filter_answer named answered, groupParts, groupParts]
    by_cases inKeys : key ∈ sqlKeys bucket plan.groupCols rows
    · rw [if_pos inKeys, List.filter_cons_of_pos (by simpa using inKeys)]
      rfl
    · rw [if_neg inKeys, List.filter_cons_of_neg (by simpa using inKeys), List.nil_append]

/-- The groups that are merged, in the order of their first partial rows. -/
def mergedKeys (plan : AggregatePlan) (answers : List (List SourceRow)) : List (List JsValue) :=
  distinctKeys (answers.flatten.map (mergeKey plan))

theorem mergePartials_eq (named : WellNamed plan) (answered : Answers bucket plan answers sources) :
    mergePartials parseFloat answers.flatten plan =
      (mergedKeys plan answers).map fun key =>
        mergedGroup parseFloat plan key (groupParts bucket plan.groupCols sources key) := by
  rw [mergePartials, groupFold_entries (groupRow plan) (fun _ => rfl), List.map_map, mergedKeys]
  apply List.map_congr_left
  intro key _
  rw [Function.comp_apply, filter_answers named answered]
  rfl

theorem mem_mergedKeys (named : WellNamed plan) (answered : Answers bucket plan answers sources)
    (key : List JsValue) :
    key ∈ mergedKeys plan answers ↔ ∃ rows ∈ sources, key ∈ sqlKeys bucket plan.groupCols rows := by
  rw [← groupParts_ne_nil, mergedKeys, mem_distinctKeys]
  have rows := filter_answers named answered key
  constructor
  · intro inKeys none
    rw [none] at rows
    rcases List.mem_map.mp inKeys with ⟨row, inRows, same⟩
    have : row ∈ answers.flatten.filter fun row => mergeKey plan row = key :=
      List.mem_filter.mpr ⟨inRows, decide_eq_true same⟩
    rw [rows] at this
    exact List.not_mem_nil this
  · intro nonempty
    rcases List.exists_mem_of_ne_nil _ nonempty with ⟨part, inParts⟩
    have row := List.mem_map_of_mem (f := fun rows => sqlRow resultName (partialSpec plan) key rows) inParts
    rw [← partialRows, ← rows, List.mem_filter] at row
    exact List.mem_map.mpr ⟨_, row.1, of_decide_eq_true row.2⟩

theorem mergedKeys_perm (named : WellNamed plan) (answered : Answers bucket plan answers sources)
    (some : plan.groupCols = [] → sources ≠ []) :
    (mergedKeys plan answers).Perm (sqlKeys bucket plan.groupCols sources.flatten) := by
  have nodup : (mergedKeys plan answers).Nodup := nodup_distinctKeys _
  rw [List.perm_ext_iff_of_nodup nodup (nodup_sqlKeys _ _)]
  intro key
  rw [mem_mergedKeys named answered]
  simp only [sqlKeys]
  split_ifs with global
  · simp [List.exists_mem_of_ne_nil _ (some global)]
  · simp only [List.mem_eraseDups, List.mem_map, List.mem_flatten]
    grind

theorem mergedGroup_eq_iff (named : WellNamed plan) (known : ∀ a ∈ plan.aggregates, Decomposes a)
    {h : GroupBy → JsValue} {parts : List (List SourceRow)} (nonempty : parts ≠ []) :
    (mergedGroup parseFloat plan (plan.groupCols.map h) parts).get? =
        (sqlRow gName plan (plan.groupCols.map h) parts.flatten).get? ↔
      ∀ a ∈ plan.aggregates, AggregateSplits parts a := by
  have nodup := named.nodup gName (plan.aggregates.map AggregateSpec.aliasName) (fun _ => rfl)
    named.apart (aliases_sublist plan)
  constructor
  · intro same a ha
    have merged := (get?_mergedGroup parseFloat h named known nonempty a.aliasName
      (mergedValue parseFloat parts a)).mpr (.inr ⟨a, ha, rfl, rfl⟩)
    have total := (get?_sqlRow plan h parts.flatten nodup a.aliasName (sqlValue parts.flatten a)).mpr (.inr ⟨a, ha, rfl, rfl⟩)
    rw [same, total, Option.some.injEq] at merged
    exact (mergedValue_eq_iff nonempty (known a ha)).mp merged.symm
  · intro splits
    funext m
    apply Option.ext
    intro v
    rw [get?_mergedGroup parseFloat h named known nonempty, get?_sqlRow plan h _ nodup]
    apply or_congr_right
    apply exists_congr
    intro a
    apply and_congr_right
    intro ha
    rw [(mergedValue_eq_iff nonempty (known a ha)).mpr (splits a ha)]

theorem sqlRow_key (named : WellNamed plan) (known : ∀ a ∈ plan.aggregates, Decomposes a) {h h' : GroupBy → JsValue}
    {parts : List (List SourceRow)} (nonempty : parts ≠ []) {rows : List SourceRow}
    (same : (mergedGroup parseFloat plan (plan.groupCols.map h) parts).get? =
      (sqlRow gName plan (plan.groupCols.map h') rows).get?) : plan.groupCols.map h = plan.groupCols.map h' := by
  have nodup := named.nodup gName (plan.aggregates.map AggregateSpec.aliasName) (fun _ => rfl)
    named.apart (aliases_sublist plan)
  apply List.map_congr_left
  intro g hg
  have merged := (get?_mergedGroup parseFloat h named known nonempty (gName g) (h g)).mpr
    (.inl ⟨g, hg, rfl, rfl⟩)
  have total := (get?_sqlRow plan h' rows nodup (gName g) (h' g)).mpr (.inl ⟨g, hg, rfl, rfl⟩)
  rw [same, total, Option.some.injEq] at merged
  exact merged.symm

/-- The rows of a result by what they hold under each name, in any order. -/
def SameRows (results others : List SourceRow) : Prop := (results.map Record.get?).Perm (others.map Record.get?)

theorem merge_splits_iff (parseFloat : String → Option ℚ) (sources : List (List SourceRow)) (named : WellNamed plan) (known : ∀ a ∈ plan.aggregates, Decomposes a)
    (answered : Answers bucket plan answers sources) :
    SameRows (mergePartials parseFloat answers.flatten plan) (totalResult bucket plan sources.flatten) ↔
      SplitsWell bucket plan sources := by
  by_cases some : plan.groupCols = [] → sources ≠ []
  · have perm := mergedKeys_perm named answered some
    have key : ∀ key ∈ mergedKeys plan answers, ∃ h : GroupBy → JsValue, key = plan.groupCols.map h := by
      intro key inKeys
      rcases exists_of_mem_sqlKeys (perm.mem_iff.mp inKeys) with ⟨h, _, rfl⟩
      exact ⟨h, rfl⟩
    have parts : ∀ key ∈ mergedKeys plan answers, groupParts bucket plan.groupCols sources key ≠ [] := by
      intro key inKeys
      rw [groupParts_ne_nil]
      exact (mem_mergedKeys named answered key).mp inKeys
    rw [SameRows, mergePartials_eq named answered, totalResult, sqlResult, List.map_map, List.map_map,
      map_perm_map_iff perm, SplitsWell, and_iff_right some]
    · constructor
      · intro same k inKeys
        have inMerged := perm.mem_iff.mpr inKeys
        have equal := same k inMerged
        rcases key k inMerged with ⟨h, rfl⟩
        rw [Function.comp_apply, Function.comp_apply, ← groupParts_flatten] at equal
        exact (mergedGroup_eq_iff named known (parts _ inMerged)).mp equal
      · intro splits k inMerged
        have inKeys := perm.mem_iff.mp inMerged
        have good := splits k inKeys
        rcases key k inMerged with ⟨h, rfl⟩
        rw [Function.comp_apply, Function.comp_apply, ← groupParts_flatten]
        exact (mergedGroup_eq_iff named known (parts _ inMerged)).mpr good
    · intro k inKeys k' inKeys' same
      have nonempty := parts k inKeys
      rcases key k inKeys with ⟨h, rfl⟩
      rcases key k' inKeys' with ⟨h', rfl⟩
      exact sqlRow_key named known nonempty same
  · push Not at some
    rcases some with ⟨global, rfl⟩
    cases answered
    have counts : ¬ SameRows (mergePartials parseFloat [] plan) (totalResult bucket plan []) := by
      intro same
      have lengths := same.length_eq
      simp [mergePartials, groupFold, Record.empty, totalResult, sqlResult, sqlKeys, global] at lengths
    exact iff_of_false counts fun splits => splits.1 global rfl

theorem present_perm {rows others : List SourceRow} (perm : rows.Perm others) (col : Option String) :
    (present rows col).Perm (present others col) := by
  cases col with
  | none => exact .refl _
  | some col => exact perm.filterMap _

theorem Selects.perm {le : ℚ → ℚ → Prop} {f : ℚ → ℚ → ℚ} {best : List ℚ → Option ℚ} (sel : Selects le f best)
    {l l' : List ℚ} (perm : l.Perm l') : best l = best l' := by
  apply Option.ext
  intro m
  rw [sel.best_iff, sel.best_iff, perm.mem_iff]
  simp only [perm.mem_iff]

theorem sqlValue_perm {rows others : List SourceRow} (perm : rows.Perm others) (a : AggregateSpec) :
    sqlValue rows a = sqlValue others a := by
  have values := present_perm perm a.column
  have empty : present rows a.column = [] ↔ present others a.column = [] := by
    rw [← List.length_eq_zero_iff, values.length_eq, List.length_eq_zero_iff]
  have distinct : (present rows a.column).eraseDups.length = (present others a.column).eraseDups.length := by
    apply List.Perm.length_eq
    rw [List.perm_ext_iff_of_nodup (nodup_eraseDups _) (nodup_eraseDups _)]
    intro v
    rw [List.mem_eraseDups, List.mem_eraseDups, values.mem_iff]
  simp only [sqlValue, sumValue, empty, values.sum_eq, values.length_eq, perm.length_eq, selects_min.perm values,
    selects_max.perm values, distinct]

theorem totalResult_perm {rows others : List SourceRow} (perm : rows.Perm others) :
    (totalResult bucket plan rows).Perm (totalResult bucket plan others) := by
  have keys : (sqlKeys bucket plan.groupCols rows).Perm (sqlKeys bucket plan.groupCols others) := by
    rw [List.perm_ext_iff_of_nodup (nodup_sqlKeys _ _) (nodup_sqlKeys _ _)]
    intro key
    rw [sqlKeys, sqlKeys]
    split_ifs
    · rfl
    · rw [List.mem_eraseDups, List.mem_eraseDups, (perm.map _).mem_iff]
  have same : (fun key => sqlRow gName plan key (ofKey bucket plan.groupCols rows key)) =
      fun key => sqlRow gName plan key (ofKey bucket plan.groupCols others key) := by
    funext key
    have rows := perm.filter fun row => sqlKey bucket plan.groupCols row = key
    rw [sqlRow, sqlRow]
    congr 2
    apply List.map_congr_left
    intro a _
    rw [ofKey, ofKey, sqlValue_perm rows]
  rw [totalResult, totalResult, sqlResult, sqlResult, same]
  exact keys.map _

end

def order (region : String) (value : JsValue) : SourceRow := ⟨[("region", .str region), ("amount", value)], by simp⟩

def meanByRegion : AggregatePlan := ⟨[.field "region"], [⟨.avg, some "amount", "mean"⟩, ⟨.count, none, "orders"⟩]⟩

def leastByRegion : AggregatePlan := ⟨[.field "region"], [⟨.min, some "amount", "least"⟩]⟩

/-- Two sources with orders of one region, one of them without an amount. -/
def twoSources : List (List SourceRow) := [[order "eu" .null], [order "eu" (.num 5), order "us" (.num 2)]]

end DataFabric.PartialAggregates
