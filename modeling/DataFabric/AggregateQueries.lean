import DataFabric.Aggregates
import DataFabric.SetOperations
import DataFabric.StableSorts
import Mathlib.Data.Nat.Cast.Order.Ring

set_option autoImplicit false

/-!
# Aggregate queries across sources

The clauses around an aggregate: a set operation is sorted and cut before the outer
aggregate and once more after it, and HAVING is applied to the groups that are left. A
query without LIMIT and OFFSET, or one without HAVING over a join or a single leg, comes
out in the order of SQL.
-/
namespace DataFabric.AggregateQueries
open JsValues OrderedRecords FederatedJoins Aggregates SetOperations StableSorts

/-- `a < b`, `a == b`, `parseFloat` and `JSON.parse` of the language. -/
structure Engine where
  lt : JsValue → JsValue → Bool
  looseEq : JsValue → JsValue → Bool
  parseFloat : String → Option ℚ
  parse : String → SourceRow
  parse_text : ∀ s : String, s.toList.all Char.isAlpha →
    parse ("\x7b\"g\":\"" ++ s ++ "\"\x7d") = ⟨[("g", .str s)], by simp⟩

def readRow (row : SourceRow) (path : String) : JsValue :=
  match row.get? path with
  | some v => v
  | none => column row (baseColumn path)

section

variable (eng : Engine)

def compareRows : List SortKey → SourceRow → SourceRow → Ordering
  | [], _, _ => .eq
  | o :: orderBy, a, b =>
    if eng.lt (readRow a o.column) (readRow b o.column) then if o.descending then .gt else .lt
    else if eng.lt (readRow b o.column) (readRow a o.column) then if o.descending then .lt else .gt
    else compareRows orderBy a b

def Before (orderBy : List SortKey) (a b : SourceRow) : Prop := compareRows eng orderBy a b ≠ .gt

instance (orderBy : List SortKey) : DecidableRel (Before eng orderBy) := fun _ _ =>
  inferInstanceAs (Decidable (_ ≠ _))

/-- The stable sort, for a comparison that is consistent on the rows. -/
def sortRows (orderBy : List SortKey) (rows : List SourceRow) : List SourceRow :=
  rows.insertionSort (Before eng orderBy)

def Engine.language : Language where
  parse := eng.parse
  sort := sortRows eng
  sort_perm orderBy rows := List.perm_insertionSort (Before eng orderBy) rows

structure Predicate where
  column : String
  operator : String
  value : JsValue
  deriving DecidableEq

def havingNumber : JsValue → Option ℚ
  | .num q => some q
  | .str s => eng.parseFloat s
  | .arr vs => eng.parseFloat (JsValue.arr vs).text
  | _ => none

def compares (rel : ℚ → ℚ → Bool) (a b : JsValue) : Bool :=
  match havingNumber eng a, havingNumber eng b with
  | some p, some q => rel p q
  | _, _ => false

def Predicate.holds (h : Predicate) (row : SourceRow) : Bool :=
  let a := FederatedJoins.column row h.column
  match h.operator with
  | "NE" => !eng.looseEq a h.value
  | "GT" => compares eng (fun p q => q < p) a h.value
  | "GTE" => compares eng (fun p q => q ≤ p) a h.value
  | "LT" => compares eng (fun p q => p < q) a h.value
  | "LTE" => compares eng (fun p q => p ≤ q) a h.value
  | _ => eng.looseEq a h.value

def applyHaving (rows : List SourceRow) (having : List Predicate) : List SourceRow :=
  rows.filter fun row => having.all fun h => h.holds eng row

/-- What pushes the aggregate of a single leg down: a statement, a pipeline without a stage that skips, or a request
without order and window. -/
inductive GroupSource
  | sql
  | mongo
  | elastic
  deriving DecidableEq

/-- What is aggregated: the joined rows, the legs of a set operation, the partial aggregates of
a union's legs with or without an outer aggregate, or one source's own groups, which the
source sorts by `sorted`. -/
inductive Legs
  | join (plan : AggregatePlan) (joined : List SourceRow)
  | setOp (plan : AggregatePlan) (op : SetOp) (first : List String) (rest : List (List String))
  | fan (legPlan : AggregatePlan) (answers : List (List SourceRow))
  | outerFan (plan legPlan : AggregatePlan) (answers : List (List SourceRow))
  | single (source : GroupSource) (groups : List SourceRow) (sorted : List SortKey → List SourceRow → List SourceRow)

def sourceLimit (envCap : ℕ) (limit : Option ℕ) : ℕ := min envCap (limit.getD envCap)

/-- What the source gives of its groups. -/
def windowed (envCap : ℕ) (w : Window) (source : GroupSource) (groups ordered : List SourceRow) : List SourceRow :=
  match source with
  | .sql => (ordered.drop (w.offset.getD 0)).take (sourceLimit envCap w.limit)
  | .mongo => ordered.take (sourceLimit envCap w.limit)
  | .elastic => groups

def execute (envCap : ℕ) (totalEstimatedRows : ℚ) (w : Window) : Legs → List SourceRow
  | .join plan joined => applyOrderLimit eng.language w (aggregateRaw eng.parseFloat joined plan)
  | .setOp plan op first rest =>
    let data := executeSetOp eng.language envCap totalEstimatedRows op w first rest
    applyOrderLimit eng.language w (aggregateRaw eng.parseFloat data plan)
  | .fan legPlan answers => applyOrderLimit eng.language w (mergePartials eng.parseFloat answers.flatten legPlan)
  | .outerFan plan legPlan answers =>
    let data := applyOrderLimit eng.language w (mergePartials eng.parseFloat answers.flatten legPlan)
    applyOrderLimit eng.language w (aggregateRaw eng.parseFloat data plan)
  | .single source groups sorted =>
    let ordered := if w.orderBy = [] then groups else sorted w.orderBy groups
    applyOrderLimit eng.language ⟨w.orderBy, none, none⟩ (windowed envCap w source groups ordered)

/-- A pipeline's `$limit` has to be positive. -/
def accepted (w : Window) : Legs → Bool
  | .single .mongo _ _ => w.limit ≠ some 0
  | _ => true

def answer (envCap : ℕ) (totalEstimatedRows : ℚ) (w : Window) (having : List Predicate) (legs : Legs) :
    List SourceRow :=
  applyHaving eng (execute eng envCap totalEstimatedRows w legs) having

def finish (w : Window) (having : List Predicate) (groups : List SourceRow) : List SourceRow :=
  applyOrderLimit eng.language w (applyHaving eng groups having)

/-- All rows are grouped; those of a set operation or a union come in any order. -/
def Asked (w : Window) (having : List Predicate) (result : List SourceRow) : Legs → Prop
  | .join plan joined => result = finish eng w having (aggregateRaw eng.parseFloat joined plan)
  | .setOp plan op first rest =>
    ∃ (texts : List String) (rows : List SourceRow), texts.Nodup ∧ (∀ t, t ∈ texts ↔ Belongs op first rest t) ∧ rows.Perm (texts.map eng.parse) ∧
      result = finish eng w having (aggregateRaw eng.parseFloat rows plan)
  | .fan legPlan answers => result = finish eng w having (mergePartials eng.parseFloat answers.flatten legPlan)
  | .outerFan plan legPlan answers =>
    ∃ rows : List SourceRow, rows.Perm (mergePartials eng.parseFloat answers.flatten legPlan) ∧
      result = finish eng w having (aggregateRaw eng.parseFloat rows plan)
  | .single _ groups _ => result = finish eng w having groups

def grouped (envCap : ℕ) (totalEstimatedRows : ℚ) (w : Window) : Legs → List SourceRow
  | .join plan joined => aggregateRaw eng.parseFloat joined plan
  | .setOp plan op first rest =>
    aggregateRaw eng.parseFloat (executeSetOp eng.language envCap totalEstimatedRows op w first rest) plan
  | .fan legPlan answers => mergePartials eng.parseFloat answers.flatten legPlan
  | .outerFan plan legPlan answers =>
    aggregateRaw eng.parseFloat (applyOrderLimit eng.language w (mergePartials eng.parseFloat answers.flatten legPlan))
      plan
  | .single _ groups _ => groups

/-- Legs within the cap; the legs of a fan are aggregates, and a source sorts as the fabric does. -/
def Within (envCap : ℕ) (orderBy : List SortKey) : Legs → Prop
  | .join _ _ => True
  | .setOp _ _ first rest => ∀ leg ∈ first :: rest, leg.length ≤ envCap
  | .fan legPlan _ | .outerFan _ legPlan _ => legPlan.aggregates ≠ []
  | .single _ groups sorted => groups.length ≤ envCap ∧ sorted orderBy groups = sortRows eng orderBy groups

end

inductive Kind
  | join | setOp | fan | outerFan
  | single (source : GroupSource)
  deriving DecidableEq

def Legs.kind : Legs → Kind
  | .join _ _ => .join
  | .setOp _ _ _ _ => .setOp
  | .fan _ _ => .fan
  | .outerFan _ _ _ => .outerFan
  | .single source _ _ => .single source

/-- All queries of a kind with this LIMIT and OFFSET, with or without HAVING. -/
def AlwaysAsked (eng : Engine) (kind : Kind) (withHaving : Bool) (limit offset : Option ℕ) : Prop :=
  ∀ (envCap : ℕ) (totalEstimatedRows : ℚ) (orderBy : List SortKey) (having : List Predicate) (legs : Legs),
    legs.kind = kind → (withHaving = false → having = []) → Within eng envCap orderBy legs →
      Comparable (Before eng orderBy) (grouped eng envCap totalEstimatedRows ⟨orderBy, limit, offset⟩ legs) →
        accepted ⟨orderBy, limit, offset⟩ legs = true ∧
          Asked eng ⟨orderBy, limit, offset⟩ having
            (answer eng envCap totalEstimatedRows ⟨orderBy, limit, offset⟩ having legs) legs

/-- The source of the groups, if it is one, applies LIMIT and OFFSET. -/
def Kind.windows (limit offset : Option ℕ) : Kind → Prop
  | .single .mongo => offset.getD 0 = 0 ∧ limit ≠ some 0
  | .single .elastic => False
  | _ => True

/-- No window; or the window is applied, and LIMIT is 0 or there is no HAVING over groups that are made in one stage. -/
def Composes (kind : Kind) (withHaving : Bool) (limit offset : Option ℕ) : Prop :=
  limit = none ∧ offset.getD 0 = 0 ∨
    kind.windows limit offset ∧ (limit = some 0 ∨ kind ∉ [Kind.setOp, .outerFan] ∧ withHaving = false)

section

variable {eng : Engine} {w : Window} {rows : List SourceRow} {having : List Predicate}

@[simp] theorem applyHaving_nil (rows : List SourceRow) : applyHaving eng rows [] = rows := by
  simp [applyHaving]

def ordered (eng : Engine) (orderBy : List SortKey) (rows : List SourceRow) : List SourceRow :=
  if orderBy = [] then rows else sortRows eng orderBy rows

theorem ordered_perm (eng : Engine) (orderBy : List SortKey) (rows : List SourceRow) :
    (ordered eng orderBy rows).Perm rows := by
  rw [ordered]
  split_ifs
  · exact .refl _
  · exact List.perm_insertionSort _ rows

theorem applyOrderLimit_all (noLimit : w.limit = none) (noOffset : w.offset.getD 0 = 0) :
    applyOrderLimit eng.language w rows = ordered eng w.orderBy rows := by
  simp only [applyOrderLimit, noLimit, noOffset, List.drop_zero]
  rfl

theorem applyOrderLimit_zero (noRows : w.limit = some 0) : applyOrderLimit eng.language w rows = [] := by
  simp [applyOrderLimit, noRows]

theorem applyHaving_ordered {orderBy : List SortKey} (comp : Comparable (Before eng orderBy) rows) :
    applyHaving eng (ordered eng orderBy rows) having = ordered eng orderBy (applyHaving eng rows having) := by
  rw [ordered, ordered]
  split_ifs
  · rfl
  · exact filter_insertionSort comp _

theorem ordered_of_sublist {orderBy : List SortKey} {kept : List SourceRow}
    (comp : Comparable (Before eng orderBy) rows) (sub : kept.Sublist (ordered eng orderBy rows)) :
    ordered eng orderBy kept = kept := by
  rw [ordered] at sub ⊢
  split_ifs at sub ⊢ with none
  · rfl
  · exact ((pairwise_insertionSort comp).sublist sub).insertionSort_eq

variable {envCap : ℕ} {est : ℚ} {legs : Legs}

theorem execute_single {source : GroupSource} {groups : List SourceRow}
    {sorted : List SortKey → List SourceRow → List SourceRow} (windows : (Kind.single source).windows w.limit w.offset)
    (within : Within eng envCap w.orderBy (.single source groups sorted))
    (comp : Comparable (Before eng w.orderBy) groups) :
    execute eng envCap est w (.single source groups sorted) = applyOrderLimit eng.language w groups := by
  have same : (if w.orderBy = [] then groups else sorted w.orderBy groups) = ordered eng w.orderBy groups := by
    rw [ordered, within.2]
  have window : ((ordered eng w.orderBy groups).drop (w.offset.getD 0)).take (sourceLimit envCap w.limit) =
      applyOrderLimit eng.language w groups := by
    have length := (ordered_perm eng w.orderBy groups).length_eq
    have cap := within.1
    rw [sourceLimit, applyOrderLimit]
    cases w.limit with
    | none =>
      rw [Option.getD_none, min_self]
      apply List.take_of_length_le
      rw [List.length_drop]
      omega
    | some n =>
      rw [Option.getD_some]
      by_cases small : n ≤ envCap
      · rw [min_eq_right small]
        rfl
      · rw [min_eq_left (by omega), List.take_of_length_le (by rw [List.length_drop]; omega)]
        symm
        apply List.take_of_length_le
        rw [List.length_drop]
        exact (Nat.sub_le _ _).trans (length.le.trans (by omega))
  have kept : (applyOrderLimit eng.language w groups).Sublist (ordered eng w.orderBy groups) := by
    rw [← window]
    exact (List.take_sublist _ _).trans (List.drop_sublist _ _)
  rw [execute]
  cases source with
  | sql =>
    rw [same, windowed, window, applyOrderLimit_all rfl rfl]
    exact ordered_of_sublist comp kept
  | mongo =>
    rw [windows.1, List.drop_zero] at window
    rw [same, windowed, window, applyOrderLimit_all rfl rfl]
    exact ordered_of_sublist comp kept
  | elastic => exact windows.elim

/-- Without a window every source gives all its groups. -/
theorem execute_whole {source : GroupSource} {groups : List SourceRow}
    {sorted : List SortKey → List SourceRow → List SourceRow} (noLimit : w.limit = none) (noOffset : w.offset.getD 0 = 0)
    (within : Within eng envCap w.orderBy (.single source groups sorted))
    (comp : Comparable (Before eng w.orderBy) groups) :
    execute eng envCap est w (.single source groups sorted) = ordered eng w.orderBy groups := by
  cases source with
  | sql =>
    have windows : (Kind.single .sql).windows w.limit w.offset := trivial
    rw [execute_single windows within comp, applyOrderLimit_all noLimit noOffset]
  | mongo =>
    have windows : (Kind.single .mongo).windows w.limit w.offset := ⟨noOffset, by rw [noLimit]; exact nofun⟩
    rw [execute_single windows within comp, applyOrderLimit_all noLimit noOffset]
  | elastic =>
    rw [execute]
    exact applyOrderLimit_all rfl rfl

theorem asked_of_no_having (windows : legs.kind.windows w.limit w.offset)
    (oneStage : legs.kind ∉ [Kind.setOp, .outerFan]) (within : Within eng envCap w.orderBy legs)
    (comp : Comparable (Before eng w.orderBy) (grouped eng envCap est w legs)) :
    Asked eng w [] (answer eng envCap est w [] legs) legs := by
  cases legs with
  | join plan joined => simp [Asked, answer, finish, execute]
  | fan legPlan answers => simp [Asked, answer, finish, execute]
  | single source groups sorted =>
    rw [Asked, answer, finish, applyHaving_nil, applyHaving_nil]
    exact execute_single windows within comp
  | setOp plan op first rest => simp [Legs.kind] at oneStage
  | outerFan plan legPlan answers => simp [Legs.kind] at oneStage

theorem asked_of_no_window (noLimit : w.limit = none) (noOffset : w.offset.getD 0 = 0)
    (within : Within eng envCap w.orderBy legs)
    (comp : Comparable (Before eng w.orderBy) (grouped eng envCap est w legs)) :
    Asked eng w having (answer eng envCap est w having legs) legs := by
  have last : execute eng envCap est w legs = ordered eng w.orderBy (grouped eng envCap est w legs) := by
    cases legs with
    | single source groups sorted => exact execute_whole noLimit noOffset within comp
    | _ => exact applyOrderLimit_all noLimit noOffset
  have done : answer eng envCap est w having legs = finish eng w having (grouped eng envCap est w legs) := by
    rw [answer, last, applyHaving_ordered comp, finish, applyOrderLimit_all noLimit noOffset]
  rw [done]
  cases legs with
  | join plan joined => rfl
  | fan legPlan answers => rfl
  | single source groups sorted => rfl
  | setOp plan op first rest =>
    have complete : ∀ leg ∈ first :: rest, leg.length ≤ legCap envCap w := by
      intro leg inLegs
      have small := within leg inLegs
      rw [legCap, outerLimit, noLimit]
      split_ifs with default
      · rw [Option.filter_none, Option.getD_none]
        omega
      · exact small
    have right : Right eng.language op w first rest (executeSetOp eng.language envCap est op w first rest) :=
      right_of_complete complete
    rcases right with ⟨texts, nodup, mem, result⟩
    refine ⟨texts, _, nodup, mem, ?_, rfl⟩
    rw [result, applyOrderLimit_all noLimit noOffset]
    exact ordered_perm eng w.orderBy _
  | outerFan plan legPlan answers =>
    refine ⟨_, ?_, rfl⟩
    rw [applyOrderLimit_all noLimit noOffset]
    exact ordered_perm eng w.orderBy _

theorem asked_of_limit_zero (noRows : w.limit = some 0) (windows : legs.kind.windows w.limit w.offset) : Asked eng w having (answer eng envCap est w having legs) legs := by
  have nothing : ∀ groups, finish eng w having groups = [] := fun _ => applyOrderLimit_zero noRows
  have none : answer eng envCap est w having legs = [] := by
    rw [answer]
    cases legs with
    | single source groups sorted =>
      cases source with
      | sql =>
        have cut : sourceLimit envCap w.limit = 0 := by simp [sourceLimit, noRows]
        rw [execute, windowed, cut, List.take_zero, applyOrderLimit_all rfl rfl]
        simp [ordered, sortRows, applyHaving]
      | mongo => exact absurd noRows windows.2
      | elastic => exact windows.elim
    | _ =>
      rw [execute, applyOrderLimit_zero noRows]
      rfl
  rw [none]
  cases legs with
  | join plan joined => exact (nothing _).symm
  | fan legPlan answers => exact (nothing _).symm
  | single source groups sorted => exact (nothing _).symm
  | setOp plan op first rest =>
    refine ⟨partitioned op 1 first rest, _, nodup_partitioned, ?_, .refl _, (nothing _).symm⟩
    intro t
    exact mem_partitioned Nat.one_pos
  | outerFan plan legPlan answers => exact ⟨_, .refl _, (nothing _).symm⟩

theorem always_asked_of_composes {kind : Kind} {withHaving : Bool} {limit offset : Option ℕ}
    (composes : Composes kind withHaving limit offset) : AlwaysAsked eng kind withHaving limit offset := by
  rintro envCap est orderBy having legs rfl given within comp
  rcases composes with ⟨rfl, noOffset⟩ | ⟨windows, rest⟩
  · refine ⟨?_, asked_of_no_window rfl noOffset within comp⟩
    cases legs with
    | single source groups sorted => cases source <;> rfl
    | _ => rfl
  · refine ⟨?_, ?_⟩
    · cases legs with
      | single source groups sorted =>
        cases source with
        | mongo => exact decide_eq_true windows.2
        | _ => rfl
      | _ => rfl
    · rcases rest with noRows | ⟨oneStage, none⟩
      · exact asked_of_limit_zero noRows windows
      · rw [given none]
        exact asked_of_no_having windows oneStage within comp

end

section

variable {eng : Engine} {limit offset : Option ℕ}

def cut (limit : Option ℕ) (k : ℕ) : ℕ :=
  match limit with
  | none => k
  | some n => min n k

theorem applyOrderLimit_count (lang : Language) (rows : List SourceRow) :
    (applyOrderLimit lang ⟨[], limit, offset⟩ rows).length = cut limit (rows.length - offset.getD 0) := by
  cases limit with
  | none => simp [applyOrderLimit, cut]
  | some n => simp [applyOrderLimit, cut]

theorem having_after_window {bad : SourceRow} {good : List SourceRow} {having : List Predicate}
    (rejects : applyHaving eng [bad] having = []) (keeps : ∀ rows, rows.Sublist good → applyHaving eng rows having = rows)
    (window : 0 < offset.getD 0 ∧ limit ≠ some 0 ∧ good.length = offset.getD 0 ∨
      offset.getD 0 = 0 ∧ ∃ n, limit = some (n + 1) ∧ good.length = n + 1) :
    applyHaving eng (applyOrderLimit eng.language ⟨[], limit, offset⟩ (bad :: good)) having ≠
      finish eng ⟨[], limit, offset⟩ having (bad :: good) := by
  intro equal
  have left := congrArg List.length equal
  have kept : applyHaving eng (bad :: good) having = good := by
    rw [← List.singleton_append, applyHaving, List.filter_append, ← applyHaving, ← applyHaving, rejects, List.nil_append,
      keeps good (.refl _)]
  rw [finish, kept, applyOrderLimit_count] at left
  rcases window with ⟨pos, some, counted⟩ | ⟨zero, n, rfl, counted⟩
  · have inside : (applyOrderLimit eng.language ⟨[], limit, offset⟩ (bad :: good)).Sublist good := by
      have dropped : ((bad :: good).drop (offset.getD 0)).Sublist good := by
        rcases Nat.exists_eq_succ_of_ne_zero pos.ne' with ⟨o, succ⟩
        rw [succ]
        exact List.drop_sublist o good
      cases limit with
      | none => exact dropped
      | some n => exact (List.take_sublist _ _).trans dropped
    rw [keeps _ inside, applyOrderLimit_count, List.length_cons, counted] at left
    cases limit with
    | none =>
      simp only [cut] at left
      omega
    | some n =>
      have : n ≠ 0 := fun zero => some (congrArg Option.some zero)
      simp only [cut] at left
      omega
  · have inside : applyOrderLimit eng.language ⟨[], Option.some (n + 1), offset⟩ (bad :: good) = bad :: good.take n := by
      simp only [applyOrderLimit, zero, List.drop_zero, if_true, List.take_succ_cons]
    rw [inside, ← List.singleton_append, applyHaving, List.filter_append, ← applyHaving, ← applyHaving, rejects,
      keeps _ (List.take_sublist _ _), List.nil_append, List.length_take, counted, zero, cut] at left
    omega

def tagged (v : JsValue) : SourceRow := ⟨[("g", v)], by simp⟩

def counted (v : JsValue) : SourceRow := ⟨[("g", v), ("n", .num 1)], by simp⟩

def byG : AggregatePlan := ⟨[.field "g"], []⟩

def countByG : AggregatePlan := ⟨[.field "g"], [⟨.count, none, "n"⟩]⟩

def countAll : AggregatePlan := ⟨[], [⟨.count, none, "c"⟩]⟩

theorem rawKey_tagged {v : JsValue} (present : v.isNullish = false) : rawKey byG (tagged v) = [v] := by
  change [orElse v .null] = [v]
  rw [orElse, if_neg (by rw [present]; exact Bool.false_ne_true)]

theorem rawKey_counted {v : JsValue} (present : v.isNullish = false) : rawKey byG (counted v) = [v] := by
  change [orElse v .null] = [v]
  rw [orElse, if_neg (by rw [present]; exact Bool.false_ne_true)]

theorem aggregateRaw_tagged (eng : Engine) {vs : List JsValue} (nodup : vs.Nodup) (present : ∀ v ∈ vs, v.isNullish = false) :
    aggregateRaw eng.parseFloat (vs.map tagged) byG = vs.map tagged := by
  have keys : (vs.map tagged).map (rawKey byG) = vs.map fun v => [v] := by
    rw [List.map_map]
    exact List.map_congr_left fun v inside => rawKey_tagged (present v inside)
  have distinct : ((vs.map tagged).map (rawKey byG)).Nodup := by
    rw [keys]
    exact nodup.map fun _ _ same => (List.cons.inj same).1
  rw [aggregateRaw, groupFold_entries_of_nodup (fun key => (groupRow byG key, Record.empty)) (fun _ => rfl)
    distinct, List.map_map, List.map_map]
  apply List.map_congr_left
  intro v inside
  change groupRow byG (rawKey byG (tagged v)) = tagged v
  rw [rawKey_tagged (present v inside)]
  rfl

theorem mergePartials_counted (eng : Engine) {vs : List JsValue} (nodup : vs.Nodup) (present : ∀ v ∈ vs, v.isNullish = false) :
    mergePartials eng.parseFloat (vs.map counted) countByG = vs.map counted := by
  have key : ∀ v ∈ vs, mergeKey countByG (counted v) = [v] := by
    intro v inside
    change [orElse v _] = [v]
    rw [orElse, if_neg (by rw [present v inside]; exact Bool.false_ne_true)]
  have distinct : ((vs.map counted).map (mergeKey countByG)).Nodup := by
    rw [List.map_map]
    change (vs.map fun v => mergeKey countByG (counted v)).Nodup
    rw [List.map_congr_left key]
    exact nodup.map fun _ _ same => (List.cons.inj same).1
  rw [mergePartials, groupFold_entries_of_nodup (groupRow countByG) (fun _ => rfl) distinct, List.map_map,
    List.map_map]
  apply List.map_congr_left
  intro v inside
  change mergeRowInto eng.parseFloat countByG (groupRow countByG (mergeKey countByG (counted v))) (counted v) = _
  rw [key v inside]
  change Record.assign (tagged v) "n" (.num (0 + 1)) = _
  rw [zero_add]
  rfl

def total (q : ℚ) : SourceRow := ⟨[("c", .num q)], by simp⟩

def counts (q : ℚ) : GroupState := Record.empty.assign "c" (.number q)

theorem foldl_countAll (rows : List SourceRow) (acc : SourceRow) (q : ℚ) :
    rows.foldl (fun group row => (group.1, countAll.aggregates.foldl (stepOne eng.parseFloat row) group.2))
      (acc, counts q) = (acc, counts (q + rows.length)) := by
  induction rows generalizing q with
  | nil => simp
  | cons row rows ih =>
    have next : countAll.aggregates.foldl (stepOne eng.parseFloat row) (counts q) = counts (q + 1) := rfl
    rw [List.foldl_cons, next, ih, List.length_cons, Nat.cast_succ, add_assoc, add_comm (1 : ℚ)]

theorem aggregateRaw_countAll {rows : List SourceRow} (nonempty : rows ≠ []) :
    aggregateRaw eng.parseFloat rows countAll = [total rows.length] := by
  cases rows with
  | nil => contradiction
  | cons row rows =>
    have all : ((row :: rows).filter fun row => rawKey countAll row = []) = row :: rows := by
      rw [List.filter_eq_self]
      intro _ _
      rfl
    have keys : distinctKeys ((row :: rows).map (rawKey countAll)) = [[]] := by
      apply List.perm_singleton.mp
      rw [List.perm_ext_iff_of_nodup (nodup_distinctKeys _) (List.nodup_singleton _)]
      intro key
      rw [mem_distinctKeys, List.mem_map, List.mem_singleton]
      constructor
      · rintro ⟨_, _, rfl⟩
        rfl
      · rintro rfl
        exact ⟨row, List.mem_cons_self, rfl⟩
    rw [aggregateRaw, groupFold_entries (fun key => (groupRow countAll key, Record.empty)) (fun _ => rfl), keys,
      List.map_singleton, List.map_singleton, all, List.foldl_cons]
    change [_] = _
    have first : countAll.aggregates.foldl (stepOne eng.parseFloat row) Record.empty = counts 1 := by
      change counts (0 + 1) = _
      rw [zero_add]
    dsimp only
    rw [first, foldl_countAll, List.length_cons, Nat.cast_succ, add_comm (1 : ℚ)]
    rfl

theorem offset_twice {data rows : List SourceRow} (pos : 0 < offset.getD 0) (some : limit ≠ some 0)
    (left : data.length ≤ 1) (all : rows.length = offset.getD 0 + 1)
    (distinct : (rows.map (rawKey byG)).Nodup) :
    applyHaving eng (applyOrderLimit eng.language ⟨[], limit, offset⟩ (aggregateRaw eng.parseFloat data byG)) [] ≠
      finish eng ⟨[], limit, offset⟩ [] (aggregateRaw eng.parseFloat rows byG) := by
  intro equal
  have lengths := congrArg List.length equal
  have groups (rows : List SourceRow) :
      (aggregateRaw eng.parseFloat rows byG).length = (distinctKeys (rows.map (rawKey byG))).length := by
    rw [aggregateRaw, List.length_map, ← keys_groupFold, List.length_map]
  have fewer : (aggregateRaw eng.parseFloat data byG).length ≤ 1 := by
    rw [groups]
    have bound := (List.subperm_of_subset (nodup_distinctKeys (data.map (rawKey byG)))
      fun key => mem_distinctKeys.mp).length_le
    rw [List.length_map] at bound
    omega
  rw [applyHaving_nil, finish, applyHaving_nil, applyOrderLimit_count, applyOrderLimit_count, groups rows,
    distinctKeys_of_nodup distinct, List.length_map, all] at lengths
  cases limit with
  | none =>
    simp only [cut] at lengths
    omega
  | some n =>
    have : n ≠ 0 := fun zero => some (congrArg Option.some zero)
    simp only [cut] at lengths
    omega

theorem limit_before_count {data rows : List SourceRow} {n : ℕ} (zero : offset.getD 0 = 0) (left : data.length = n + 1)
    (all : rows.length = n + 2) :
    applyHaving eng (applyOrderLimit eng.language ⟨[], some (n + 1), offset⟩
        (aggregateRaw eng.parseFloat data countAll)) [] ≠
      finish eng ⟨[], some (n + 1), offset⟩ [] (aggregateRaw eng.parseFloat rows countAll) := by
  have nonempty {rows : List SourceRow} {k : ℕ} (counted : rows.length = k + 1) : rows ≠ [] := by
    rintro rfl
    cases counted
  have single (row : SourceRow) : applyOrderLimit eng.language ⟨[], some (n + 1), offset⟩ [row] = [row] := by
    simp only [applyOrderLimit, zero, List.drop_zero, if_true, List.take_succ_cons, List.take_nil]
  rw [applyHaving_nil, finish, applyHaving_nil, aggregateRaw_countAll (nonempty left),
    aggregateRaw_countAll (nonempty all), single, single, left, all]
  intro equal
  have shown := congrArg (fun row => row.get? "c") (List.cons.inj equal).1
  change Option.some (JsValue.num _) = Option.some (JsValue.num _) at shown
  rw [Option.some.injEq] at shown
  have same : ((n + 1 : ℕ) : ℚ) = ((n + 2 : ℕ) : ℚ) := by
    injection shown with inner
    injection inner
  have := Nat.cast_injective same
  omega

def letters (n : ℕ) : String := String.ofList (List.replicate n 'a')

def letterText (n : ℕ) : String := "\x7b\"g\":\"" ++ letters n ++ "\"\x7d"

theorem parse_letterText (eng : Engine) (n : ℕ) : eng.parse (letterText n) = tagged (.str (letters n)) := by
  apply eng.parse_text
  rw [letters, String.toList_ofList, List.all_eq_true]
  intro c inside
  rw [List.eq_of_mem_replicate inside]
  rfl

theorem letters_injective : Function.Injective letters := by
  intro m n same
  have lengths := congrArg (fun s => s.toList.length) same
  simpa [letters] using lengths

def numbers (k : ℕ) : List JsValue := (List.range k).map fun i : ℕ => JsValue.num i

theorem numbers_nodup (k : ℕ) : (numbers k).Nodup :=
  List.nodup_range.map fun i j same => by
    injection same with inner
    injection inner with value
    exact Nat.cast_injective value

theorem numbers_present (k : ℕ) : ∀ v ∈ numbers k, v.isNullish = false := by
  intro v inside
  rcases List.mem_map.mp inside with ⟨i, _, rfl⟩
  rfl

def positive : List Predicate := [⟨"g", "GT", .num 0⟩]

theorem numbers_succ (k : ℕ) : numbers (k + 1) = .num 0 :: (List.range k).map fun i : ℕ => JsValue.num (i + 1) := by
  rw [numbers, List.range_succ_eq_map, List.map_cons, List.map_map]
  simp [Function.comp_def]

theorem positive_rows (eng : Engine) {row : JsValue → SourceRow} (reads : ∀ v, FederatedJoins.column (row v) "g" = v) (k : ℕ) :
    ∃ good : List SourceRow, (numbers (k + 1)).map row = row (.num 0) :: good ∧ good.length = k ∧
      applyHaving eng [row (.num 0)] positive = [] ∧
        ∀ rows, rows.Sublist good → applyHaving eng rows positive = rows := by
  refine ⟨((List.range k).map fun i : ℕ => JsValue.num (i + 1)).map row, by rw [numbers_succ, List.map_cons],
    by simp, ?_, ?_⟩
  · simp [applyHaving, positive, Predicate.holds, reads, compares, havingNumber]
  · intro rows sub
    rw [applyHaving, List.filter_eq_self]
    intro r inRows
    rcases List.mem_map.mp (sub.subset inRows) with ⟨v, inside, rfl⟩
    rcases List.mem_map.mp inside with ⟨i, _, rfl⟩
    have above : (0 : ℚ) < i + 1 := Nat.cast_add_one_pos i
    simp [positive, Predicate.holds, reads, compares, havingNumber, above]

theorem comparable_nil (eng : Engine) (rows : List SourceRow) : Comparable (Before eng []) rows where
  total _ _ _ _ := .inl nofun
  trans _ _ _ _ _ _ _ _ := nofun

theorem one_stage_contents (eng : Engine) (limit offset : Option ℕ) {kind : Kind} (windows : kind.windows limit offset)
    (oneStage : kind ∉ [Kind.setOp, .outerFan]) (k : ℕ) :
    ∃ (legs : Legs) (row : JsValue → SourceRow), legs.kind = kind ∧ Within eng (k + 1) [] legs ∧
      (∀ v, FederatedJoins.column (row v) "g" = v) ∧
        ∀ (est : ℚ) (having : List Predicate),
          answer eng (k + 1) est ⟨[], limit, offset⟩ having legs =
            applyHaving eng (applyOrderLimit eng.language ⟨[], limit, offset⟩ ((numbers (k + 1)).map row)) having ∧
          ∀ result, Asked eng ⟨[], limit, offset⟩ having result legs →
            result = finish eng ⟨[], limit, offset⟩ having ((numbers (k + 1)).map row) := by
  have tags := aggregateRaw_tagged eng (numbers_nodup (k + 1)) (numbers_present (k + 1))
  have merged := mergePartials_counted eng (numbers_nodup (k + 1)) (numbers_present (k + 1))
  cases kind with
  | join =>
    refine ⟨.join byG ((numbers (k + 1)).map tagged), tagged, rfl, trivial, fun _ => rfl, ?_⟩
    intro est having
    rw [answer, execute, tags]
    refine ⟨rfl, ?_⟩
    intro result asked
    rwa [Asked, tags] at asked
  | fan =>
    refine ⟨.fan countByG [(numbers (k + 1)).map counted], counted, rfl, List.cons_ne_nil _ _, fun _ => rfl, ?_⟩
    intro est having
    rw [answer, execute, List.flatten_singleton, merged]
    refine ⟨rfl, ?_⟩
    intro result asked
    rwa [Asked, List.flatten_singleton, merged] at asked
  | single source =>
    have within : Within eng (k + 1) [] (.single source ((numbers (k + 1)).map tagged) (sortRows eng)) :=
      ⟨by simp [numbers], rfl⟩
    refine ⟨.single source ((numbers (k + 1)).map tagged) (sortRows eng), tagged, rfl, within, fun _ => rfl, ?_⟩
    intro est having
    rw [answer, execute_single windows within (comparable_nil eng _)]
    exact ⟨rfl, fun result asked => asked⟩
  | setOp => simp at oneStage
  | outerFan => simp at oneStage

theorem tagged_numbers {k i : ℕ} (inside : i < k) : ((numbers k).map tagged)[i]? = some (tagged (.num i)) := by
  rw [numbers, List.map_map, List.getElem?_map, List.getElem?_range inside]
  rfl

/-- A source that leaves out a part of the window gives other groups, or none. -/
theorem window_left_out (eng : Engine) {source : GroupSource} {withHaving : Bool}
    (always : AlwaysAsked eng (.single source) withHaving limit offset) (window : ¬ (limit = none ∧ offset.getD 0 = 0)) :
    (Kind.single source).windows limit offset := by
  obtain ⟨k, enough⟩ : ∃ k, k = offset.getD 0 + limit.getD 0 := ⟨_, rfl⟩
  have size : ((numbers (k + 1)).map tagged).length = k + 1 := by simp [numbers]
  obtain ⟨taken, asked⟩ := always (k + 1) 0 [] [] (.single source ((numbers (k + 1)).map tagged) (sortRows eng)) rfl
    (fun _ => rfl) ⟨size.le, rfl⟩ (comparable_nil eng _)
  rw [Asked, answer, applyHaving_nil, finish, applyHaving_nil, execute, if_pos rfl] at asked
  cases source with
  | sql => trivial
  | mongo =>
    -- the first of the groups is not skipped
    have some_ : limit ≠ some 0 := of_decide_eq_true taken
    have positive : 0 < sourceLimit (k + 1) limit := by
      rw [sourceLimit]
      cases limit with
      | none =>
        rw [Option.getD_none]
        omega
      | some n =>
        have : n ≠ 0 := fun zero => some_ (congrArg Option.some zero)
        rw [Option.getD_some]
        omega
    have first := congrArg (fun rows : List SourceRow => rows[0]?) asked
    have asks : (applyOrderLimit eng.language ⟨[], limit, offset⟩ ((numbers (k + 1)).map tagged))[0]? =
        some (tagged (.num (offset.getD 0))) := by
      have skipped : (((numbers (k + 1)).map tagged).drop (offset.getD 0))[0]? = some (tagged (.num (offset.getD 0))) := by
        rw [List.getElem?_drop, tagged_numbers (by omega), Nat.add_zero]
      rw [applyOrderLimit, if_pos rfl]
      cases limit with
      | none => exact skipped
      | some n =>
        have pos : 0 < n := Nat.pos_of_ne_zero fun zero => some_ (congrArg Option.some zero)
        dsimp only
        rw [List.getElem?_take_of_lt pos]
        exact skipped
    rw [windowed, applyOrderLimit_all rfl rfl, ordered, if_pos rfl] at first
    dsimp only at first
    rw [asks, List.getElem?_take_of_lt positive, tagged_numbers (Nat.succ_pos k)] at first
    have same := congrArg (fun row => FederatedJoins.column row "g") (Option.some.inj first)
    change JsValue.num _ = JsValue.num _ at same
    injection same with inner
    injection inner with value
    exact ⟨(Nat.cast_injective value).symm, some_⟩
  | elastic =>
    have lengths := congrArg List.length asked
    rw [windowed, applyOrderLimit_count, applyOrderLimit_count, size, cut] at lengths
    cases limit with
    | none =>
      simp only [cut, Option.getD_none] at lengths
      exact window ⟨rfl, by omega⟩
    | some n =>
      rw [Option.getD_some] at enough
      simp only [cut, Option.getD_none] at lengths
      omega

theorem two_stage_contents (eng : Engine) (limit offset : Option ℕ) {kind : Kind} (twoStage : kind ∈ [Kind.setOp, .outerFan]) (plan : AggregatePlan) (k : ℕ) :
    ∃ (envCap : ℕ) (legs : Legs), legs.kind = kind ∧ Within eng envCap [] legs ∧
      ∀ est : ℚ, ∃ data : List SourceRow, data.length = cut limit (k - offset.getD 0) ∧
        answer eng envCap est ⟨[], limit, offset⟩ [] legs =
          applyHaving eng (applyOrderLimit eng.language ⟨[], limit, offset⟩ (aggregateRaw eng.parseFloat data plan)) [] ∧
        ∀ result, Asked eng ⟨[], limit, offset⟩ [] result legs →
          ∃ rows : List SourceRow, rows.length = k ∧ (rows.map (rawKey byG)).Nodup ∧
            result = finish eng ⟨[], limit, offset⟩ [] (aggregateRaw eng.parseFloat rows plan) := by
  rw [List.mem_pair] at twoStage
  rcases twoStage with rfl | rfl
  · have parsed : ((List.range k).map letterText).map eng.parse =
        (List.range k).map fun i => tagged (.str (letters i)) := by
      rw [List.map_map]
      exact List.map_congr_left fun i _ => parse_letterText eng i
    have shown : Function.Injective fun i => rawKey byG (tagged (.str (letters i))) := by
      intro i j same
      have keys : [JsValue.str (letters i)] = [JsValue.str (letters j)] := by
        rw [← rawKey_tagged (v := .str (letters i)) rfl, ← rawKey_tagged (v := .str (letters j)) rfl]
        exact same
      injection keys with value
      injection value with text
      injection text with text
      exact letters_injective text
    have distinct : (((List.range k).map fun i => tagged (.str (letters i))).map (rawKey byG)).Nodup := by
      rw [List.map_map]
      exact List.nodup_range.map shown
    have texts : ((List.range k).map letterText).Nodup := by
      apply List.Nodup.of_map eng.parse
      rw [parsed]
      exact List.Nodup.of_map _ distinct
    have belongs {rows : List String} (nodup : rows.Nodup)
        (mem : ∀ t, t ∈ rows ↔ Belongs .union ((List.range k).map letterText) [] t) :
        rows.Perm ((List.range k).map letterText) := by
      rw [List.perm_ext_iff_of_nodup nodup texts]
      intro t
      rw [mem]
      simp [Belongs]
    have within : Within eng (k + 50001) [] (.setOp plan .union ((List.range k).map letterText) []) := by
      intro leg inLegs
      rw [List.mem_singleton.mp inLegs, List.length_map, List.length_range]
      omega
    refine ⟨k + 50001, .setOp plan .union ((List.range k).map letterText) [], rfl, within, ?_⟩
    intro est
    refine ⟨executeSetOp eng.language (k + 50001) est .union ⟨[], limit, offset⟩ ((List.range k).map letterText) [], ?_,
      rfl, ?_⟩
    · have complete : ∀ leg ∈ [(List.range k).map letterText],
          leg.length ≤ legCap (k + 50001) ⟨[], limit, offset⟩ := by
        intro leg inLegs
        rw [legCap, if_neg (by omega)]
        exact within leg inLegs
      have right : Right eng.language .union ⟨[], limit, offset⟩ ((List.range k).map letterText) []
          (executeSetOp eng.language (k + 50001) est .union ⟨[], limit, offset⟩ ((List.range k).map letterText) []) :=
        right_of_complete complete
      rcases right with ⟨rows, nodup, mem, result⟩
      rw [result, applyOrderLimit_count, List.length_map, (belongs nodup mem).length_eq, List.length_map,
        List.length_range]
    · rintro result ⟨all, rows, nodup, mem, perm, asked⟩
      have same := perm.trans ((belongs nodup mem).map eng.parse)
      rw [parsed] at same
      refine ⟨rows, by rw [same.length_eq, List.length_map, List.length_range], ?_, asked⟩
      rwa [(same.map (rawKey byG)).nodup_iff]
  · have merged := mergePartials_counted eng (numbers_nodup k) (numbers_present k)
    have distinct : (((numbers k).map counted).map (rawKey byG)).Nodup := by
      rw [List.map_map]
      change ((numbers k).map fun v => rawKey byG (counted v)).Nodup
      rw [List.map_congr_left fun v inside => rawKey_counted (numbers_present k v inside)]
      exact (numbers_nodup k).map fun _ _ same => (List.cons.inj same).1
    have size : ((numbers k).map counted).length = k := by simp [numbers]
    refine ⟨0, .outerFan plan countByG [(numbers k).map counted], rfl, List.cons_ne_nil _ _, ?_⟩
    intro est
    refine ⟨applyOrderLimit eng.language ⟨[], limit, offset⟩ ((numbers k).map counted), ?_, ?_, ?_⟩
    · rw [applyOrderLimit_count, size]
    · rw [answer, execute, List.flatten_singleton, merged]
    · rintro result ⟨rows, perm, asked⟩
      rw [List.flatten_singleton, merged] at perm
      refine ⟨rows, by rw [perm.length_eq, size], ?_, asked⟩
      rwa [(perm.map (rawKey byG)).nodup_iff]

end

/-- The clauses compose in the order of SQL for all queries of a kind exactly if there is no
window, LIMIT is 0, or the groups are made in one stage and there is no HAVING. -/
theorem clauses_compose_iff (eng : Engine) (kind : Kind) (withHaving : Bool) (limit offset : Option ℕ) :
    AlwaysAsked eng kind withHaving limit offset ↔ Composes kind withHaving limit offset := by
  constructor
  · intro always
    by_contra fails
    rw [Composes, not_or] at fails
    rcases fails with ⟨window, stages⟩
    have applied : kind.windows limit offset := by
      cases kind with
      | single source => exact window_left_out eng always window
      | _ => trivial
    have some : limit ≠ Option.some 0 := fun zero => stages ⟨applied, .inl zero⟩
    have stages : ¬ (kind ∉ [Kind.setOp, .outerFan] ∧ withHaving = false) := fun one => stages ⟨applied, .inr one⟩
    have windows : 0 < offset.getD 0 ∨ offset.getD 0 = 0 ∧ ∃ n, limit = Option.some (n + 1) := by
      cases limit with
      | none => exact .inl (Nat.pos_of_ne_zero fun zero => window ⟨rfl, zero⟩)
      | some n =>
        cases n with
        | zero => exact absurd rfl some
        | succ n =>
          rcases Nat.eq_zero_or_pos (offset.getD 0) with zero | pos
          · exact .inr ⟨zero, n, rfl⟩
          · exact .inl pos
    by_cases twoStage : kind ∈ [Kind.setOp, .outerFan]
    · rcases windows with pos | ⟨zero, n, rfl⟩
      · rcases two_stage_contents eng limit offset twoStage byG (offset.getD 0 + 1) with
          ⟨envCap, legs, own, within, contents⟩
        rcases contents 0 with ⟨data, left, result, asked⟩
        rcases asked _ (always envCap 0 [] [] legs own (fun _ => rfl) within (comparable_nil eng _)).2 with
          ⟨rows, all, distinct, equal⟩
        rw [result] at equal
        refine offset_twice pos some ?_ all distinct equal
        rw [left]
        cases limit with
        | none =>
          simp only [cut]
          omega
        | some n =>
          simp only [cut]
          omega
      · rcases two_stage_contents eng (Option.some (n + 1)) offset twoStage countAll (n + 2)
          with ⟨envCap, legs, own, within, contents⟩
        rcases contents 0 with ⟨data, left, result, asked⟩
        rcases asked _ (always envCap 0 [] [] legs own (fun _ => rfl) within (comparable_nil eng _)).2 with
          ⟨rows, all, distinct, equal⟩
        rw [result] at equal
        refine limit_before_count zero ?_ all equal
        rw [left, cut, zero]
        omega
    · have given : withHaving ≠ false := fun none => stages ⟨twoStage, none⟩
      rcases windows with pos | ⟨zero, n, rfl⟩
      · rcases one_stage_contents eng limit offset applied twoStage (offset.getD 0) with
          ⟨legs, row, own, within, reads, contents⟩
        rcases positive_rows eng reads (offset.getD 0) with ⟨good, rows, size, rejects, keeps⟩
        have asked := (contents 0 positive).2 _
          (always _ 0 [] positive legs own (fun none => absurd none given) within (comparable_nil eng _)).2
        rw [(contents 0 positive).1, rows] at asked
        exact having_after_window rejects keeps (.inl ⟨pos, some, size⟩) asked
      · rcases one_stage_contents eng (Option.some (n + 1)) offset applied twoStage (n + 1) with
          ⟨legs, row, own, within, reads, contents⟩
        rcases positive_rows eng reads (n + 1) with ⟨good, rows, size, rejects, keeps⟩
        have asked := (contents 0 positive).2 _
          (always _ 0 [] positive legs own (fun none => absurd none given) within (comparable_nil eng _)).2
        rw [(contents 0 positive).1, rows] at asked
        exact having_after_window rejects keeps (.inr ⟨zero, n, rfl, size⟩) asked
  · exact always_asked_of_composes

def quoted (t : String) : String := String.ofList ((t.toList.drop 6).dropLast.dropLast)

theorem quoted_text (s : String) : quoted ("\x7b\"g\":\"" ++ s ++ "\"\x7d") = s := by
  have chars : ("\x7b\"g\":\"" ++ s ++ "\"\x7d").toList = ['{', '"', 'g', '"', ':', '"'] ++ (s.toList ++ ['"'] ++ ['}']) := by
    rw [String.toList_append, String.toList_append]
    simp
  rw [quoted, chars]
  change String.ofList (s.toList ++ ['"'] ++ ['}']).dropLast.dropLast = s
  rw [List.dropLast_concat, List.dropLast_concat, String.ofList_toList]

/-- Numbers are compared, and values are equal to themselves. -/
def plainEngine : Engine where
  lt a b := match a, b with
    | .num p, .num q => p < q
    | _, _ => false
  looseEq a b := a = b
  parseFloat _ := none
  parse t := tagged (.str (quoted t))
  parse_text s _ := by
    rw [quoted_text]
    rfl

/-- `SELECT g, count(*) AS n .. GROUP BY g HAVING n > 1 LIMIT 1` over one row of `eu` and two of `us`. -/
theorem second_group_lost :
    ¬ Asked plainEngine ⟨[], some 1, none⟩ [⟨"n", "GT", .num 1⟩]
      (answer plainEngine 50000 3 ⟨[], some 1, none⟩ [⟨"n", "GT", .num 1⟩]
        (.join countByG [tagged (.str "eu"), tagged (.str "us"), tagged (.str "us")]))
      (.join countByG [tagged (.str "eu"), tagged (.str "us"), tagged (.str "us")]) := by
  intro equal
  have lengths := congrArg List.length equal
  exact absurd lengths (by decide +kernel)

end DataFabric.AggregateQueries
