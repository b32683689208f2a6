import DataFabric.CanonicalFilters
import DataFabric.JoinedAggregates
import DataFabric.RowIdentity

set_option autoImplicit false

/-!
# The legs of a set operation

A union whose legs are all aggregate queries asks every leg's source for the partial aggregates of the
first leg. Any other set operation asks every leg for its own rows.
-/
namespace DataFabric.SetOpLegs
open CharText JsValues AstGuard CanonicalFilters OrderedRecords FederatedJoins Aggregates SetOperations JoinedAggregates

/-- An object of a select list; a name that is missing is empty. -/
structure ElementObject where
  func : String := ""
  aggregate : String := ""
  column : String := ""
  aliasName : String := ""
  distinct : Bool := false
  window : Bool := false
  expression : Bool := false
  deriving DecidableEq

inductive Element
  | text (s : String)
  | object (o : ElementObject)
  | other
  deriving DecidableEq

structure Leg where
  select : List Element
  groupBy : List GroupBy := []
  wheres : List WhereEntry := []
  orderBy : List SortKey := []
  limit : Option ℚ := none
  offset : Option ℚ := none
  distinct : Bool := false

structure PushedAggregate where
  func : String
  column : Option String
  aliasName : String
  deriving DecidableEq

structure Request where
  filter : Option CanonicalFilter
  select : Option (List String)
  groupBy : Option (List GroupBy)
  aggregates : Option (List PushedAggregate)
  orderBy : Option (List SortKey)
  limit : Option ℚ
  offset : Option ℚ
  deriving DecidableEq

abbrev Source := Request → List SourceRow

namespace Element

def item : Element → JoinedAggregates.SelectItem
  | .text s => .text s
  | .object o => if o.aggregate = "" then .object else .spec o.aggregate (some o.column) (some o.aliasName) o.distinct
  | .other => .object

def projected : Element → RowIdentity.SelectItem
  | .text s => .name s
  | .object o =>
    if o.func ≠ "" then .func o.func o.aliasName
    else if o.column ≠ "" then .column o.column o.aliasName
    else .other
  | .other => .other

/-- A column or an aggregate; `none` for an element that cannot be pushed. -/
def pushed : Element → Option (String ⊕ PushedAggregate)
  | .text s => some (.inl s)
  | .object o =>
    if o.column ≠ "" ∧ o.func = "" ∧ o.aggregate = "" ∧ o.window = false ∧ o.expression = false then some (.inl o.column)
    else if o.func ≠ "" then
      some (.inr ⟨o.func, if o.column = "" then none else some o.column,
        if o.aliasName = "" then asciiLower o.func else o.aliasName⟩)
    else none
  | .other => none

end Element

def filled {α : Type*} [DecidableEq α] (xs : List α) : Option (List α) := if xs = [] then none else some xs

namespace Leg

variable (leg : Leg)

def plan : Option AggregatePlan := parseAggregates (leg.select.map Element.item) leg.groupBy

def pushedSelect : List (String ⊕ PushedAggregate) :=
  if .text "*" ∈ leg.select then [] else (leg.select.mapM Element.pushed).getD []

def canonical : Request :=
  let select := filled (leg.pushedSelect.filterMap Sum.getLeft?)
  { filter := canonicalFilter .federated leg.wheres
    select := select
    groupBy := if leg.distinct then select.map fun cols => cols.map GroupBy.field else none
    aggregates := filled (leg.pushedSelect.filterMap Sum.getRight?)
    orderBy := filled leg.orderBy
    limit := leg.limit
    offset := leg.offset }

end Leg

def code : AggFunc → String
  | .count => "COUNT"
  | .sum => "SUM"
  | .min => "MIN"
  | .max => "MAX"
  | .avg => "AVG"
  | .countDistinct => "COUNT_DISTINCT"
  | .other name => name

def pushedAggregates (plan : AggregatePlan) : List PushedAggregate :=
  (partialSpec plan).aggregates.map fun a => ⟨code a.func, a.column, a.aliasName⟩

/-- The partial aggregates of a plan over the filter of a leg. -/
def partialRequest (plan : AggregatePlan) (leg : Leg) : Request where
  filter := leg.canonical.filter
  select := none
  groupBy := some (partialSpec plan).groupCols
  aggregates := some (pushedAggregates plan)
  orderBy := none
  limit := none
  offset := none

/-- The plan of the first leg where every leg of a union has aggregates. -/
def fanPlan (op : SetOp) (legs : List Leg) : Option AggregatePlan :=
  if op = .union ∧ legs.all (fun leg => leg.plan.any fun plan => plan.aggregates ≠ []) then legs.head?.bind Leg.plan
  else none

def contributed (op : SetOp) (cap : ℕ) (legs : List Leg) (leg : Leg) (source : Source) : List SourceRow :=
  match fanPlan op legs with
  | some plan => source (partialRequest plan leg)
  | none => ((source leg.canonical).take cap).map fun row =>
    RowIdentity.projectRowToAlias row (leg.select.map Element.projected)

structure TwoRuns where
  op : SetOp
  legs : List Leg
  others : List Leg
  place : ℕ
  leg : Leg
  first : legs[place]? = some leg
  second : others[place]? = some leg

/-- The leg contributes the same rows to both, whatever its source holds. -/
def Independent (cap : ℕ) (runs : TwoRuns) : Prop :=
  ∀ source : Source, contributed runs.op cap runs.legs runs.leg source = contributed runs.op cap runs.others runs.leg source

def sharedPlan (op : SetOp) (legs : List Leg) : Option (List GroupBy × List PushedAggregate) :=
  (fanPlan op legs).map fun plan => (plan.groupCols, pushedAggregates plan)

/-- Neither run asks for partial aggregates, or both ask for the same ones. -/
def HoldsWhen (runs : TwoRuns) : Prop := sharedPlan runs.op runs.legs = sharedPlan runs.op runs.others

section

variable {cap : ℕ} {op : SetOp} {legs others : List Leg} {leg : Leg} {plan other : AggregatePlan}

theorem partial_ne_canonical : leg.canonical ≠ partialRequest plan leg := by
  intro h
  have hgroup := congrArg Request.groupBy h
  have hselect := congrArg Request.select h
  change (if leg.distinct then leg.canonical.select.map fun cols => cols.map GroupBy.field else none) = some _ at hgroup
  change leg.canonical.select = none at hselect
  rw [hselect] at hgroup
  split at hgroup <;> cases hgroup

theorem partialRequest_inj : partialRequest plan leg = partialRequest other leg ↔
    (plan.groupCols, pushedAggregates plan) = (other.groupCols, pushedAggregates other) := by
  unfold partialRequest
  simp only [Request.mk.injEq, Option.some.injEq, true_and, and_true, Prod.mk.injEq]
  exact Iff.rfl

def answering (r : Request) : Source := fun r' => if r' = r then [.empty] else []

theorem contributed_fan (h : fanPlan op legs = some plan) (source : Source) :
    contributed op cap legs leg source = source (partialRequest plan leg) := by
  unfold contributed
  rw [h]

theorem contributed_own (h : fanPlan op legs = none) (source : Source) :
    contributed op cap legs leg source = ((source leg.canonical).take cap).map fun row =>
      RowIdentity.projectRowToAlias row (leg.select.map Element.projected) := by
  unfold contributed
  rw [h]

theorem shared_of_answering (h : fanPlan op legs = some plan)
    (hsame : contributed op cap legs leg (answering (partialRequest plan leg)) =
      contributed op cap others leg (answering (partialRequest plan leg))) :
    sharedPlan op others = some (plan.groupCols, pushedAggregates plan) := by
  have hanswer : answering (partialRequest plan leg) (partialRequest plan leg) = [.empty] := if_pos rfl
  rw [contributed_fan h, hanswer] at hsame
  unfold sharedPlan
  cases hothers : fanPlan op others with
  | none =>
    have hnone : answering (partialRequest plan leg) leg.canonical = [] := if_neg partial_ne_canonical
    rw [contributed_own hothers, hnone, List.take_nil, List.map_nil] at hsame
    cases hsame
  | some other =>
    rw [contributed_fan hothers] at hsame
    by_cases hrequest : partialRequest other leg = partialRequest plan leg
    · rw [Option.map_some, partialRequest_inj.mp hrequest]
    · have hnone : answering (partialRequest plan leg) (partialRequest other leg) = [] := if_neg hrequest
      rw [hnone] at hsame
      cases hsame

end

/-- A leg's rows do not depend on the other legs if and only if no partial aggregates are shared, or the same. -/
theorem independent_iff (cap : ℕ) (runs : TwoRuns) : Independent cap runs ↔ HoldsWhen runs := by
  unfold HoldsWhen
  constructor
  · intro h
    cases hfirst : fanPlan runs.op runs.legs with
    | some plan =>
      rw [shared_of_answering hfirst (h _)]
      unfold sharedPlan
      rw [hfirst]
      rfl
    | none =>
      cases hsecond : fanPlan runs.op runs.others with
      | some plan =>
        rw [shared_of_answering hsecond (h _).symm]
        unfold sharedPlan
        rw [hsecond]
        rfl
      | none =>
        unfold sharedPlan
        rw [hfirst, hsecond]
  · intro h source
    unfold sharedPlan at h
    cases hfirst : fanPlan runs.op runs.legs with
    | none =>
      rw [hfirst, Option.map_none, eq_comm, Option.map_eq_none_iff] at h
      rw [contributed_own hfirst, contributed_own h]
    | some plan =>
      rw [hfirst, Option.map_some, eq_comm, Option.map_eq_some_iff] at h
      have ⟨other, hsecond, hshared⟩ := h
      rw [contributed_fan hfirst, contributed_fan hsecond, partialRequest_inj.mpr hshared.symm]

def sumLeg : Leg where
  select := [.object { aggregate := "SUM", column := "amount", aliasName := "n" }]

def countLeg : Leg where
  select := [.object { aggregate := "COUNT", column := "*", aliasName := "n" }]

def besideCount : TwoRuns where
  op := .union
  legs := [sumLeg, sumLeg]
  others := [countLeg, sumLeg]
  place := 1
  leg := sumLeg
  first := rfl
  second := rfl

def twoAmounts : Source := fun r =>
  [.ofEntries [("n", if r.aggregates = some [⟨"COUNT", none, "n"⟩] then .num 2 else .num 30)]]

/-- The amounts are counted where the first leg counts. -/
theorem amounts_counted : ¬ ∀ (cap : ℕ) (runs : TwoRuns), Independent cap runs := by
  intro h
  have hsame := h 50000 besideCount twoAmounts
  revert hsame
  decide +kernel

end DataFabric.SetOpLegs
