import DataFabric.FederatedJoins
import DataFabric.GroupedFolds

set_option autoImplicit false

/-!
# Aggregates in the fabric

Rows of one group are merged from partial aggregates of several sources, or taken in one
by one. The key of a group is the JSON text of its values; values that JSON tells apart
are told apart here as they are.
-/
namespace DataFabric.Aggregates
open JsValues OrderedRecords FederatedJoins

inductive AggFunc
  | count | sum | min | max | avg | countDistinct
  | other (name : String)
  deriving DecidableEq, Repr

structure AggregateSpec where
  func : AggFunc
  column : Option String
  aliasName : String
  deriving DecidableEq, Repr

inductive GroupBy
  | field (path : String)
  | bucket (field dateInterval : String)
  deriving DecidableEq, Repr

structure AggregatePlan where
  groupCols : List GroupBy
  aggregates : List AggregateSpec
  deriving DecidableEq, Repr

def gName : GroupBy → String
  | .field path => path
  | .bucket field _ => field

def sumName (aliasName : String) : String := "__sum__" ++ aliasName

def cntName (aliasName : String) : String := "__cnt__" ++ aliasName

def partialSpec (plan : AggregatePlan) : AggregatePlan where
  groupCols := plan.groupCols
  aggregates := plan.aggregates.flatMap fun a =>
    if a.func = .avg then [⟨.sum, a.column, sumName a.aliasName⟩, ⟨.count, a.column, cntName a.aliasName⟩]
    else [a]

def orElse (v w : JsValue) : JsValue := if v.isNullish then w else v

section

variable (parseFloat : String → Option ℚ)

/-- A finite number, or 0; the texts of the other values begin with no number. -/
def numeric : JsValue → ℚ
  | .num q => q
  | .str s => (parseFloat s).getD 0
  | .arr vs => (parseFloat (JsValue.arr vs).text).getD 0
  | _ => 0

def groupValue (row : SourceRow) (name : String) : JsValue :=
  orElse (column row name) (orElse (column row (baseColumn name)) .null)

def mergeKey (plan : AggregatePlan) (row : SourceRow) : List JsValue :=
  plan.groupCols.map fun g => groupValue row (gName g)

def groupRow (plan : AggregatePlan) (key : List JsValue) : SourceRow :=
  .ofEntries ((plan.groupCols.map gName).zip key)

/-- A missing value of the group, or the number of `f` of both. -/
def fold (f : ℚ → ℚ → ℚ) (v w : JsValue) : JsValue :=
  if v = .undefined then w else .num (f (numeric parseFloat v) (numeric parseFloat w))

def add (v w : JsValue) : JsValue := .num (numeric parseFloat v + numeric parseFloat w)

/-- No source returns the raw values of a distinct count, whose counts are summed here. -/
def mergeOne (row acc : SourceRow) (a : AggregateSpec) : SourceRow :=
  match a.func with
  | .avg =>
    let acc := acc.assign (sumName a.aliasName)
      (add parseFloat (column acc (sumName a.aliasName)) (column row (sumName a.aliasName)))
    acc.assign (cntName a.aliasName)
      (add parseFloat (column acc (cntName a.aliasName)) (column row (cntName a.aliasName)))
  | .count | .sum | .countDistinct =>
    acc.assign a.aliasName (add parseFloat (column acc a.aliasName) (column row a.aliasName))
  | .min => acc.assign a.aliasName (fold parseFloat min (column acc a.aliasName) (column row a.aliasName))
  | .max => acc.assign a.aliasName (fold parseFloat max (column acc a.aliasName) (column row a.aliasName))
  | .other _ => acc

def mergeRowInto (plan : AggregatePlan) (acc row : SourceRow) : SourceRow :=
  plan.aggregates.foldl (mergeOne parseFloat row) acc

def finishOne (acc : SourceRow) (a : AggregateSpec) : SourceRow :=
  match a.func with
  | .avg =>
    let s := numeric parseFloat (column acc (sumName a.aliasName))
    let c := numeric parseFloat (column acc (cntName a.aliasName))
    let acc := acc.assign a.aliasName (if 0 < c then .num (s / c) else .null)
    (acc.erase (sumName a.aliasName)).erase (cntName a.aliasName)
  | _ => acc

def mergePartials (rows : List SourceRow) (plan : AggregatePlan) : List SourceRow :=
  (groupFold (mergeKey plan) (fun row => groupRow plan (mergeKey plan row)) (mergeRowInto parseFloat plan)
    rows).entries.map fun group => plan.aggregates.foldl (finishOne parseFloat) group.2

/-- The column under its name, under the last part of the name, or under any name with this last part. -/
def readCol (row : SourceRow) (name : String) : JsValue :=
  match row.get? name with
  | some v => v
  | none =>
    match row.get? (baseColumn name) with
    | some v => v
    | none => ((row.entries.find? fun e => baseColumn e.1 = baseColumn name).map Prod.snd).getD .undefined

inductive Running
  | number (q : ℚ)
  | set (values : List JsValue)
  deriving DecidableEq

def Running.total : Option Running → ℚ
  | some (.number q) => q
  | _ => 0

def Running.add (v : JsValue) : Option Running → Running
  | some (.set vs) => .set (if vs.any (sameKey · v) then vs else vs ++ [v])
  | _ => .set [v]

def Running.size : Option Running → ℚ
  | some (.set vs) => vs.length
  | _ => 0

abbrev GroupState := Record String Running

def stepOne (row : SourceRow) (st : GroupState) (a : AggregateSpec) : GroupState :=
  let v := match a.column with
    | some c => if c = "" then .num 1 else readCol row c
    | none => .num 1
  let key := a.aliasName
  match a.func with
  | .count =>
    if a.column = none ∨ v.isNullish = false then st.assign key (.number (Running.total (st.get? key) + 1)) else st
  | .sum => st.assign key (.number (Running.total (st.get? key) + numeric parseFloat v))
  | .min =>
    st.assign key (.number (if st.get? key = none then numeric parseFloat v
      else min (Running.total (st.get? key)) (numeric parseFloat v)))
  | .max =>
    st.assign key (.number (if st.get? key = none then numeric parseFloat v
      else max (Running.total (st.get? key)) (numeric parseFloat v)))
  | .avg =>
    let st := st.assign (key ++ "__s") (.number (Running.total (st.get? (key ++ "__s")) + numeric parseFloat v))
    st.assign (key ++ "__c") (.number (Running.total (st.get? (key ++ "__c")) + 1))
  | .countDistinct => st.assign key (Running.add v (st.get? key))
  | .other _ => st

def showOne (st : GroupState) (acc : SourceRow) (a : AggregateSpec) : SourceRow :=
  match a.func with
  | .avg =>
    let c := Running.total (st.get? (a.aliasName ++ "__c"))
    acc.assign a.aliasName (if 0 < c then .num (Running.total (st.get? (a.aliasName ++ "__s")) / c) else .null)
  | .countDistinct => acc.assign a.aliasName (.num (Running.size (st.get? a.aliasName)))
  | f =>
    acc.assign a.aliasName (match st.get? a.aliasName with
      | some (.number q) => .num q
      | some (.set _) => .obj []
      | none => if f = .count then .num 0 else .null)

def rawKey (plan : AggregatePlan) (row : SourceRow) : List JsValue :=
  plan.groupCols.map fun g => orElse (readCol row (gName g)) .null

def aggregateRaw (rows : List SourceRow) (plan : AggregatePlan) : List SourceRow :=
  (groupFold (rawKey plan) (fun row => (groupRow plan (rawKey plan row), .empty))
    (fun group row => (group.1, plan.aggregates.foldl (stepOne parseFloat row) group.2)) rows).entries.map
      fun group => plan.aggregates.foldl (showOne group.2.2) group.2.1

end

end DataFabric.Aggregates
