import DataFabric.CharText
import DataFabric.JsValues
import DataFabric.KeyedJoins
import DataFabric.OrderedRecords
import Mathlib.Data.List.TakeWhile
import Mathlib.Data.Rat.Defs
import Mathlib.Algebra.Order.Ring.Rat

set_option autoImplicit false

/-!
# Joins across sources

The driving leg is read in windows; every later leg is asked for the rows whose
key the window has, and the two sides are merged by a hash on the key. No leg
and no join reaches a row cap here.
-/
namespace DataFabric.FederatedJoins
open CharText JsValues KeyedJoins OrderedRecords

abbrev SourceRow := Record String JsValue

/-- A joined row by its properties, `none` for one it does not have. -/
abbrev JoinedRow := String → Option JsValue

def afterPrefix (p s : String) : Option String :=
  if startsWith s p then some (String.ofList (s.toList.drop p.toList.length)) else none

def qualify (aliasName : String) (r : SourceRow) : JoinedRow := fun key =>
  (afterPrefix (aliasName ++ ".") key).bind r.get?

def mergeRow (l r : JoinedRow) : JoinedRow := fun key => (r key).or (l key)

def JoinedRow.read (row : JoinedRow) (path : String) : JsValue := (row path).getD .undefined

def baseColumn (path : String) : String := afterLast '.' path

theorem baseColumn_plain (path : String) : '.' ∉ (baseColumn path).toList := by
  unfold baseColumn afterLast
  rw [String.toList_ofList, List.mem_reverse]
  intro hdot
  have htake := List.all_eq_true.mp List.all_takeWhile _ hdot
  simp at htake

theorem baseColumn_idem (path : String) : baseColumn (baseColumn path) = baseColumn path := by
  simp only [baseColumn, CharText.afterLast, String.toList_ofList, List.reverse_reverse, List.takeWhile_idem]

def readColumn (row : JoinedRow) (path : String) : JsValue :=
  match row path with
  | some v => v
  | none => row.read (baseColumn path)

structure JoinOn where
  left : String
  right : String
  deriving DecidableEq

def JoinOn.flip (on : JoinOn) : JoinOn := ⟨on.right, on.left⟩

structure LegMeta where
  aliasName : String
  on : Option JoinOn
  deriving DecidableEq

/-- The comparison of a `Map` key: two objects of different rows are never one. -/
def sameKey : JsValue → JsValue → Bool
  | .prim p, .prim q => p = q
  | _, _ => false

def matchesOn (on : JoinOn) (l r : JoinedRow) : Bool := sameKey (l.read on.left) (r.read on.right)

/-- The buckets of a `Map` keep the order of the right side. -/
def mergeJoin (left right : List JoinedRow) (on : JoinOn) : List JoinedRow :=
  (pairs (matchesOn on) left right).map fun p => mergeRow p.1 p.2

/-- How many keys go into one `IN` list, up to how many rows both sides are fetched whole,
and what a source's `IN` tells of a value and a list. -/
structure JoinSettings where
  bindMax : ℕ
  bindMax_pos : 0 < bindMax
  broadcastMax : ℚ
  sourceIn : JsValue → List JsValue → Bool

/-- A source compares primitive values as the engine does and never a missing one. -/
structure ReadsIn (sourceIn : JsValue → List JsValue → Bool) : Prop where
  primitive : ∀ p ks, (JsValue.prim p).isNullish = false →
    (sourceIn (.prim p) ks = true ↔ .prim p ∈ ks)
  nullish : ∀ v ks, v.isNullish = true → sourceIn v ks = false

abbrev Contents := String → List SourceRow

def column (r : SourceRow) (col : String) : JsValue := (r.get? col).getD .undefined

def bindKeys (acc : List JoinedRow) (on : JoinOn) : List JsValue :=
  ((acc.map fun l => readColumn l on.left).filter fun v => !v.isNullish).eraseDups

def fetchBound (s : JoinSettings) (rows : List SourceRow) (col : String) (keys : List JsValue) :
    List SourceRow :=
  (chunk s.bindMax keys).flatMap fun ks => rows.filter fun r => s.sourceIn (column r col) ks

/-- A bind join of one leg; without keys the leg is not fetched. -/
def joinLeg (s : JoinSettings) (contents : Contents) (acc : List JoinedRow) (lm : LegMeta) :
    List JoinedRow :=
  match lm.on with
  | none => acc
  | some on =>
    let keys := bindKeys acc on
    let right := if keys = [] then [] else fetchBound s (contents lm.aliasName) (baseColumn on.right) keys
    mergeJoin acc (right.map (qualify lm.aliasName)) on

def joinChunk (s : JoinSettings) (contents : Contents) (drivingAlias : String)
    (subsequentLegs : List LegMeta) (drivingRows : List SourceRow) : List JoinedRow :=
  subsequentLegs.foldl (joinLeg s contents) (drivingRows.map (qualify drivingAlias))

def windowSize : ℕ := 1000

/-- The driving leg in windows, each joined with the other legs. -/
def bindJoin (s : JoinSettings) (contents : Contents) : List LegMeta → List JoinedRow
  | [] => []
  | driving :: rest =>
    (chunk windowSize (contents driving.aliasName)).flatMap (joinChunk s contents driving.aliasName rest)

def broadcastJoin (contents : Contents) (a0 a1 : String) (on : JoinOn) : List JoinedRow :=
  mergeJoin ((contents a0).map (qualify a0)) ((contents a1).map (qualify a1)) on

/-- Row counts by alias, `none` where the probe failed or is disabled. -/
abbrev Cards := String → Option ℚ

/-- One step of the search: the first strictly smallest known count wins. -/
def bestStep (best : ℕ × Option ℚ) (card : Option ℚ × ℕ) : ℕ × Option ℚ :=
  match card.1, best.2 with
  | none, _ => best
  | some c, none => (card.2, some c)
  | some c, some m => if c < m then (card.2, some c) else best

def bestIndex (cards : List (Option ℚ)) : ℕ :=
  (cards.zipIdx.foldl bestStep (0, cards.head?.join)).1

/-- The leg the estimates choose; of two legs both counts have to be known. -/
def drivingIndex (cards : Cards) (legs : List LegMeta) : ℕ :=
  match legs with
  | [l, r] =>
    match cards l.aliasName, cards r.aliasName with
    | some cl, some cr => if cr < cl then 1 else 0
    | _, _ => 0
  | _ => bestIndex (legs.map fun lm => cards lm.aliasName)

/-- The chosen leg and the FROM leg change places, the chosen ON turned around. -/
def swapDriving (k : ℕ) (legs : List LegMeta) : List LegMeta :=
  match legs, legs[k]? with
  | origDriving :: _, some ⟨chosen, some on⟩ =>
    (legs.set 0 ⟨chosen, none⟩).set k ⟨origDriving.aliasName, some on.flip⟩
  | _, _ => legs

/-- The join of legs in their final order: a broadcast of two small legs, bind joins otherwise. -/
def runLegs (s : JoinSettings) (cards : Cards) (contents : Contents) (legs : List LegMeta) :
    List JoinedRow :=
  match legs with
  | [a0, ⟨name, some on⟩] =>
    match cards a0.aliasName, cards name with
    | some c0, some c1 =>
      if c0 ≤ s.broadcastMax ∧ c1 ≤ s.broadcastMax then
        broadcastJoin contents a0.aliasName name on
      else bindJoin s contents legs
    | _, _ => bindJoin s contents legs
  | _ => bindJoin s contents legs

def executeJoin (s : JoinSettings) (cards : Cards) (contents : Contents) (legs : List LegMeta) :
    List JoinedRow :=
  runLegs s cards contents (swapDriving (drivingIndex cards legs) legs)

end DataFabric.FederatedJoins
