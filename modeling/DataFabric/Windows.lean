import DataFabric.AggregateQueries

set_option autoImplicit false

/-!
# Window functions in the fabric

The rows are cut into partitions, every partition is sorted, and each row gets the value of
its place. The rows keep their order and are written to under the alias of the window.
-/
namespace DataFabric.Windows
open CharText JsValues OrderedRecords FederatedJoins Aggregates SetOperations AggregateQueries

/-- A window of the select list, its columns by their last names and its function in upper case. A column that
is missing is empty, and the offset of LAG and LEAD is a whole number. -/
structure WindowSpec where
  fn : String
  column : String
  partitionBy : List String
  orderBy : List SortKey
  aliasName : String
  offset : Option ℤ
  deriving DecidableEq

def digitsNumber (cs : List Char) : ℕ := cs.foldl (fun n c => 10 * n + (c.toNat - '0'.toNat)) 0

def unsigned (cs : List Char) : Option ℚ :=
  let whole := cs.takeWhile Char.isDigit
  if whole = [] then none
  else match cs.dropWhile Char.isDigit with
    | [] => some (digitsNumber whole)
    | '.' :: fraction =>
      if fraction ≠ [] && fraction.all Char.isDigit then
        some ((digitsNumber (whole ++ fraction) : ℚ) / 10 ^ fraction.length)
      else none
    | _ => none

def signed : List Char → Option ℚ
  | '-' :: cs => (unsigned cs).map fun q => -q
  | cs => unsigned cs

def asNum : JsValue → JsValue
  | .str s => ((signed (trim s).toList).map JsValue.num).getD (.str s)
  | v => v

/-- The comparison of a window's ORDER BY, by the `<` of the language. -/
def comparator (lt : JsValue → JsValue → Bool) : List SortKey → SourceRow → SourceRow → Ordering
  | [], _, _ => .eq
  | o :: orderBy, a, b =>
    let av := asNum (readCol a o.column)
    let bv := asNum (readCol b o.column)
    if lt av bv then if o.descending then .gt else .lt
    else if lt bv av then if o.descending then .lt else .gt
    else comparator lt orderBy a b

def partitionKey (row : SourceRow) (cols : List String) : List JsValue :=
  cols.map fun c => orElse (readCol row c) .null

def orderKey (orderBy : List SortKey) (r : SourceRow) : List JsValue :=
  orderBy.map fun o => asNum (orElse (readCol r o.column) .null)

def ranks (orderBy : List SortKey) : ℕ → ℕ → ℕ → Option (List JsValue) → List SourceRow → List (ℕ × ℕ)
  | _, _, _, _, [] => []
  | i, rank, dense, prevKey, r :: part =>
    if some (orderKey orderBy r) = prevKey then (rank, dense) :: ranks orderBy (i + 1) rank dense prevKey part
    else (i + 1, dense + 1) :: ranks orderBy (i + 1) (i + 1) (dense + 1) (some (orderKey orderBy r)) part

def rankingValue (fn : String) (rs : List (ℕ × ℕ)) (r : ℕ × ℕ) (i : ℕ) : JsValue :=
  if fn = "ROW_NUMBER" then .num (i + 1 : ℕ)
  else if fn = "DENSE_RANK" then .num r.2
  else if fn = "RANK" then .num r.1
  else if fn = "PERCENT_RANK" then .num (if rs.length ≤ 1 then 0 else ((r.1 : ℚ) - 1) / ((rs.length : ℚ) - 1))
  else
    let last := i + ((rs.drop (i + 1)).takeWhile fun s => s.1 = r.1).length
    .num ((last + 1 : ℕ) / (rs.length : ℚ))

def rankingValues (spec : WindowSpec) (part : List SourceRow) : List JsValue :=
  let rs := ranks spec.orderBy 0 0 0 none part
  rs.zipIdx.map fun r => rankingValue spec.fn rs r.1 r.2

/-- `part[j]`, read when the rows before it are already written to. -/
def navigated (spec : WindowSpec) (part : List SourceRow) (i : ℕ) : JsValue :=
  let off := spec.offset.getD 1
  let j := if spec.fn = "LAG" then (i : ℤ) - off else (i : ℤ) + off
  if 0 ≤ j then
    match part[j.toNat]? with
    | some r => orElse (readCol r spec.column) .null
    | none => .null
  else .null

def navValues (spec : WindowSpec) (part : List SourceRow) : List JsValue :=
  ((List.range part.length).foldl
    (fun (acc : List SourceRow × List JsValue) i =>
      let v := navigated spec acc.1 i
      (acc.1.modify i fun r => r.assign spec.aliasName v, acc.2 ++ [v])) (part, [])).2

section

variable (parseFloat : String → Option ℚ)

/-- The number a row brings to its frame, none for a null; every row brings a 1 where there is no column. -/
def argument (spec : WindowSpec) (r : SourceRow) : Option ℚ :=
  if spec.column = "" then some 1
  else if (readCol r spec.column).isNullish then none
  else some (numeric parseFloat (readCol r spec.column))

structure Frame where
  sum : ℚ := 0
  cnt : ℕ := 0
  mn : Option ℚ := none
  mx : Option ℚ := none

def Frame.add (f : Frame) : Option ℚ → Frame
  | none => f
  | some v =>
    { sum := f.sum + v, cnt := f.cnt + 1, mn := some (f.mn.elim v fun m => min m v)
      mx := some (f.mx.elim v fun m => max m v) }

def Frame.value (f : Frame) (fn : String) : JsValue :=
  if fn = "SUM" then .num f.sum
  else if fn = "COUNT" then .num f.cnt
  else if fn = "AVG" then if f.cnt = 0 then .null else .num (f.sum / f.cnt)
  else if fn = "MIN" then f.mn.elim .null .num
  else f.mx.elim .null .num

def runningFrom (spec : WindowSpec) : Frame → List SourceRow → List JsValue
  | _, [] => []
  | f, r :: part =>
    let f := f.add (argument parseFloat spec r)
    f.value spec.fn :: runningFrom spec f part

def runningValues (spec : WindowSpec) (part : List SourceRow) : List JsValue := runningFrom parseFloat spec {} part

def isRanking (fn : String) : Bool := fn ∈ ["RANK", "DENSE_RANK", "ROW_NUMBER", "PERCENT_RANK", "CUME_DIST"]

def isRunning (fn : String) : Bool := fn ∈ ["SUM", "AVG", "COUNT", "MIN", "MAX"]

/-- The values of a sorted partition, none for a function the fabric does not know. -/
def windowValues (spec : WindowSpec) (part : List SourceRow) : List JsValue :=
  if isRanking spec.fn then rankingValues spec part
  else if spec.fn ∈ ["LAG", "LEAD"] then navValues spec part
  else if isRunning spec.fn then runningValues parseFloat spec part
  else []

variable (lt : JsValue → JsValue → Bool)

/-- Rows with their places, one before the other in a sorted partition. -/
def Precedes (orderBy : List SortKey) (a b : SourceRow × ℕ) : Prop := comparator lt orderBy a.1 b.1 ≠ .gt

instance (orderBy : List SortKey) : DecidableRel (Precedes lt orderBy) := fun _ _ =>
  inferInstanceAs (Decidable (_ ≠ _))

/-- The sorted partition of a key, each row with its place among all rows. -/
def part (spec : WindowSpec) (rows : List SourceRow) (key : List JsValue) : List (SourceRow × ℕ) :=
  (rows.zipIdx.filter fun r => partitionKey r.1 spec.partitionBy = key).insertionSort (Precedes lt spec.orderBy)

def applyWindow (rows : List SourceRow) (spec : WindowSpec) : List SourceRow :=
  let keys := distinctKeys (rows.map fun r => partitionKey r spec.partitionBy)
  let values := keys.flatMap fun key =>
    let p := part lt spec rows key
    (p.map Prod.snd).zip (windowValues parseFloat spec (p.map Prod.fst))
  rows.zipIdx.map fun r =>
    match values.lookup r.2 with
    | some v => r.1.assign spec.aliasName v
    | none => r.1

def applyWindows (rows : List SourceRow) (specs : List WindowSpec) : List SourceRow :=
  specs.foldl (applyWindow parseFloat lt) rows

end

end DataFabric.Windows
