import DataFabric.SortedProjections
import DataFabric.Windows

set_option autoImplicit false

/-!
# Pages of window queries

A query with windows is fetched without them, with its WHERE, its OFFSET and its ORDER BY. The windows
are computed over what is fetched, and the rows are projected, sorted and cut in this order.
-/
namespace DataFabric.WindowPages
open CharText JsValues OrderedRecords FederatedJoins JoinedRecords Aggregates SetOperations AggregateQueries StableSorts
open SortedProjections Windows
open ProjectedLegs (inRowOrder)

structure WindowElement where
  fn : String
  column : String
  partitionBy : List String
  orderBy : List SortKey
  aliasName : String
  offset : Option ℤ

/-- An element of the select list; an expression with the names in its text and its value over a row. -/
inductive Element
  | text (s : String)
  | window (w : WindowElement)
  | expression (parts : List String) (value : SourceRow → JsValue) (aliasName : String)
  | column (column aliasName : String)
  | other

structure WindowQuery where
  select : List Element
  grouped : Bool
  orderBy : List SortKey
  queryLimit : Option ℕ
  configLimit : Option ℕ
  offset : ℕ

def WindowElement.spec (w : WindowElement) : WindowSpec where
  fn := upperCase w.fn
  column := baseColumn w.column
  partitionBy := w.partitionBy.map baseColumn
  orderBy := w.orderBy.map fun o => ⟨baseColumn o.column, o.descending⟩
  aliasName := if w.aliasName = "" then asciiLower w.fn else w.aliasName
  offset := w.offset

namespace Element

def isStar : Element → Bool
  | .text s => s = "*"
  | _ => false

def windowSpec : Element → Option WindowSpec
  | .window w => some w.spec
  | _ => none

def columns : Element → List String
  | .text s => [s]
  | .window w => (if w.column = "" then [] else [w.column]) ++ w.partitionBy ++ w.orderBy.map SortKey.column
  | .expression parts _ _ => parts
  | .column c _ => if c = "" then [] else [c]
  | .other => []

def output (element : Element) (row : SourceRow) : Option (String × JsValue) :=
  let named (name : String) := if name = "" then none else some (name, readCol row name)
  match element with
  | .text s => named (baseColumn s)
  | .window w => named w.aliasName
  | .expression _ value aliasName => if aliasName = "" then none else some (aliasName, value row)
  | .column c aliasName => named (if aliasName = "" then baseColumn c else aliasName)
  | .other => none

end Element

def projectRow (select : List Element) (row : SourceRow) : SourceRow :=
  if select.any Element.isStar then row else .ofEntries (select.filterMap fun element => element.output row)

def num : JsValue → Option ℚ
  | .num q => some q
  | .str s => signed (trim s).toList
  | _ => none

def cmp (lt : JsValue → JsValue → Bool) (a b : JsValue) : Ordering :=
  match num a, num b with
  | some x, some y => if x < y then .lt else if y < x then .gt else .eq
  | _, _ => if lt a b then .lt else if lt b a then .gt else .eq

def compareBy {α : Type*} (lt : JsValue → JsValue → Bool) (read : α → String → JsValue) :
    List SortKey → α → α → Ordering
  | [], _, _ => .eq
  | o :: orderBy, a, b =>
    match cmp lt (read a o.column) (read b o.column) with
    | .eq => compareBy lt read orderBy a b
    | c => if o.descending then c.swap else c

theorem compareBy_congr {α β : Type*} {lt : JsValue → JsValue → Bool} {read : α → String → JsValue}
    {read' : β → String → JsValue} {orderBy : List SortKey} {a b : α} {a' b' : β}
    (ha : ∀ o ∈ orderBy, read a o.column = read' a' o.column)
    (hb : ∀ o ∈ orderBy, read b o.column = read' b' o.column) :
    compareBy lt read orderBy a b = compareBy lt read' orderBy a' b' := by
  induction orderBy with
  | nil => rfl
  | cons o orderBy ih =>
    unfold compareBy
    rw [ha o List.mem_cons_self, hb o List.mem_cons_self, ih (fun p hp => ha p (List.mem_cons_of_mem _ hp))
      fun p hp => hb p (List.mem_cons_of_mem _ hp)]

structure Source where
  sort : List SortKey → List SourceRow → List SourceRow
  sort_perm : ∀ orderBy rows, (sort orderBy rows).Perm rows
  projection : Projection

namespace WindowQuery

variable (q : WindowQuery) (eng : Engine) (s : Source) (cap : ℕ) (rows : List SourceRow)

def windows : List WindowSpec := q.select.filterMap Element.windowSpec

def aliases : List String := q.windows.map WindowSpec.aliasName

/-- Groups come as they are, rows with the columns of the select list and of the windows. -/
def fetched (row : SourceRow) : SourceRow :=
  let cols := (q.select.flatMap Element.columns).eraseDups.map baseColumn
  if q.grouped ∨ q.select.any Element.isStar ∨ cols = [] then row else s.projection.project cols row

def carriedLimit : Option ℕ := q.queryLimit.or (q.configLimit.filter (0 < ·))

def baseLimit : ℕ := if q.grouped then q.carriedLimit.getD cap else cap

def baseOrder : List SortKey := q.orderBy.filter fun o => o.column ∉ q.aliases

def arranged : List SourceRow := s.sort q.baseOrder rows

def baseRows : List SourceRow := ((q.arranged s rows).drop q.offset).take (q.baseLimit cap)

def windowed (base : List SourceRow) : List SourceRow :=
  applyWindows eng.parseFloat eng.lt (base.map (q.fetched s)) q.windows

def ShownBefore (a b : SourceRow) : Prop := compareBy eng.lt column q.orderBy a b ≠ .gt

instance : DecidableRel (q.ShownBefore eng) := fun _ _ => inferInstanceAs (Decidable (_ ≠ _))

def execute : List SourceRow :=
  let projected := (q.windowed eng s (q.baseRows s cap rows)).map (projectRow q.select)
  let sorted := if q.orderBy = [] then projected else projected.insertionSort (q.ShownBefore eng)
  match q.configLimit.filter (0 < ·) with
  | some n => sorted.take n
  | none => sorted

def requestedLimit : Option ℕ := q.queryLimit.or q.configLimit

def annotated (all : List SourceRow) : List (SourceRow × SourceRow) := all.zip (q.windowed eng s all)

def orderValue (p : SourceRow × SourceRow) (name : String) : JsValue :=
  if name ∈ q.aliases then column p.2 name else readCol p.1 name

def RowBefore (a b : SourceRow × SourceRow) : Prop := compareBy eng.lt q.orderValue q.orderBy a b ≠ .gt

instance : DecidableRel (q.RowBefore eng) := fun _ _ => inferInstanceAs (Decidable (_ ≠ _))

/-- The windows of all rows, then ORDER BY, then the page, then the select list. -/
def Paginates : Prop := ∃ all sorted, all.Perm rows ∧ sorted.Perm (q.annotated eng s all) ∧
  sorted.Pairwise (q.RowBefore eng) ∧
    q.execute eng s cap rows = (cut q.requestedLimit (some q.offset) sorted).map fun p => projectRow q.select p.2

def PairBefore (a b : SourceRow × SourceRow) : Prop :=
  q.ShownBefore eng (projectRow q.select a.2) (projectRow q.select b.2)

instance : DecidableRel (q.PairBefore eng) := fun _ _ => inferInstanceAs (Decidable (ShownBefore ..))

/-- Rows of the base query whose values can be compared, as they are and as they are shown. -/
structure Rows where
  rows : List SourceRow
  joined : Comparable (q.RowBefore eng) (q.annotated eng s (q.arranged s rows))
  shown : Comparable (q.PairBefore eng) (q.annotated eng s (q.arranged s rows))

def left (limit : Option ℕ) (n : ℕ) : ℕ := limit.elim n (min · n)

/-- No rows are skipped before the windows or dropped under them, the LIMIT that cuts is the one that is asked
for, and rows may be shown in an order only if they may stand in it, unless they are shown alike. -/
structure Whole (rows : List SourceRow) : Prop where
  offset : q.offset = 0
  fetched : rows.length ≤ q.baseLimit cap
  limit : left (q.configLimit.filter (0 < ·)) rows.length = left q.requestedLimit rows.length
  ordered : ∀ a ∈ q.annotated eng s (q.arranged s rows), ∀ b ∈ q.annotated eng s (q.arranged s rows),
    q.PairBefore eng a b → q.RowBefore eng a b ∨ projectRow q.select a.2 = projectRow q.select b.2

def HoldsWhen (rows : List SourceRow) : Prop := rows.length ≤ q.offset ∨ q.Whole eng s cap rows

variable {q eng s cap rows}

theorem applyWindows_length (base : List SourceRow) (specs : List WindowSpec) :
    (applyWindows eng.parseFloat eng.lt base specs).length = base.length := by
  unfold applyWindows
  induction specs generalizing base with
  | nil => rfl
  | cons spec specs ih =>
    rw [List.foldl_cons, ih]
    unfold applyWindow
    rw [List.length_map, List.length_zipIdx]

theorem windowed_length (base : List SourceRow) : (q.windowed eng s base).length = base.length := by
  unfold windowed
  rw [applyWindows_length, List.length_map]

theorem annotated_snd (all : List SourceRow) : (q.annotated eng s all).map Prod.snd = q.windowed eng s all :=
  List.map_snd_zip (windowed_length all).le

theorem annotated_length (all : List SourceRow) : (q.annotated eng s all).length = all.length := by
  unfold annotated
  rw [List.length_zip, windowed_length, min_self]

theorem arranged_length : (q.arranged s rows).length = rows.length := (s.sort_perm _ _).length_eq

theorem execute_eq : q.execute eng s cap rows =
    cut (q.configLimit.filter (0 < ·)) none (((q.windowed eng s (q.baseRows s cap rows)).map
      (projectRow q.select)).insertionSort (q.ShownBefore eng)) := by
  have hsorted : ∀ projected : List SourceRow, (if q.orderBy = [] then projected
      else projected.insertionSort (q.ShownBefore eng)) = projected.insertionSort (q.ShownBefore eng) := by
    intro projected
    split
    · rename_i hnil
      apply (List.Pairwise.insertionSort_eq _).symm
      apply List.pairwise_of_forall
      intro a b
      unfold ShownBefore
      rw [hnil]
      exact nofun
    · rfl
  unfold execute
  dsimp only
  rw [hsorted]
  rfl

theorem cut_eq {α : Type*} {limit limit' : Option ℕ} {xs : List α} (h : left limit xs.length = left limit' xs.length) :
    cut limit none xs = cut limit' none xs := by
  have htake : ∀ limit : Option ℕ, cut limit none xs = xs.take (left limit xs.length) := by
    intro limit
    cases limit with
    | none => exact (List.take_length (l := xs)).symm
    | some n => exact List.take_eq_take_min
  rw [htake, htake, h]

theorem cut_skipped {α : Type*} {limit : Option ℕ} {offset : ℕ} {xs : List α} (h : xs.length ≤ offset) :
    cut limit (some offset) xs = [] := by
  unfold SortedProjections.cut
  cases limit with
  | none => exact List.drop_of_length_le h
  | some n =>
    change (xs.drop offset).take n = []
    rw [List.drop_of_length_le h, List.take_nil]

theorem before_of_shown {a b : SourceRow × SourceRow}
    (ha : ∀ o ∈ q.orderBy, column (projectRow q.select a.2) o.column = q.orderValue a o.column)
    (hb : ∀ o ∈ q.orderBy, column (projectRow q.select b.2) o.column = q.orderValue b o.column)
    (h : q.PairBefore eng a b) : q.RowBefore eng a b := by
  unfold PairBefore ShownBefore at h
  rwa [compareBy_congr ha hb] at h

end WindowQuery

/-- `SELECT id, ROW_NUMBER() OVER (ORDER BY id) AS rn FROM t ORDER BY id` with a LIMIT of 1 beside it -/
def numbered (offset : ℕ) : WindowQuery where
  select := [.column "id" "", .window ⟨"ROW_NUMBER", "", [], [⟨"id", false⟩], "rn", none⟩]
  grouped := false
  orderBy := [⟨"id", false⟩]
  queryLimit := none
  configLimit := some 1
  offset := offset

def inOrder : Source where
  sort _ rows := rows
  sort_perm _ rows := List.Perm.refl rows
  projection := inRowOrder

def oneThenTwo : List SourceRow := [.ofEntries [("id", .num 1)], .ofEntries [("id", .num 2)]]

def twoRows (offset : ℕ) : (numbered offset).Rows plainEngine inOrder where
  rows := oneThenTwo
  joined := by
    have h : Comparable ((numbered 0).RowBefore plainEngine) ((numbered 0).annotated plainEngine inOrder oneThenTwo) :=
      ⟨by decide +kernel, by decide +kernel⟩
    exact h
  shown := by
    have h : Comparable ((numbered 0).PairBefore plainEngine) ((numbered 0).annotated plainEngine inOrder oneThenTwo) :=
      ⟨by decide +kernel, by decide +kernel⟩
    exact h

end DataFabric.WindowPages
