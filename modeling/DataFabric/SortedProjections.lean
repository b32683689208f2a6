import DataFabric.ProjectedLegs
import Mathlib.Data.List.Permutation

set_option autoImplicit false

/-!
# Joins projected before they are sorted

The joined rows are projected, the projected rows are sorted and the window is cut out last.
-/
namespace DataFabric.SortedProjections
open JsValues OrderedRecords FederatedJoins SetOperations AggregateQueries StableSorts ProjectedLegs

section

variable {α β : Type*} {r : α → α → Prop} [DecidableRel r] {f : α → β} {a : α} {xs : List α}

theorem map_orderedInsert (h : ∀ b ∈ xs, r a b ∨ f a = f b) : (xs.orderedInsert r a).map f = f a :: xs.map f := by
  induction xs with
  | nil => rfl
  | cons b xs ih =>
    by_cases hab : r a b
    · rw [List.orderedInsert_cons_of_le r xs hab, List.map_cons]
    · have halike := (h b List.mem_cons_self).resolve_left hab
      rw [List.orderedInsert_of_not_le r xs hab, List.map_cons, ih fun c hc => h c (List.mem_cons_of_mem _ hc),
        List.map_cons, halike]

theorem map_insertionSort_alike (h : xs.Pairwise fun a b => r a b ∨ f a = f b) :
    (xs.insertionSort r).map f = xs.map f := by
  induction xs with
  | nil => rfl
  | cons a xs ih =>
    rw [List.pairwise_cons] at h
    have hinsert : ∀ b ∈ xs.insertionSort r, r a b ∨ f a = f b := fun b hb => h.1 b ((List.mem_insertionSort r).mp hb)
    rw [List.insertionSort_cons, map_orderedInsert hinsert, ih h.2, List.map_cons]

def cut (limit offset : Option ℕ) (rows : List α) : List α :=
  match limit with
  | some n => (rows.drop (offset.getD 0)).take n
  | none => rows.drop (offset.getD 0)

theorem cut_map (limit offset : Option ℕ) : cut limit offset (xs.map f) = (cut limit offset xs).map f := by
  unfold cut
  cases limit with
  | none => exact List.map_drop.symm
  | some n =>
    change ((xs.map f).drop _).take n = ((xs.drop _).take n).map f
    rw [List.map_take, List.map_drop]

end

structure PlainJoin where
  query : Query
  plain : query.plan = none
  all : query.distinct = false

def shown (select : List SelectEntry) (row : SourceRow) : SourceRow :=
  if select = [] ∨ .text "*" ∈ select ∨ specs select = [] then row else (specs select).foldl (pickColumn row) .empty

variable (v : Evaluation) (j : PlainJoin)

def Joined : SourceRow → SourceRow → Prop := Before v.engine j.query.window.orderBy

def Shown (a b : SourceRow) : Prop :=
  Before v.engine j.query.window.orderBy (shown j.query.select a) (shown j.query.select b)

instance : DecidableRel (Joined v j) := fun _ _ => inferInstanceAs (Decidable (Before ..))

instance : DecidableRel (Shown v j) := fun _ _ => inferInstanceAs (Decidable (Before ..))

/-- Joined rows whose values can be compared, as they are and as they are shown. -/
structure JoinedRows where
  rows : Set SourceRow
  joined : ∀ xs : List SourceRow, (∀ row ∈ xs, row ∈ rows) → Comparable (Joined v j) xs
  shown : ∀ xs : List SourceRow, (∀ row ∈ xs, row ∈ rows) → Comparable (Shown v j) xs

def answer (limit offset : Option ℕ) (joined : List SourceRow) : List SourceRow :=
  applyOrderLimit v.engine.language ⟨j.query.window.orderBy, limit, offset⟩ (j.query.combine v joined)

/-- The window of the joined rows in the order of the query, then projected. -/
def SortsFirst (rows : Set SourceRow) : Prop :=
  ∀ (joined : List SourceRow) (limit offset : Option ℕ), (∀ row ∈ joined, row ∈ rows) →
    ∃ sorted : List SourceRow, sorted.Perm joined ∧ sorted.Pairwise (Joined v j) ∧
      answer v j limit offset joined = applyProjection (cut limit offset sorted) j.query.select

/-- Rows that may be shown in an order may be joined in this order, unless they are shown alike. -/
def HoldsWhen (rows : Set SourceRow) : Prop :=
  ∀ a ∈ rows, ∀ b ∈ rows, Shown v j a b → Joined v j a b ∨ shown j.query.select a = shown j.query.select b

variable {v j}

theorem applyProjection_eq (rows : List SourceRow) (select : List SelectEntry) :
    applyProjection rows select = rows.map (shown select) := by
  unfold applyProjection shown
  split
  · exact (List.map_id rows).symm
  · rfl

theorem applyOrderLimit_eq (w : Window) (rows : List SourceRow) :
    applyOrderLimit v.engine.language w rows = cut w.limit w.offset (rows.insertionSort (Before v.engine w.orderBy)) := by
  have hsorted : (if w.orderBy = [] then rows else v.engine.language.sort w.orderBy rows) =
      rows.insertionSort (Before v.engine w.orderBy) := by
    split
    · rename_i hnil
      rw [hnil]
      apply (List.Pairwise.insertionSort_eq _).symm
      exact List.pairwise_of_forall fun _ _ => nofun
    · rfl
  unfold applyOrderLimit
  rw [hsorted]
  rfl

theorem answer_eq (limit offset : Option ℕ) (joined : List SourceRow) :
    answer v j limit offset joined =
      (cut limit offset (joined.insertionSort (Shown v j))).map (shown j.query.select) := by
  have hcombine : j.query.combine v joined = joined.map (shown j.query.select) := by
    unfold Query.combine
    rw [j.plain, j.all, ← applyProjection_eq]
    rfl
  unfold answer
  rw [hcombine, applyOrderLimit_eq, ← cut_map]
  have hmap := List.map_insertionSort (Shown v j) (Before v.engine j.query.window.orderBy) (shown j.query.select) joined
    fun _ _ _ _ => Iff.rfl
  rw [hmap]

theorem result_eq (x : JoinedRecords.Context) (P : JoinedRecords.Projection) (select : JoinedRecords.LegColumns)
    (h : j.query.having = []) :
    j.query.result v x P select = answer v j j.query.window.limit j.query.window.offset
      ((x.executeLegs P select (x.arranged j.query.fromAlias j.query.joins).1
        (x.arranged j.query.fromAlias j.query.joins).2).filter (j.query.passes v x)) := by
  unfold Query.result applyHaving
  rw [h]
  exact List.filter_eq_self.mpr fun _ _ => rfl

/-- A join is projected as if it were sorted first, if and only if its rows are sorted by what is shown of them. -/
theorem sorted_first_iff (u : JoinedRows v j) : SortsFirst v j u.rows ↔ HoldsWhen v j u.rows := by
  constructor
  · intro h a ha b hb hshown
    have hmem : ∀ row ∈ [a, b], row ∈ u.rows := by
      intro row hrow
      rcases List.mem_cons.mp hrow with rfl | hrow
      · exact ha
      · exact List.mem_singleton.mp hrow ▸ hb
    have ⟨sorted, hperm, hsorted, hanswer⟩ := h [a, b] none none hmem
    have hkept : [a, b].insertionSort (Shown v j) = [a, b] :=
      List.Pairwise.insertionSort_eq (List.pairwise_pair.mpr hshown)
    rw [answer_eq, hkept, applyProjection_eq] at hanswer
    change [a, b].map _ = sorted.map _ at hanswer
    rcases List.perm_pair.mp hperm with rfl | rfl
    · exact .inl (List.pairwise_pair.mp hsorted)
    · exact .inr (List.cons.inj hanswer).1
  · intro h joined limit offset hmem
    have hshown := pairwise_insertionSort (u.shown joined hmem)
    have hmem' : ∀ row ∈ joined.insertionSort (Shown v j), row ∈ u.rows := fun row hrow =>
      hmem row ((List.mem_insertionSort _).mp hrow)
    have halike : (joined.insertionSort (Shown v j)).Pairwise fun a b =>
        Joined v j a b ∨ shown j.query.select a = shown j.query.select b :=
      hshown.imp_of_mem fun ha hb hab => h _ (hmem' _ ha) _ (hmem' _ hb) hab
    refine ⟨(joined.insertionSort (Shown v j)).insertionSort (Joined v j), ?_, ?_, ?_⟩
    · exact (List.perm_insertionSort _ _).trans (List.perm_insertionSort _ _)
    · exact pairwise_insertionSort (u.joined _ hmem')
    · rw [answer_eq, applyProjection_eq, ← cut_map, ← cut_map, map_insertionSort_alike halike]

section

variable {row out : SourceRow} {select : List SelectEntry} {s c : String} {value : JsValue}

theorem pickColumn_keeps (hrow : row.get? c = some value) (hout : out.get? c = some value) :
    (pickColumn row out s).get? c = some value := by
  unfold pickColumn
  split
  · rename_i w hw
    rw [Record.get?_assign]
    split
    · rename_i hsame
      rw [← hrow, hsame, hw]
    · exact hout
  · rename_i hnone
    have hne : c ≠ s := by
      rintro rfl
      rw [hnone] at hrow
      cases hrow
    split
    · split
      · exact hout
      · rw [Record.get?_assign, if_neg hne]
        exact hout
    · exact hout

theorem foldl_keeps (hrow : row.get? c = some value) {names : List String} (hout : out.get? c = some value) :
    (names.foldl (pickColumn row) out).get? c = some value := by
  induction names generalizing out with
  | nil => exact hout
  | cons s names ih => exact ih (pickColumn_keeps hrow hout)

theorem foldl_picked (hrow : row.get? c = some value) {names : List String} (hc : c ∈ names) :
    (names.foldl (pickColumn row) out).get? c = some value := by
  induction names generalizing out with
  | nil => cases hc
  | cons s names ih =>
    rw [List.foldl_cons]
    by_cases hs : c = s
    · apply foldl_keeps hrow
      unfold pickColumn
      rw [← hs, hrow]
      exact (Record.get?_assign ..).trans (if_pos rfl)
    · exact ih ((List.mem_cons.mp hc).resolve_left hs)

theorem shown_selected (hc : c ∈ specs select) (hrow : row.get? c = some value) :
    (shown select row).get? c = some value := by
  unfold shown
  split
  · exact hrow
  · exact foldl_picked hrow hc

end

theorem selected_holds (rows : Set SourceRow) (h : ∀ row ∈ rows, ∀ o ∈ j.query.window.orderBy,
    o.column ∈ specs j.query.select ∧ ∃ value, row.get? o.column = some value) : HoldsWhen v j rows := by
  have hread : ∀ row ∈ rows, ∀ o ∈ j.query.window.orderBy,
      readRow (shown j.query.select row) o.column = readRow row o.column := by
    intro row hrow o ho
    have ⟨hmem, value, hvalue⟩ := h row hrow o ho
    unfold readRow
    rw [shown_selected hmem hvalue, hvalue]
  intro a ha b hb hshown
  left
  unfold Shown Before at hshown
  unfold Joined Before
  have hcompare : ∀ orderBy : List SortKey, (∀ o ∈ orderBy, o ∈ j.query.window.orderBy) →
      compareRows v.engine orderBy (shown j.query.select a) (shown j.query.select b) =
        compareRows v.engine orderBy a b := by
    intro orderBy
    induction orderBy with
    | nil => exact fun _ => rfl
    | cons o orderBy ih =>
      intro hsub
      unfold compareRows
      rw [hread a ha o (hsub o List.mem_cons_self), hread b hb o (hsub o List.mem_cons_self),
        ih fun p hp => hsub p (List.mem_cons_of_mem _ hp)]
  rwa [hcompare _ fun _ ho => ho] at hshown

/-- `SELECT c.name FROM orders o JOIN customers c ON o.customer = c.id ORDER BY o.total` -/
def namesByTotal : PlainJoin where
  query :=
    { fromAlias := "o"
      joins := [⟨"c", "INNER", ⟨"o.customer", "c.id"⟩, "EQ"⟩]
      select := [.text "c.name"]
      conditions := []
      groupBy := []
      having := []
      window := ⟨[⟨"o.total", false⟩], none, none⟩
      distinct := false
      aliased := by decide }
  plain := by decide
  all := rfl

def annThenBob : List SourceRow :=
  [.ofEntries [("o.total", .num 2), ("c.name", .str "ann")], .ofEntries [("o.total", .num 1), ("c.name", .str "bob")]]

def twoOrders : JoinedRows plainEvaluation namesByTotal where
  rows := {row | row ∈ annThenBob}
  joined xs h := by
    have hall : Comparable (Joined plainEvaluation namesByTotal) annThenBob := ⟨by decide, by decide⟩
    exact hall.subset h
  shown xs h := by
    have hall : Comparable (Shown plainEvaluation namesByTotal) annThenBob := ⟨by decide, by decide⟩
    exact hall.subset h

/-- The first of the joined rows is answered, whatever its total. -/
theorem first_not_least : ¬ ∀ (v : Evaluation) (j : PlainJoin) (u : JoinedRows v j), SortsFirst v j u.rows := by
  intro h
  have ⟨sorted, hperm, hsorted, hanswer⟩ := h plainEvaluation namesByTotal twoOrders annThenBob (some 1) none fun _ => id
  rcases List.perm_pair.mp hperm with rfl | rfl
  · have hpair := List.pairwise_pair.mp hsorted
    revert hpair
    decide
  · revert hanswer
    decide

end DataFabric.SortedProjections
