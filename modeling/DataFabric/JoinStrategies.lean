import DataFabric.JoinReordering

set_option autoImplicit false

/-!
# Two ways to execute an equijoin

Both legs fetched whole, or the right one by the keys of the left one. Every fetch
and the joined rows are cut at the row cap.
-/
namespace DataFabric.JoinStrategies
open CharText JsValues KeyedJoins OrderedRecords FederatedJoins JoinReordering

inductive JoinType
  | inner | left
  deriving DecidableEq, Repr

/-- `left JOIN right ON left.column = right.other`, or with the two columns in the other order. -/
structure Equijoin where
  left : String
  column : String
  right : String
  other : String
  reversed : Bool
  type : JoinType
  distinct : DistinctAliases [left, right]
  plain : '.' ∉ column.toList ∧ '.' ∉ other.toList

namespace Equijoin

variable (j : Equijoin)

def on : JoinOn :=
  if j.reversed then ⟨columnPath j.right j.other, columnPath j.left j.column⟩
  else ⟨columnPath j.left j.column, columnPath j.right j.other⟩

def keepUnmatchedLeft : Bool := j.type = .left

def merged : JoinedRow × Option JoinedRow → JoinedRow
  | (l, some r) => mergeRow l r
  | (l, none) => l

def mergeJoin (left right : List JoinedRow) : List JoinedRow :=
  (outerPairs j.keepUnmatchedLeft (matchesOn j.on) left right).map merged

def broadcastJoin (cap : ℕ) (left right : List SourceRow) : List JoinedRow :=
  j.mergeJoin ((left.take cap).map (qualify j.left)) ((right.take cap).map (qualify j.right))

def fetchBatch (s : JoinSettings) (cap : ℕ) (right : List SourceRow) (keys : List JsValue) : List SourceRow :=
  (right.filter fun r => s.sourceIn (FederatedJoins.column r (baseColumn j.on.right)) keys).take cap

/-- A window of the left leg joined; without keys the right leg is not fetched. -/
def joinChunk (s : JoinSettings) (cap : ℕ) (right : List SourceRow) (window : List SourceRow) : List JoinedRow :=
  let acc := window.map (qualify j.left)
  let keys := bindKeys acc j.on
  let fetched := if keys = [] then [] else (chunk s.bindMax keys).flatMap (j.fetchBatch s cap right)
  j.mergeJoin acc (fetched.map (qualify j.right))

/-- The windows one after the other; the cap ends the join after a full one and cuts the last one. -/
def joinWindows (s : JoinSettings) (cap : ℕ) (right : List SourceRow) (acc : List JoinedRow) :
    List (List SourceRow) → List JoinedRow
  | [] => acc
  | w :: ws =>
    let joined := acc ++ j.joinChunk s cap right w
    if w.length < windowSize then if acc.length < cap then joined.take cap else acc
    else if cap ≤ joined.length then joined
    else joinWindows s cap right joined ws

def bindJoin (s : JoinSettings) (cap : ℕ) (left right : List SourceRow) : List JoinedRow :=
  j.joinWindows s cap right [] (chunk windowSize left)

/-- The equality of SQL: a missing value equals nothing, a value itself. Of values of different
types, and of documents, it may find more equal than one value of a `Map` key. -/
structure SqlEquality (eq : JsValue → JsValue → Bool) : Prop where
  present : ∀ v w, eq v w = true → v.isNullish = false ∧ w.isNullish = false
  same : ∀ p, (JsValue.prim p).isNullish = false → eq (.prim p) (.prim p) = true

def sqlMatches (eq : JsValue → JsValue → Bool) (l r : SourceRow) : Bool :=
  eq (FederatedJoins.column l j.column) (FederatedJoins.column r j.other)

/-- A row without a partner has no columns of the right leg. -/
def sqlJoin (eq : JsValue → JsValue → Bool) (left right : List SourceRow) : List JoinedRow :=
  (outerPairs j.keepUnmatchedLeft (j.sqlMatches eq) left right).map fun p =>
    merged (qualify j.left p.1, p.2.map (qualify j.right))

/-- Each way the join can be executed gives the rows of the SQL join; only an INNER join is broadcast. -/
def Agrees (eq : JsValue → JsValue → Bool) (s : JoinSettings) (cap : ℕ) (left right : List SourceRow) : Prop :=
  (j.type = .inner → (j.broadcastJoin cap left right).Perm (j.sqlJoin eq left right)) ∧
    (j.bindJoin s cap left right).Perm (j.sqlJoin eq left right)

/-- The value the merge reads as the key of a left row: none when the ON names the right column first. -/
def leftKey (l : SourceRow) : JsValue := if j.reversed then .undefined else FederatedJoins.column l j.column

def rightKey (r : SourceRow) : JsValue := if j.reversed then .undefined else FederatedJoins.column r j.other

def linked (l r : SourceRow) : Bool := sameKey (j.leftKey l) (j.rightKey r) && !(j.leftKey l).isNullish

/-- The keys of rows that SQL joins are read as one present value; and where the join may be broadcast
no two rows have the same null or missing key. -/
structure HoldsWhen (eq : JsValue → JsValue → Bool) (left right : List SourceRow) : Prop where
  same : ∀ l ∈ left, ∀ r ∈ right, j.sqlMatches eq l r = true → j.linked l r = true
  present : j.type = .inner → ∀ l ∈ left, ∀ r ∈ right, (j.leftKey l).isNullish = true →
    sameKey (j.leftKey l) (j.rightKey r) = false

structure Within (eq : JsValue → JsValue → Bool) (cap : ℕ) (left right : List SourceRow) : Prop where
  left_rows : left.length ≤ cap
  right_rows : right.length ≤ cap
  joined : (j.sqlJoin eq left right).length ≤ cap

section

variable {j : Equijoin} {eq : JsValue → JsValue → Bool} {s : JoinSettings} {cap : ℕ}
  {left right : List SourceRow}

theorem on_forward (h : j.reversed = false) : j.on = ⟨columnPath j.left j.column, columnPath j.right j.other⟩ := by
  unfold on
  rw [h, if_neg Bool.false_ne_true]

theorem on_reversed (h : j.reversed = true) : j.on = ⟨columnPath j.right j.other, columnPath j.left j.column⟩ := by
  unfold on
  rw [if_pos h]

theorem aliases_ne : j.left ≠ j.right := by
  intro heq
  have hnodup := j.distinct.nodup
  rw [heq] at hnodup
  simp at hnodup

theorem left_lacks (l : SourceRow) : qualify j.left l (columnPath j.right j.other) = none := by
  refine over_none j.distinct ?_ ?_ ?_ (over_qualify j.left l)
  · simp
  · simp
  · simp [aliases_ne.symm]

theorem right_lacks (r : SourceRow) : qualify j.right r (columnPath j.left j.column) = none := by
  refine over_none j.distinct ?_ ?_ ?_ (over_qualify j.right r)
  · simp
  · simp
  · simp [aliases_ne]

theorem read_left (l : SourceRow) : (qualify j.left l).read j.on.left = j.leftKey l := by
  unfold leftKey
  cases hrev : j.reversed with
  | true =>
    rw [on_reversed hrev, JoinedRow.read, left_lacks]
    rfl
  | false =>
    rw [on_forward hrev, read_qualify]
    rfl

theorem read_right (r : SourceRow) : (qualify j.right r).read j.on.right = j.rightKey r := by
  unfold rightKey
  cases hrev : j.reversed with
  | true =>
    rw [on_reversed hrev, JoinedRow.read, right_lacks]
    rfl
  | false =>
    rw [on_forward hrev, read_qualify]
    rfl

theorem matchesOn_qualified (l r : SourceRow) :
    matchesOn j.on (qualify j.left l) (qualify j.right r) = sameKey (j.leftKey l) (j.rightKey r) := by
  unfold matchesOn
  rw [read_left, read_right]

theorem readColumn_left (l : SourceRow) :
    readColumn (qualify j.left l) j.on.left = (qualify j.left l).read j.on.left := by
  cases hrev : j.reversed with
  | true =>
    rw [on_reversed hrev]
    exact readColumn_path (over_qualify j.left l) j.plain.2
  | false =>
    rw [on_forward hrev]
    exact readColumn_path (over_qualify j.left l) j.plain.1

theorem linkedOn_qualified (l r : SourceRow) :
    linkedOn j.on (qualify j.left l) (qualify j.right r) = j.linked l r := by
  unfold linkedOn linked
  rw [matchesOn_qualified, read_left]

theorem linked_reversed (h : j.reversed = true) (l r : SourceRow) : j.linked l r = false := by
  unfold linked leftKey
  rw [if_pos h]
  exact Bool.and_false _

theorem linked_matches (he : SqlEquality eq) {l r : SourceRow} (h : j.linked l r = true) :
    j.sqlMatches eq l r = true := by
  cases hrev : j.reversed with
  | true =>
    rw [linked_reversed hrev] at h
    cases h
  | false =>
    unfold linked leftKey rightKey at h
    rw [hrev, if_neg Bool.false_ne_true, if_neg Bool.false_ne_true, Bool.and_eq_true] at h
    obtain ⟨p, hl, hr⟩ := sameKey_eq h.1
    have hpresent : (JsValue.prim p).isNullish = false := by
      rw [← hl]
      exact Bool.not_eq_true' _ |>.mp h.2
    unfold sqlMatches
    rw [hl, hr]
    exact he.same p hpresent

def joinRows (j : Equijoin) (rel : SourceRow → SourceRow → Bool) (left right : List SourceRow) : List JoinedRow :=
  (outerPairs j.keepUnmatchedLeft rel left right).map fun p =>
    merged (qualify j.left p.1, p.2.map (qualify j.right))

theorem partners_map (keep : Bool) (l : SourceRow) (ms : List SourceRow) :
    (partners keep (qualify j.left l) (ms.map (qualify j.right))).map merged =
      (partners keep l ms).map fun p => merged (qualify j.left p.1, p.2.map (qualify j.right)) := by
  cases ms with
  | nil => cases keep <;> rfl
  | cons r ms => simp [partners, List.map_map, Function.comp_def]

theorem mergeJoin_eq {rel : SourceRow → SourceRow → Bool} {rows : List SourceRow} (window : List SourceRow)
    (h : ∀ l ∈ window, (rows.filter fun r => matchesOn j.on (qualify j.left l) (qualify j.right r)) =
      right.filter (rel l)) :
    j.mergeJoin (window.map (qualify j.left)) (rows.map (qualify j.right)) = j.joinRows rel window right := by
  unfold mergeJoin joinRows
  induction window with
  | nil => rfl
  | cons l ls ih =>
    have htail := ih fun m hm => h m (List.mem_cons_of_mem _ hm)
    rw [List.map_cons, outerPairs_cons, outerPairs_cons, List.map_append, List.map_append, htail]
    congr 1
    rw [List.filter_map]
    change (partners _ _ ((rows.filter fun r => matchesOn j.on (qualify j.left l) (qualify j.right r)).map _)).map _ = _
    rw [h l List.mem_cons_self]
    exact partners_map _ l _

theorem broadcastJoin_eq (hl : left.length ≤ cap) (hr : right.length ≤ cap) :
    j.broadcastJoin cap left right = j.joinRows (fun l r => sameKey (j.leftKey l) (j.rightKey r)) left right := by
  unfold broadcastJoin
  rw [List.take_of_length_le hl, List.take_of_length_le hr]
  refine mergeJoin_eq left fun l _ => ?_
  exact List.filter_congr fun r _ => matchesOn_qualified l r

theorem bindKeys_reversed (h : j.reversed = true) (window : List SourceRow) :
    bindKeys (window.map (qualify j.left)) j.on = [] := by
  refine List.eq_nil_iff_forall_not_mem.mpr fun v hv => ?_
  obtain ⟨⟨row, hrow, hread⟩, hpresent⟩ := mem_bindKeys.mp hv
  obtain ⟨l, _, rfl⟩ := List.mem_map.mp hrow
  rw [readColumn_left, read_left, leftKey, if_pos h] at hread
  rw [← hread] at hpresent
  cases hpresent

theorem joinChunk_eq (hs : ReadsIn s.sourceIn) (hr : right.length ≤ cap) (window : List SourceRow) :
    j.joinChunk s cap right window = j.joinRows j.linked window right := by
  unfold joinChunk
  refine mergeJoin_eq window fun l hl => ?_
  have hbatch : j.fetchBatch s cap right =
      fun keys => right.filter fun r => s.sourceIn (FederatedJoins.column r (baseColumn j.on.right)) keys := by
    funext keys
    unfold fetchBatch
    exact List.take_of_length_le ((List.length_filter_le _ _).trans hr)
  have hlinked : (right.filter (j.linked l)) =
      right.filter fun r => linkedOn j.on (qualify j.left l) (qualify j.right r) :=
    List.filter_congr fun r _ => (linkedOn_qualified l r).symm
  rw [hlinked]
  cases hrev : j.reversed with
  | true =>
    rw [if_pos (bindKeys_reversed hrev window), List.filter_nil]
    symm
    rw [List.filter_eq_nil_iff]
    intro r _
    rw [linkedOn_qualified, linked_reversed hrev]
    exact Bool.false_ne_true
  | false =>
    have hon : j.on.right = columnPath j.right j.other := by
      rw [on_forward hrev]
    have hbase : baseColumn j.on.right = j.other := by
      rw [hon]
      exact baseColumn_path j.plain.2
    have hmem : qualify j.left l ∈ window.map (qualify j.left) := List.mem_map_of_mem hl
    rw [← filter_fetched hs hon right hmem]
    unfold fetchBound
    rw [hbatch, hbase]
    by_cases hkeys : bindKeys (window.map (qualify j.left)) j.on = []
    · rw [if_pos hkeys, hkeys]
      rfl
    · rw [if_neg hkeys]

theorem joinRows_append (rel : SourceRow → SourceRow → Bool) (ls ls' : List SourceRow) :
    j.joinRows rel (ls ++ ls') right = j.joinRows rel ls right ++ j.joinRows rel ls' right := by
  unfold joinRows
  rw [outerPairs_append, List.map_append]

theorem slices_short {α : Type} {size fuel : ℕ} {xs : List α} {w : List α} {ws : List (List α)}
    (h : slices size fuel xs = w :: ws) (hw : w.length < size) : ws = [] := by
  cases fuel with
  | zero => cases h
  | succ fuel =>
    cases xs with
    | nil => cases h
    | cons x xs =>
      rw [slices] at h
      obtain ⟨rfl, rfl⟩ := List.cons.inj h
      have hdrop : (x :: xs).drop size = [] := by
        rw [List.length_take] at hw
        refine List.drop_eq_nil_of_le ?_
        omega
      rw [hdrop]
      cases fuel <;> rfl

theorem slices_tail {α : Type} {size fuel : ℕ} {xs : List α} {w : List α} {ws : List (List α)}
    (h : slices size fuel xs = w :: ws) : ∃ fuel' ys, ws = slices size fuel' ys := by
  cases fuel with
  | zero => cases h
  | succ fuel =>
    cases xs with
    | nil => cases h
    | cons x xs =>
      rw [slices] at h
      exact ⟨fuel, _, (List.cons.inj h).2.symm⟩

theorem joinWindows_eq (fuel : ℕ) (xs : List SourceRow) (acc : List JoinedRow)
    (hcap : (acc ++ (slices windowSize fuel xs).flatMap (j.joinChunk s cap right)).length ≤ cap) :
    j.joinWindows s cap right acc (slices windowSize fuel xs) =
      acc ++ (slices windowSize fuel xs).flatMap (j.joinChunk s cap right) := by
  generalize hws : slices windowSize fuel xs = ws at hcap ⊢
  induction ws generalizing fuel xs acc with
  | nil => simp [joinWindows]
  | cons w ws ih =>
    rw [List.flatMap_cons, ← List.append_assoc] at hcap ⊢
    have hfits : (acc ++ j.joinChunk s cap right w).length ≤ cap := by
      rw [List.length_append] at hcap
      omega
    rw [joinWindows]
    by_cases hw : w.length < windowSize
    · rw [if_pos hw, slices_short hws hw, List.flatMap_nil, List.append_nil]
      by_cases hacc : acc.length < cap
      · rw [if_pos hacc, List.take_of_length_le hfits]
      · rw [if_neg hacc]
        have hnone : j.joinChunk s cap right w = [] := by
          rw [List.length_append] at hfits
          exact List.eq_nil_of_length_eq_zero (by omega)
        rw [hnone, List.append_nil]
    · rw [if_neg hw]
      by_cases hfull : cap ≤ (acc ++ j.joinChunk s cap right w).length
      · rw [if_pos hfull]
        have hnone : ws.flatMap (j.joinChunk s cap right) = [] := by
          rw [List.length_append] at hcap
          exact List.eq_nil_of_length_eq_zero (by omega)
        rw [hnone, List.append_nil]
      · rw [if_neg hfull]
        obtain ⟨fuel', ys, hys⟩ := slices_tail hws
        exact ih fuel' ys _ hys.symm hcap

theorem bindJoin_eq (hs : ReadsIn s.sourceIn) (hr : right.length ≤ cap)
    (hjoined : (j.joinRows j.linked left right).length ≤ cap) :
    j.bindJoin s cap left right = j.joinRows j.linked left right := by
  have hwindows : (chunk windowSize left).flatMap (j.joinChunk s cap right) = j.joinRows j.linked left right := by
    have hall : ∀ ws : List (List SourceRow),
        ws.flatMap (j.joinChunk s cap right) = j.joinRows j.linked ws.flatten right := by
      intro ws
      induction ws with
      | nil => rfl
      | cons w ws ih => rw [List.flatMap_cons, List.flatten_cons, joinRows_append, ih, joinChunk_eq hs hr]
    rw [hall, chunk_flatten (by decide)]
  have hcap : ([] ++ (chunk windowSize left).flatMap (j.joinChunk s cap right)).length ≤ cap := by
    rw [hwindows]
    exact hjoined
  exact (joinWindows_eq left.length left [] hcap).trans hwindows

theorem sqlJoin_eq : j.sqlJoin eq left right = j.joinRows (j.sqlMatches eq) left right := rfl

theorem joinRows_congr {rel rel' : SourceRow → SourceRow → Bool}
    (h : ∀ l ∈ left, ∀ r ∈ right, rel l r = rel' l r) : j.joinRows rel left right = j.joinRows rel' left right := by
  unfold joinRows
  rw [outerPairs_congr h]

theorem linked_length (he : SqlEquality eq) (h : (j.sqlJoin eq left right).length ≤ cap) :
    (j.joinRows j.linked left right).length ≤ cap := by
  refine Nat.le_trans ?_ h
  unfold joinRows sqlJoin
  rw [List.length_map, List.length_map]
  exact outerPairs_length_le fun l _ r _ => linked_matches he

theorem merged_right (l r : SourceRow) :
    merged (qualify j.left l, some (qualify j.right r)) (columnPath j.right j.other) = r.get? j.other := by
  change ((qualify j.right r) _).or ((qualify j.left l) _) = _
  rw [left_lacks, qualify_path, Option.or_none]

/-- A joined row that has the key column of the right leg, and a value in it. -/
def hasRight (j : Equijoin) (row : JoinedRow) : Bool := !(row.read (columnPath j.right j.other)).isNullish

theorem hasRight_pair (l r : SourceRow) :
    j.hasRight (merged (qualify j.left l, some (qualify j.right r))) =
      !(FederatedJoins.column r j.other).isNullish := by
  unfold hasRight JoinedRow.read
  rw [merged_right]
  rfl

theorem hasRight_alone (l : SourceRow) : j.hasRight (merged (qualify j.left l, none)) = false := by
  unfold hasRight JoinedRow.read
  change (!((qualify j.left l (columnPath j.right j.other)).getD .undefined).isNullish) = false
  rw [left_lacks]
  rfl

theorem hasRight_count {rel : SourceRow → SourceRow → Bool}
    (h : ∀ l ∈ left, ∀ r ∈ right, rel l r = true → (FederatedJoins.column r j.other).isNullish = false) :
    ((j.joinRows rel left right).filter j.hasRight).length = (pairs rel left right).length := by
  rw [← paired_length j.keepUnmatchedLeft]
  unfold joinRows
  rw [List.filter_map, List.length_map]
  congr 1
  refine List.filter_congr fun p hp => ?_
  obtain ⟨l, r⟩ := p
  cases r with
  | none => exact hasRight_alone l
  | some r =>
    have ⟨hl, hr, hrel⟩ := mem_outerPairs.mp hp
    change j.hasRight (merged (qualify j.left l, some (qualify j.right r))) = true
    rw [hasRight_pair, h l hl r hr hrel]
    rfl

theorem matches_present (he : SqlEquality eq) {l r : SourceRow} (h : j.sqlMatches eq l r = true) :
    (FederatedJoins.column r j.other).isNullish = false := (he.present _ _ h).2

theorem bind_complete (he : SqlEquality eq)
    (h : (j.joinRows j.linked left right).Perm (j.sqlJoin eq left right)) :
    ∀ l ∈ left, ∀ r ∈ right, j.sqlMatches eq l r = true → j.linked l r = true := by
  have hcount := (h.filter j.hasRight).length_eq
  rw [sqlJoin_eq, hasRight_count fun l _ r _ hrel => matches_present he (linked_matches he hrel),
    hasRight_count fun l _ r _ hrel => matches_present he hrel] at hcount
  exact pairs_length_eq (fun l _ r _ => linked_matches he) hcount.ge

end

end Equijoin

def plainEq (v w : JsValue) : Bool := !v.isNullish && v = w

theorem plainEq_sql : Equijoin.SqlEquality plainEq where
  present v w h := by
    have ⟨hv, hw⟩ := Bool.and_eq_true _ _ |>.mp h
    have heq : v = w := of_decide_eq_true hw
    have hpresent := Bool.not_eq_true' _ |>.mp hv
    exact ⟨hpresent, heq ▸ hpresent⟩
  same p h := by simp [plainEq, h]

def orderCustomers : Equijoin where
  left := "o"
  column := "ref"
  right := "c"
  other := "ref"
  reversed := false
  type := .inner
  distinct := {
    nodup := by decide
    separated := by
      refine SeparatedNames.separated_of_notMem ?_
      have hplain : ∀ a ∈ ["o", "c"], '.' ∉ a.toList := by decide
      intro w hw
      obtain ⟨a, ha, hwa⟩ := hw
      rw [hwa]
      exact hplain a ha }
  plain := by decide

def referring (v : JsValue) : SourceRow := Record.empty.assign "ref" v

end DataFabric.JoinStrategies
