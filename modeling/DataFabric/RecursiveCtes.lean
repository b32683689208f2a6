import DataFabric.FederatedJoins
import DataFabric.GroupedFolds
import Mathlib.Data.List.Pairwise
import Mathlib.Data.List.Perm.Subperm

set_option autoImplicit false

/-!
# Recursive queries traversed in the fabric

The rows of the base are the first level. Every further level is one query for the rows whose parent
is a key of the level before.
-/
namespace DataFabric.RecursiveCtes
open JsValues KeyedJoins OrderedRecords FederatedJoins

/-- `WITH RECURSIVE c AS (base UNION ALL member) SELECT outer FROM c`. The member joins a row of the table to a row
of the level before by `parentKeyCol` and `childKeyCol`; its WHERE and its select list read both rows. -/
structure RecursiveCte where
  anchor : SourceRow → Bool
  base : SourceRow → SourceRow
  parentKeyCol : String
  childKeyCol : String
  wheres : SourceRow → SourceRow → Bool
  select : SourceRow → SourceRow → SourceRow
  outer : List String
  base_key : ∀ r, column (base r) childKeyCol = column r childKeyCol
  select_key : ∀ t c, column (select t c) childKeyCol = column t childKeyCol
  key_apart : childKeyCol ≠ "level"
  shows : outer = [] ∨ "*" ∈ outer ∨ childKeyCol ∈ outer ∧ "level" ∈ outer

def depthLimit : ℕ := 20

def levelLimit : ℕ := 1000

namespace RecursiveCte

variable (q : RecursiveCte) (table : List SourceRow)

def key (r : SourceRow) : JsValue := column r q.childKeyCol

def parent (r : SourceRow) : JsValue := column r q.parentKeyCol

def tagged (depth : ℕ) (r : SourceRow) : SourceRow := r.assign "level" (.num depth)

def shown (r : SourceRow) : SourceRow :=
  if q.outer = [] ∨ "*" ∈ q.outer then r else .ofEntries (q.outer.map fun c => (c, column r c))

def parentIds (frontier : List SourceRow) : List JsValue := (frontier.map q.key).filter JsValue.truthy

def children (ids : List JsValue) : List SourceRow := table.filter fun t => ids.any fun k => sameKey (q.parent t) k

def traverse : ℕ → ℕ → List SourceRow → List SourceRow
  | 0, _, _ => []
  | left + 1, depth, frontier =>
    if q.parentIds frontier = [] then []
    else
      let nextLevelRows := ((q.children table (q.parentIds frontier)).take levelLimit).map (tagged depth)
      if nextLevelRows = [] then [] else nextLevelRows ++ traverse left (depth + 1) nextLevelRows

def baseRows : List SourceRow := ((table.filter q.anchor).take levelLimit).map fun r => tagged 0 (q.base r)

/-- The levels are read from the table `level`. -/
def executeOn (level : List SourceRow) : List SourceRow :=
  (q.baseRows table ++ q.traverse level (depthLimit - 1) 1 (q.baseRows table)).map q.shown

/-- A level is asked for by the table's name alone, which may lead to a table or to none; the source is left out. -/
def execute (level : Option (List SourceRow)) : Option (List SourceRow) :=
  if q.parentIds (q.baseRows table) = [] then some (q.executeOn table []) else level.map (q.executeOn table)

def linked (c t : SourceRow) : Bool := sameKey (q.parent t) (q.key c) && !(q.key c).isNullish

def joined (c : SourceRow) : List SourceRow := table.filter fun t => q.linked c t && q.wheres t c

def sqlLevel : ℕ → List SourceRow
  | 0 => (table.filter q.anchor).map fun r => tagged 0 (q.base r)
  | n + 1 => (sqlLevel n).flatMap fun c => (q.joined table c).map fun t => tagged (n + 1) (q.select t c)

def sqlRows : List SourceRow := ((List.range depthLimit).flatMap (q.sqlLevel table)).map q.shown

/-- The rows below the anchors, whatever the member's WHERE. -/
def below : ℕ → List SourceRow
  | 0 => table.filter q.anchor
  | n + 1 => table.filter fun t => (below n).any fun p => q.linked p t

end RecursiveCte

/-- A table whose rows have keys of their own, with fewer levels than the limit and no level above the cap. -/
structure Forest (q : RecursiveCte) where
  table : List SourceRow
  keyed : (table.map q.key).Nodup
  present : ∀ r ∈ table, ∃ p, q.key r = .prim p ∧ (q.key r).isNullish = false
  shallow : q.below table depthLimit = []
  narrow : ∀ n, (q.below table n).length ≤ levelLimit

/-- What the name of the table leads to without its source: the same table, as it does when the query names no
source, another table, or none. -/
inductive Named
  | same
  | other
  | missing
  deriving DecidableEq

def Named.level (named : Named) (table other : List SourceRow) : Option (List SourceRow) :=
  match named with
  | .same => some table
  | .other => some other
  | .missing => none

/-- The rows of the recursive query with their levels, in any order, whatever another table of the name holds. -/
def TraversesAsSql (q : RecursiveCte) (f : Forest q) (named : Named) : Prop :=
  ∀ other, ∃ rows, q.execute f.table (named.level f.table other) = some rows ∧ rows.Perm (q.sqlRows f.table)

/-- A row that is joined to a row of the query passes WHERE if and only if the key is truthy, and is selected as
it is as far as it is shown. -/
def Follows (q : RecursiveCte) (f : Forest q) : Prop :=
  ∀ n, ∀ c ∈ q.sqlLevel f.table n, ∀ t ∈ f.table, q.linked c t = true →
    q.wheres t c = (q.key c).truthy ∧
      (q.wheres t c = true → q.shown (RecursiveCte.tagged (n + 1) (q.select t c)) = q.shown (RecursiveCte.tagged (n + 1) t))

/-- Besides, the name alone leads to the same table, unless no row of the base has a truthy key. -/
def HoldsWhen (q : RecursiveCte) (f : Forest q) (named : Named) : Prop :=
  (named = .same ∨ ∀ r ∈ f.table, q.anchor r = true → (q.key r).truthy = false) ∧ Follows q f

theorem get?_assigned {names : List String} {f : String → JsValue} {c : String} (h : c ∈ names) :
    (Record.ofEntries (names.map fun c => (c, f c))).get? c = some (f c) := by
  induction names using List.reverseRecOn with
  | nil => cases h
  | append_singleton names d ih =>
    unfold Record.ofEntries at ih ⊢
    rw [List.map_append, List.foldl_append, List.map_cons, List.map_nil, List.foldl_cons, List.foldl_nil,
      Record.get?_assign]
    by_cases hc : c = d
    · rw [if_pos hc, hc]
    · rw [if_neg hc]
      exact ih ((List.mem_append.mp h).resolve_right fun hd => hc (List.mem_singleton.mp hd))

namespace RecursiveCte

variable {q : RecursiveCte} {table : List SourceRow}

theorem column_tagged {c : String} (hc : c ≠ "level") (depth : ℕ) (r : SourceRow) :
    column (tagged depth r) c = column r c := by
  unfold tagged column
  rw [Record.get?_assign, if_neg hc]

theorem level_tagged (depth : ℕ) (r : SourceRow) : column (tagged depth r) "level" = .num depth := by
  unfold tagged column
  rw [Record.get?_assign, if_pos rfl]
  rfl

theorem key_tagged (depth : ℕ) (r : SourceRow) : q.key (tagged depth r) = q.key r :=
  column_tagged q.key_apart depth r

theorem column_shown (r : SourceRow) {c : String} (hc : c = q.childKeyCol ∨ c = "level") :
    column (q.shown r) c = column r c := by
  unfold shown
  split
  · rfl
  · rename_i hnames
    rw [not_or] at hnames
    have ⟨hkey, hlevel⟩ := (q.shows.resolve_left hnames.1).resolve_left hnames.2
    have hmem : c ∈ q.outer := by
      rcases hc with rfl | rfl
      · exact hkey
      · exact hlevel
    have hheld := get?_assigned (f := column r) hmem
    unfold column at hheld ⊢
    rw [hheld]
    rfl

theorem key_shown (r : SourceRow) : q.key (q.shown r) = q.key r := column_shown r (.inl rfl)

variable (q table)

def next (frontier : List SourceRow) : List SourceRow := q.children table (q.parentIds frontier)

def level (n : ℕ) : List SourceRow := (q.next table)^[n] (table.filter q.anchor)

def levelShown : ℕ → SourceRow → SourceRow
  | 0, r => q.shown (tagged 0 (q.base r))
  | n + 1, r => q.shown (tagged (n + 1) r)

variable {q table}

theorem level_succ (n : ℕ) : q.level table (n + 1) = q.next table (q.level table n) :=
  Function.iterate_succ_apply' ..

theorem next_congr {xs ys : List SourceRow} (h : xs.map q.key = ys.map q.key) : q.next table xs = q.next table ys := by
  unfold next parentIds
  rw [h]

theorem next_of_no_ids {xs : List SourceRow} (h : q.parentIds xs = []) : q.next table xs = [] := by
  unfold next children
  rw [h]
  exact List.filter_eq_nil_iff.mpr fun _ _ => nofun

theorem iterate_nil (n : ℕ) : (q.next table)^[n] [] = [] := by
  induction n with
  | zero => rfl
  | succ n ih => rw [Function.iterate_succ_apply', ih, next_of_no_ids rfl]

theorem traverse_eq (left depth : ℕ) (frontier : List SourceRow)
    (hnarrow : ∀ i, ((q.next table)^[i + 1] frontier).length ≤ levelLimit) :
    q.traverse table left depth frontier =
      (List.range left).flatMap fun i => ((q.next table)^[i + 1] frontier).map (tagged (depth + i)) := by
  induction left generalizing depth frontier with
  | zero => rfl
  | succ left ih =>
    have hstop : q.next table frontier = [] → (List.range (left + 1)).flatMap (fun i =>
        ((q.next table)^[i + 1] frontier).map (tagged (depth + i))) = [] := by
      intro h
      rw [List.flatMap_eq_nil_iff]
      intro i _
      rw [Function.iterate_succ_apply, h, iterate_nil, List.map_nil]
    unfold traverse
    by_cases hids : q.parentIds frontier = []
    · rw [if_pos hids, hstop (next_of_no_ids hids)]
    · rw [if_neg hids]
      dsimp only
      have hfirst := hnarrow 0
      change (q.next table frontier).length ≤ levelLimit at hfirst
      have htake : (q.children table (q.parentIds frontier)).take levelLimit = q.next table frontier :=
        List.take_of_length_le hfirst
      rw [htake]
      by_cases hnil : (q.next table frontier).map (tagged depth) = []
      · rw [if_pos hnil, hstop (List.map_eq_nil_iff.mp hnil)]
      · have hkeys : ((q.next table frontier).map (tagged depth)).map q.key = (q.next table frontier).map q.key := by
          rw [List.map_map]
          exact List.map_congr_left fun r _ => key_tagged depth r
        have hiterate : ∀ i, (q.next table)^[i + 1] ((q.next table frontier).map (tagged depth)) =
            (q.next table)^[i + 1 + 1] frontier := by
          intro i
          rw [Function.iterate_succ_apply, next_congr hkeys, ← Function.iterate_succ_apply,
            ← Function.iterate_succ_apply]
        rw [if_neg hnil]
        rw [ih _ _ fun i => by rw [hiterate]; exact hnarrow (i + 1), List.range_succ_eq_map, List.flatMap_cons,
          List.flatMap_map]
        simp only [hiterate, Nat.add_zero, zero_add, Function.iterate_one]
        refine congrArg₂ _ rfl (List.flatMap_congr fun i _ => ?_)
        rw [Nat.add_assoc, Nat.add_comm 1 i]

def reached (q : RecursiveCte) (table : List SourceRow) : ℕ → List SourceRow
  | 0 => table.filter q.anchor
  | n + 1 => (q.sqlLevel table n).flatMap (q.joined table)

theorem truthy_present {v : JsValue} (h : v.truthy = true) : v.isNullish = false := by
  cases v with
  | prim p => cases p <;> first | rfl | cases h
  | arr vs => rfl
  | obj fields => rfl

theorem sameKey_of_parent {k v : JsValue} (h : sameKey v k = true) : v = k := by
  cases v with
  | prim p =>
    cases k with
    | prim p' => exact congrArg _ (of_decide_eq_true h)
    | arr vs => cases h
    | obj fields => cases h
  | arr vs => cases h
  | obj fields => cases h

theorem linked_congr {c d t : SourceRow} (h : q.key c = q.key d) : q.linked c t = q.linked d t := by
  unfold linked
  rw [h]

theorem parent_of_linked {c t : SourceRow} (h : q.linked c t = true) : q.parent t = q.key c := by
  unfold linked at h
  rw [Bool.and_eq_true] at h
  exact sameKey_of_parent h.1

theorem mem_next {xs : List SourceRow} {t : SourceRow} :
    t ∈ q.next table xs ↔ t ∈ table ∧ ∃ x ∈ xs, q.linked x t = true ∧ (q.key x).truthy = true := by
  unfold next children parentIds linked
  rw [List.mem_filter, List.any_eq_true]
  apply and_congr_right
  intro _
  constructor
  · intro ⟨k, hk, hsame⟩
    have ⟨hmem, htruthy⟩ := List.mem_filter.mp hk
    have ⟨x, hx, hkey⟩ := List.mem_map.mp hmem
    refine ⟨x, hx, ?_, hkey ▸ htruthy⟩
    rw [hkey, hsame, truthy_present htruthy]
    rfl
  · intro ⟨x, hx, hlinked, htruthy⟩
    rw [Bool.and_eq_true] at hlinked
    exact ⟨q.key x, List.mem_filter.mpr ⟨List.mem_map_of_mem hx, htruthy⟩, hlinked.1⟩

theorem mem_reached_succ {n : ℕ} {t : SourceRow} : t ∈ q.reached table (n + 1) ↔
    t ∈ table ∧ ∃ c ∈ q.sqlLevel table n, q.linked c t = true ∧ q.wheres t c = true := by
  change t ∈ (q.sqlLevel table n).flatMap (q.joined table) ↔ _
  unfold joined
  simp only [List.mem_flatMap, List.mem_filter, Bool.and_eq_true]
  constructor
  · intro ⟨c, hc, ht, h⟩
    exact ⟨ht, c, hc, h⟩
  · intro ⟨ht, c, hc, h⟩
    exact ⟨c, hc, ht, h⟩

theorem keys_sqlLevel (n : ℕ) : (q.sqlLevel table n).map q.key = (q.reached table n).map q.key := by
  cases n with
  | zero =>
    unfold sqlLevel reached
    rw [List.map_map]
    exact List.map_congr_left fun r _ => (key_tagged 0 _).trans (q.base_key r)
  | succ n =>
    unfold sqlLevel reached
    rw [List.map_flatMap, List.map_flatMap]
    apply List.flatMap_congr
    intro c _
    rw [List.map_map]
    exact List.map_congr_left fun t _ => (key_tagged _ _).trans (q.select_key t c)

theorem key_levelShown (n : ℕ) (r : SourceRow) : q.key (q.levelShown n r) = q.key r := by
  cases n with
  | zero => exact (key_shown _).trans ((key_tagged 0 _).trans (q.base_key r))
  | succ n => exact (key_shown _).trans (key_tagged _ r)

theorem level_levelShown (n : ℕ) (r : SourceRow) : column (q.levelShown n r) "level" = .num n := by
  cases n with
  | zero => exact (column_shown _ (.inr rfl)).trans (level_tagged 0 _)
  | succ n => exact (column_shown _ (.inr rfl)).trans (level_tagged _ r)

theorem level_sqlLevel {n : ℕ} {c : SourceRow} (h : c ∈ q.sqlLevel table n) : column (q.shown c) "level" = .num n := by
  rw [column_shown c (.inr rfl)]
  cases n with
  | zero =>
    have ⟨r, _, hr⟩ := List.mem_map.mp h
    rw [← hr]
    exact level_tagged 0 _
  | succ n =>
    have ⟨d, _, hd⟩ := List.mem_flatMap.mp h
    have ⟨t, _, ht⟩ := List.mem_map.mp hd
    rw [← ht]
    exact level_tagged _ _

end RecursiveCte

theorem levels_perm_iff {α : Type*} (depth : α → JsValue) {xs ys : ℕ → List α}
    (hxs : ∀ n, ∀ x ∈ xs n, depth x = .num n) (hys : ∀ n, ∀ y ∈ ys n, depth y = .num n) (k : ℕ) :
    ((List.range k).flatMap xs).Perm ((List.range k).flatMap ys) ↔ ∀ n < k, (xs n).Perm (ys n) := by
  have hcast : ∀ n m : ℕ, JsValue.num n = .num m → n = m := by
    intro n m h
    injection h with h
    injection h with h
    exact Nat.cast_injective h
  have hlast : ∀ {zs : ℕ → List α} (k : ℕ), (∀ n, ∀ z ∈ zs n, depth z = .num n) →
      ((List.range k).flatMap zs ++ zs k).filter (fun z => depth z = .num k) = zs k ∧
        ((List.range k).flatMap zs ++ zs k).filter (fun z => ¬ depth z = .num k) = (List.range k).flatMap zs := by
    intro zs k hzs
    have hbefore : ∀ z ∈ (List.range k).flatMap zs, ¬ depth z = .num k := by
      intro z hz heq
      have ⟨n, hn, hmem⟩ := List.mem_flatMap.mp hz
      have hsame := hcast n k ((hzs n z hmem).symm.trans heq)
      rw [List.mem_range] at hn
      omega
    have hnone : ((List.range k).flatMap zs).filter (fun z => depth z = .num k) = [] := by
      rw [List.filter_eq_nil_iff]
      exact fun z hz h => hbefore z hz (of_decide_eq_true h)
    have hall : (zs k).filter (fun z => depth z = .num k) = zs k := by
      rw [List.filter_eq_self]
      exact fun z hz => decide_eq_true (hzs k z hz)
    have hkept : ((List.range k).flatMap zs).filter (fun z => ¬ depth z = .num k) = (List.range k).flatMap zs := by
      rw [List.filter_eq_self]
      exact fun z hz => decide_eq_true (hbefore z hz)
    have hleft : (zs k).filter (fun z => ¬ depth z = .num k) = [] := by
      rw [List.filter_eq_nil_iff]
      exact fun z hz h => of_decide_eq_true h (hzs k z hz)
    rw [List.filter_append, List.filter_append, hnone, hall, hkept, hleft, List.nil_append, List.append_nil]
    exact ⟨rfl, rfl⟩
  induction k with
  | zero => simp
  | succ k ih =>
    rw [List.range_succ, List.flatMap_append, List.flatMap_append, List.flatMap_cons, List.flatMap_nil,
      List.flatMap_cons, List.flatMap_nil, List.append_nil, List.append_nil]
    constructor
    · intro h n hn
      have hat := h.filter fun z => decide (depth z = .num k)
      have hother := h.filter fun z => decide (¬ depth z = .num k)
      rw [(hlast k hxs).1, (hlast k hys).1] at hat
      rw [(hlast k hxs).2, (hlast k hys).2] at hother
      by_cases heq : n = k
      · rw [heq]
        exact hat
      · exact ih.mp hother n (by omega)
    · intro h
      exact (ih.mpr fun n hn => h n (by omega)).append (h k (by omega))

namespace Forest

open RecursiveCte

variable {q : RecursiveCte} (f : Forest q) {n : ℕ}

theorem key_inj {r s : SourceRow} (hr : r ∈ f.table) (hs : s ∈ f.table) (h : q.key r = q.key s) : r = s :=
  List.inj_on_of_nodup_map f.keyed hr hs h

theorem nodup : f.table.Nodup := f.keyed.of_map

theorem below_nil (hn : depthLimit ≤ n) : q.below f.table n = [] := by
  induction n, hn using Nat.le_induction with
  | base => exact f.shallow
  | succ n _ ih =>
    change f.table.filter (fun t => (q.below f.table n).any fun p => q.linked p t) = []
    rw [ih]
    exact List.filter_eq_nil_iff.mpr fun _ _ => nofun

theorem mem_level (n : ℕ) {t : SourceRow} (h : t ∈ q.level f.table n) : t ∈ f.table := by
  cases n with
  | zero => exact (List.mem_filter.mp h).1
  | succ n =>
    rw [level_succ] at h
    exact (mem_next.mp h).1

theorem level_nodup (n : ℕ) : (q.level f.table n).Nodup := by
  cases n with
  | zero => exact f.nodup.filter _
  | succ n =>
    rw [level_succ]
    exact f.nodup.filter _

theorem level_below (n : ℕ) {t : SourceRow} (h : t ∈ q.level f.table n) : t ∈ q.below f.table n := by
  induction n generalizing t with
  | zero => exact h
  | succ n ih =>
    rw [level_succ, mem_next] at h
    have ⟨ht, x, hx, hlinked, _⟩ := h
    exact List.mem_filter.mpr ⟨ht, List.any_eq_true.mpr ⟨x, ih hx, hlinked⟩⟩

theorem level_narrow (n : ℕ) : (q.level f.table n).length ≤ levelLimit :=
  ((f.level_nodup n).subperm fun _ => f.level_below n).length_le.trans (f.narrow n)

theorem mem_reached (n : ℕ) {t : SourceRow} (h : t ∈ q.reached f.table n) : t ∈ f.table := by
  cases n with
  | zero => exact (List.mem_filter.mp h).1
  | succ n => exact (mem_reached_succ.mp h).1

theorem row_of_mem {c : SourceRow} (h : c ∈ q.sqlLevel f.table n) : ∃ p ∈ q.reached f.table n, q.key p = q.key c := by
  have hkey := List.mem_map_of_mem (f := q.key) h
  rw [keys_sqlLevel] at hkey
  exact List.mem_map.mp hkey

theorem mem_of_row {p : SourceRow} (h : p ∈ q.reached f.table n) : ∃ c ∈ q.sqlLevel f.table n, q.key c = q.key p := by
  have hkey := List.mem_map_of_mem (f := q.key) h
  rw [← keys_sqlLevel] at hkey
  exact List.mem_map.mp hkey

theorem reached_below (n : ℕ) {t : SourceRow} (h : t ∈ q.reached f.table n) : t ∈ q.below f.table n := by
  induction n generalizing t with
  | zero => exact h
  | succ n ih =>
    have ⟨ht, c, hc, hlinked, _⟩ := mem_reached_succ.mp h
    have ⟨p, hp, hkey⟩ := f.row_of_mem hc
    rw [← linked_congr hkey] at hlinked
    exact List.mem_filter.mpr ⟨ht, List.any_eq_true.mpr ⟨p, ih hp, hlinked⟩⟩

theorem reached_nodup (n : ℕ) : (q.reached f.table n).Nodup ∧ ((q.sqlLevel f.table n).map q.key).Nodup := by
  have hkeys : ∀ n, (q.reached f.table n).Nodup → ((q.sqlLevel f.table n).map q.key).Nodup := by
    intro n h
    rw [keys_sqlLevel]
    exact h.map_on fun r hr s hs => f.key_inj (f.mem_reached n hr) (f.mem_reached n hs)
  have hreached : (q.reached f.table n).Nodup := by
    induction n with
    | zero => exact f.nodup.filter _
    | succ n ih =>
      have hdistinct := List.pairwise_map.mp (hkeys n ih)
      refine List.nodup_flatMap.mpr ⟨fun c _ => f.nodup.filter _, hdistinct.imp ?_⟩
      intro c d hne t hc hd
      unfold joined at hc hd
      rw [List.mem_filter, Bool.and_eq_true] at hc hd
      exact hne ((parent_of_linked hc.2.1).symm.trans (parent_of_linked hd.2.1))
  exact ⟨hreached, hkeys n hreached⟩

theorem row_inj {c d : SourceRow} (hc : c ∈ q.sqlLevel f.table n) (hd : d ∈ q.sqlLevel f.table n)
    (h : q.key c = q.key d) : c = d :=
  List.inj_on_of_nodup_map (f.reached_nodup n).2 hc hd h

theorem executeOn_eq : q.executeOn f.table f.table =
    (List.range depthLimit).flatMap fun n => (q.level f.table n).map (q.levelShown n) := by
  have hbase : ((f.table.filter q.anchor).map fun r => tagged 0 (q.base r)).map q.key =
      (f.table.filter q.anchor).map q.key := by
    rw [List.map_map]
    exact List.map_congr_left fun r _ => (key_tagged 0 _).trans (q.base_key r)
  have hiterate : ∀ i, (q.next f.table)^[i + 1] ((f.table.filter q.anchor).map fun r => tagged 0 (q.base r)) =
      q.level f.table (i + 1) := by
    intro i
    rw [Function.iterate_succ_apply, next_congr hbase, ← Function.iterate_succ_apply]
    rfl
  have htake : (f.table.filter q.anchor).take levelLimit = f.table.filter q.anchor :=
    List.take_of_length_le (f.level_narrow 0)
  unfold executeOn baseRows
  rw [htake, traverse_eq _ _ _ fun i => by rw [hiterate]; exact f.level_narrow _]
  change _ = (List.range (depthLimit - 1 + 1)).flatMap _
  rw [List.range_succ_eq_map, List.flatMap_cons, List.flatMap_map, List.map_append, List.map_map, List.map_flatMap]
  simp only [hiterate, List.map_map]
  refine congrArg₂ _ rfl (List.flatMap_congr fun i _ => ?_)
  rw [Nat.add_comm 1 i]
  rfl

theorem sqlRows_eq : q.sqlRows f.table =
    (List.range depthLimit).flatMap fun n => (q.sqlLevel f.table n).map q.shown := List.map_flatMap ..

theorem sqlLevel_nil (hn : depthLimit ≤ n) : q.sqlLevel f.table n = [] := by
  rw [List.eq_nil_iff_forall_not_mem]
  intro c hc
  have ⟨p, hp, _⟩ := f.row_of_mem hc
  have hbelow := f.reached_below n hp
  rw [f.below_nil hn] at hbelow
  cases hbelow

theorem level_nil (hn : depthLimit ≤ n) : q.level f.table n = [] := by
  rw [List.eq_nil_iff_forall_not_mem]
  intro t ht
  have hbelow := f.level_below n ht
  rw [f.below_nil hn] at hbelow
  cases hbelow

theorem traverses_iff_levels : (q.executeOn f.table f.table).Perm (q.sqlRows f.table) ↔
    ∀ n, ((q.level f.table n).map (q.levelShown n)).Perm ((q.sqlLevel f.table n).map q.shown) := by
  rw [executeOn_eq, sqlRows_eq, levels_perm_iff fun r => column r "level"]
  · constructor
    · intro h n
      by_cases hn : n < depthLimit
      · exact h n hn
      · rw [not_lt] at hn
        rw [f.level_nil hn, f.sqlLevel_nil hn]
        exact .nil
    · exact fun h n _ => h n
  · intro n r hr
    have ⟨s, _, hs⟩ := List.mem_map.mp hr
    rw [← hs]
    exact level_levelShown n s
  · intro n r hr
    have ⟨c, hc, hs⟩ := List.mem_map.mp hr
    rw [← hs]
    exact level_sqlLevel hc

theorem mem_level_iff (h : ((q.level f.table n).map (q.levelShown n)).Perm ((q.sqlLevel f.table n).map q.shown))
    {t : SourceRow} (ht : t ∈ f.table) : t ∈ q.level f.table n ↔ t ∈ q.reached f.table n := by
  have hkeys := h.map q.key
  rw [List.map_map, List.map_map] at hkeys
  have hleft : (q.level f.table n).map (q.key ∘ q.levelShown n) = (q.level f.table n).map q.key :=
    List.map_congr_left fun r _ => key_levelShown n r
  have hright : (q.sqlLevel f.table n).map (q.key ∘ q.shown) = (q.reached f.table n).map q.key :=
    (List.map_congr_left fun c _ => key_shown c).trans (keys_sqlLevel n)
  rw [hleft, hright] at hkeys
  constructor
  · intro hmem
    have ⟨s, hs, hkey⟩ := List.mem_map.mp (hkeys.subset (List.mem_map_of_mem hmem))
    exact f.key_inj (f.mem_reached n hs) ht hkey ▸ hs
  · intro hmem
    have ⟨s, hs, hkey⟩ := List.mem_map.mp (hkeys.symm.subset (List.mem_map_of_mem hmem))
    exact f.key_inj (f.mem_level n hs) ht hkey ▸ hs

theorem level_perm_reached (h : Follows q f) (n : ℕ) : (q.level f.table n).Perm (q.reached f.table n) := by
  induction n with
  | zero => exact .refl _
  | succ n ih =>
    rw [List.perm_ext_iff_of_nodup (f.level_nodup _) (f.reached_nodup _).1]
    intro t
    rw [level_succ, mem_next, mem_reached_succ]
    apply and_congr_right
    intro ht
    constructor
    · intro ⟨x, hx, hlinked, htruthy⟩
      have ⟨c, hc, hkey⟩ := f.mem_of_row (ih.subset hx)
      rw [← linked_congr hkey] at hlinked
      refine ⟨c, hc, hlinked, ?_⟩
      rw [(h n c hc t ht hlinked).1, hkey]
      exact htruthy
    · intro ⟨c, hc, hlinked, hwheres⟩
      have ⟨p, hp, hkey⟩ := f.row_of_mem hc
      rw [(h n c hc t ht hlinked).1, ← hkey] at hwheres
      rw [← linked_congr hkey] at hlinked
      exact ⟨p, ih.symm.subset hp, hlinked, hwheres⟩

theorem shown_perm (h : Follows q f) (n : ℕ) :
    ((q.level f.table n).map (q.levelShown n)).Perm ((q.sqlLevel f.table n).map q.shown) := by
  cases n with
  | zero =>
    have hbase : (q.sqlLevel f.table 0).map q.shown = (q.level f.table 0).map (q.levelShown 0) := List.map_map ..
    rw [hbase]
  | succ n =>
    have hrows : (q.sqlLevel f.table (n + 1)).map q.shown = (q.reached f.table (n + 1)).map (q.levelShown (n + 1)) := by
      unfold sqlLevel reached
      rw [List.map_flatMap, List.map_flatMap]
      apply List.flatMap_congr
      intro c hc
      rw [List.map_map]
      apply List.map_congr_left
      intro t ht
      unfold joined at ht
      rw [List.mem_filter, Bool.and_eq_true] at ht
      exact (h n c hc t ht.1 ht.2.1).2 ht.2.2
    rw [hrows]
    exact (f.level_perm_reached h (n + 1)).map _

theorem executeOn_iff : (q.executeOn f.table f.table).Perm (q.sqlRows f.table) ↔ Follows q f := by
  rw [f.traverses_iff_levels]
  constructor
  · intro h n c hc t ht hlinked
    have ⟨p, hp, hkey⟩ := f.row_of_mem hc
    have hfetched : t ∈ q.level f.table (n + 1) ↔ (q.key c).truthy = true := by
      rw [level_succ, mem_next]
      constructor
      · intro ⟨_, x, _, hx, htruthy⟩
        rw [← parent_of_linked hlinked, parent_of_linked hx]
        exact htruthy
      · intro htruthy
        refine ⟨ht, p, (f.mem_level_iff (h n) (f.mem_reached n hp)).mpr hp, ?_, hkey ▸ htruthy⟩
        rw [linked_congr hkey]
        exact hlinked
    have hjoined : t ∈ q.reached f.table (n + 1) ↔ q.wheres t c = true := by
      rw [mem_reached_succ]
      constructor
      · intro ⟨_, d, hd, hlinked', hwheres⟩
        have hsame := f.row_inj hd hc ((parent_of_linked hlinked').symm.trans (parent_of_linked hlinked))
        exact hsame ▸ hwheres
      · exact fun hwheres => ⟨ht, c, hc, hlinked, hwheres⟩
    have hmem := f.mem_level_iff (h (n + 1)) ht
    constructor
    · rw [Bool.eq_iff_iff, ← hjoined, ← hmem, hfetched]
    · intro hwheres
      have hrow : q.shown (tagged (n + 1) (q.select t c)) ∈ (q.sqlLevel f.table (n + 1)).map q.shown := by
        apply List.mem_map_of_mem
        refine List.mem_flatMap.mpr ⟨c, hc, List.mem_map.mpr ⟨t, ?_, rfl⟩⟩
        unfold joined
        rw [List.mem_filter, hlinked, hwheres]
        exact ⟨ht, rfl⟩
      have ⟨s, hs, hshown⟩ := List.mem_map.mp ((h (n + 1)).symm.subset hrow)
      have hkeys := congrArg q.key hshown
      rw [key_levelShown, key_shown, key_tagged] at hkeys
      have hst := f.key_inj (f.mem_level _ hs) ht (hkeys.trans (q.select_key t c))
      rw [← hshown, hst]
      rfl
  · exact fun h n => f.shown_perm h n

theorem mem_parentIds_base {k : JsValue} : k ∈ q.parentIds (q.baseRows f.table) ↔
    ∃ r ∈ f.table, q.anchor r = true ∧ q.key r = k ∧ k.truthy = true := by
  have htake : (f.table.filter q.anchor).take levelLimit = f.table.filter q.anchor :=
    List.take_of_length_le (f.level_narrow 0)
  have hkey : ∀ r, q.key (tagged 0 (q.base r)) = q.key r := fun r => (key_tagged 0 _).trans (q.base_key r)
  unfold parentIds baseRows
  rw [htake, List.map_map, List.mem_filter, List.mem_map]
  constructor
  · rintro ⟨⟨r, hr, rfl⟩, htruthy⟩
    have ⟨hmem, hanchor⟩ := List.mem_filter.mp hr
    exact ⟨r, hmem, hanchor, (hkey r).symm, htruthy⟩
  · rintro ⟨r, hmem, hanchor, rfl, htruthy⟩
    exact ⟨⟨r, List.mem_filter.mpr ⟨hmem, hanchor⟩, hkey r⟩, htruthy⟩

theorem parentIds_base_nil : q.parentIds (q.baseRows f.table) = [] ↔
    ∀ r ∈ f.table, q.anchor r = true → (q.key r).truthy = false := by
  rw [List.eq_nil_iff_forall_not_mem]
  constructor
  · intro h r hmem hanchor
    rw [← Bool.not_eq_true]
    exact fun htruthy => h _ (f.mem_parentIds_base.mpr ⟨r, hmem, hanchor, rfl, htruthy⟩)
  · intro h k hk
    obtain ⟨r, hmem, hanchor, rfl, htruthy⟩ := f.mem_parentIds_base.mp hk
    rw [h r hmem hanchor] at htruthy
    cases htruthy

theorem executeOn_of_no_ids (h : q.parentIds (q.baseRows f.table) = []) (level : List SourceRow) :
    q.executeOn f.table level = (q.baseRows f.table).map q.shown := by
  have hnone : q.traverse level (depthLimit - 1) 1 (q.baseRows f.table) = [] := if_pos h
  rw [executeOn, hnone, List.append_nil]

theorem traverse_no_children {level frontier : List SourceRow} (left depth : ℕ)
    (h : q.children level (q.parentIds frontier) = []) : q.traverse level left depth frontier = [] := by
  cases left with
  | zero => rfl
  | succ left =>
    unfold RecursiveCte.traverse
    split
    · rfl
    · dsimp only
      rw [h, List.take_nil, List.map_nil, if_pos rfl]

theorem traverse_one_child {level frontier : List SourceRow} {t : SourceRow} (left depth : ℕ)
    (hids : q.parentIds frontier ≠ []) (h : q.children level (q.parentIds frontier) = [t]) :
    q.traverse level (left + 1) depth frontier ≠ [] := by
  have htake : [t].take levelLimit = [t] := List.take_of_length_le (Nat.le_add_left 1 999)
  unfold RecursiveCte.traverse
  rw [if_neg hids]
  dsimp only
  rw [h, htake, List.map_singleton, if_neg (List.cons_ne_nil _ _)]
  exact List.cons_ne_nil _ _

/-- From another table come no rows or more than none. -/
theorem other_differs (h : q.parentIds (q.baseRows f.table) ≠ []) :
    (q.executeOn f.table []).length ≠ (q.executeOn f.table
      [.ofEntries [(q.parentKeyCol, (q.parentIds (q.baseRows f.table)).head h)]]).length := by
  have hmem := List.head_mem h
  obtain ⟨r, hr, _, hkey, _⟩ := f.mem_parentIds_base.mp hmem
  obtain ⟨p, hp, _⟩ := f.present r hr
  have hnone : q.traverse [] (depthLimit - 1) 1 (q.baseRows f.table) = [] := traverse_no_children _ _
    (List.filter_nil : q.children [] (q.parentIds (q.baseRows f.table)) = [])
  have hparent : q.parent (.ofEntries [(q.parentKeyCol, (q.parentIds (q.baseRows f.table)).head h)]) =
      (q.parentIds (q.baseRows f.table)).head h := by
    unfold parent column Record.ofEntries
    rw [List.foldl_cons, List.foldl_nil, Record.get?_assign, if_pos rfl]
    rfl
  have hchildren : q.children [.ofEntries [(q.parentKeyCol, (q.parentIds (q.baseRows f.table)).head h)]]
      (q.parentIds (q.baseRows f.table)) =
        [.ofEntries [(q.parentKeyCol, (q.parentIds (q.baseRows f.table)).head h)]] := by
    refine List.filter_eq_self.mpr fun t ht => ?_
    rw [List.mem_singleton.mp ht]
    refine List.any_eq_true.mpr ⟨_, hmem, ?_⟩
    rw [hparent, ← hkey, hp]
    exact decide_eq_true rfl
  have hlonger := List.length_pos_iff.mpr (traverse_one_child (depthLimit - 2) 1 h hchildren)
  have hdepth : depthLimit - 2 + 1 = depthLimit - 1 := by decide
  rw [hdepth] at hlonger
  unfold executeOn
  rw [hnone, List.length_map, List.length_map, List.length_append, List.length_append, List.length_nil]
  omega

/-- The fabric answers as SQL if and only if no row below a falsy key and no row refused by WHERE is reached, the
member selects what is shown, and the levels are read from the table. -/
theorem traverses_iff (named : Named) : TraversesAsSql q f named ↔ HoldsWhen q f named := by
  unfold TraversesAsSql HoldsWhen
  rw [← f.executeOn_iff, ← f.parentIds_base_nil]
  by_cases hids : q.parentIds (q.baseRows f.table) = []
  · have hexecute (level : Option (List SourceRow)) :
        q.execute f.table level = some (q.executeOn f.table f.table) := by
      rw [execute, if_pos hids, f.executeOn_of_no_ids hids, f.executeOn_of_no_ids hids]
    simp only [hexecute, Option.some.injEq, exists_eq_left', forall_const]
    exact (and_iff_right (.inr hids)).symm
  · have hexecute (level : Option (List SourceRow)) :
        q.execute f.table level = level.map (q.executeOn f.table) := if_neg hids
    rw [or_iff_left hids]
    simp only [hexecute]
    cases named with
    | same =>
      simp only [Named.level, Option.map_some, Option.some.injEq, exists_eq_left', forall_const]
      exact (and_iff_right trivial).symm
    | other =>
      refine iff_of_false (fun h => ?_) nofun
      obtain ⟨none, hnone, hempty⟩ := h []
      obtain ⟨more, hmore, hfilled⟩ := h [.ofEntries [(q.parentKeyCol, (q.parentIds (q.baseRows f.table)).head hids)]]
      cases hnone
      cases hmore
      exact f.other_differs hids (hempty.length_eq.trans hfilled.length_eq.symm)
    | missing =>
      refine iff_of_false (fun h => ?_) nofun
      obtain ⟨rows, hrows, _⟩ := h []
      cases hrows

end Forest

/-- `WITH RECURSIVE c AS (SELECT * FROM t WHERE parent IS NULL UNION ALL SELECT t.* FROM t JOIN c ON t.parent = c.id)
SELECT * FROM c` -/
def descendants : RecursiveCte where
  anchor r := (column r "parent").isNullish
  base r := r
  parentKeyCol := "parent"
  childKeyCol := "id"
  wheres _ _ := true
  select t _ := t
  outer := ["*"]
  base_key _ := rfl
  select_key _ _ := rfl
  key_apart := by decide
  shows := by decide

def rootAndChild : Forest descendants where
  table := [.ofEntries [("id", .num 0), ("parent", .null)], .ofEntries [("id", .num 1), ("parent", .num 0)]]
  keyed := by decide
  present r hr := by
    rcases List.mem_cons.mp hr with rfl | hr
    · exact ⟨_, rfl, rfl⟩
    · rw [List.mem_singleton.mp hr]
      exact ⟨_, rfl, rfl⟩
  shallow := by decide
  narrow n := by
    cases n with
    | zero => exact (List.length_filter_le _ _).trans (by decide)
    | succ n => exact (List.length_filter_le _ _).trans (by decide)

/-- The child is not fetched. -/
theorem child_missed : ¬ ∀ (q : RecursiveCte) (f : Forest q), TraversesAsSql q f .same := by
  intro h
  obtain ⟨rows, hrows, hperm⟩ := h descendants rootAndChild []
  have hlength := hperm.length_eq
  rw [← Option.some.inj hrows] at hlength
  revert hlength
  decide +kernel

end DataFabric.RecursiveCtes
