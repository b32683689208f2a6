import DataFabric.SqlAggregates
import DataFabric.Windows
import Mathlib.Tactic.Linarith
import Mathlib.Tactic.Positivity

set_option autoImplicit false

/-!
# Running aggregates against the frame of SQL

SQL's frame of a row ends with the last of its peers, which are all rows of the partition if the
window has no ORDER BY. The fabric's frame ends with the row itself.
-/
namespace DataFabric.RunningWindows
open JsValues OrderedRecords FederatedJoins Aggregates SetOperations PartialAggregates SqlAggregates Windows

/-- An aggregate over a window, as SQL accepts it: only COUNT goes without a column, SUM and AVG take numbers. -/
structure AggregateWindow where
  spec : WindowSpec
  type : ColumnType
  rows : List SourceRow
  running : isRunning spec.fn = true
  starred : spec.column = "" → spec.fn = "COUNT"
  summed : spec.fn = "SUM" ∨ spec.fn = "AVG" → type = .number
  typed : ∀ r ∈ rows, (readCol r spec.column).isNullish = false → type.Admits (readCol r spec.column)

structure Language where
  lt : JsValue → JsValue → Bool
  collation : String → String → Bool
  parseFloat : String → Option ℚ

def aggFunc (fn : String) : AggFunc :=
  if fn = "SUM" then .sum
  else if fn = "COUNT" then .count
  else if fn = "AVG" then .avg
  else if fn = "MIN" then .min
  else .max

namespace AggregateWindow

variable (w : AggregateWindow) (lang : Language)

def sorted (key : List JsValue) : List (SourceRow × ℕ) := part lang.lt w.spec w.rows key

def arguments (rs : List SourceRow) : List JsValue :=
  if w.spec.column = "" then rs.map fun _ => .num 1 else notNull (rs.map fun r => readCol r w.spec.column)

/-- The rows of a sorted partition up to the row at a place. -/
def before (p : List (SourceRow × ℕ)) (i : ℕ) : List SourceRow := (p.take (i + 1)).map Prod.fst

def later (p : List (SourceRow × ℕ)) (i : ℕ) (r : SourceRow) : List SourceRow :=
  ((p.drop (i + 1)).map Prod.fst).filter fun s => comparator lang.lt w.spec.orderBy r s = .eq

def frameValue (p : List (SourceRow × ℕ)) (i : ℕ) (r : SourceRow) : JsValue :=
  aggregate lang.collation w.type (aggFunc w.spec.fn) (w.arguments (before p i ++ w.later lang p i r))

def result : List SourceRow := applyWindow lang.parseFloat lang.lt w.rows w.spec

/-- Every row of every partition gets the aggregate of its frame. -/
def DefaultFrames : Prop := ∀ key i r place, (w.sorted lang key)[i]? = some (r, place) →
  ((w.result lang)[place]?).bind (fun row => row.get? w.spec.aliasName) =
    some (w.frameValue lang (w.sorted lang key) i r)

def Idle (f : AggFunc) (type : ColumnType) (xs ys : List JsValue) : Prop :=
  match f with
  | .count => ys = []
  | .sum => xs ++ ys ≠ [] ∧ (ys.filterMap numberOf).sum = 0
  | .avg => ys = [] ∨ xs ≠ [] ∧
      (ys.filterMap numberOf).sum / ys.length = (xs.filterMap numberOf).sum / xs.length
  | .min => match type with
    | .number => ∀ y ∈ ys.filterMap numberOf, ∃ x ∈ xs.filterMap numberOf, x ≤ y
    | .text => xs ++ ys = []
  | .max => match type with
    | .number => ∀ y ∈ ys.filterMap numberOf, ∃ x ∈ xs.filterMap numberOf, y ≤ x
    | .text => xs ++ ys = []
  | _ => False

def HoldsWhen : Prop := ∀ key i r place, (w.sorted lang key)[i]? = some (r, place) →
  Idle (aggFunc w.spec.fn) w.type (w.arguments (before (w.sorted lang key) i))
    (w.arguments (w.later lang (w.sorted lang key) i r))

end AggregateWindow

theorem lookup_zip_none {α : Type*} {ks : List ℕ} {vs : List α} {k : ℕ} (h : k ∉ ks) : (ks.zip vs).lookup k = none := by
  rw [List.lookup_eq_none_iff]
  intro e he
  rw [bne_iff_ne]
  intro heq
  exact h (heq ▸ (List.of_mem_zip he).1)

theorem lookup_zip {α : Type*} {ks : List ℕ} {vs : List α} (hks : ks.Nodup) {i k : ℕ} (hk : ks[i]? = some k) :
    (ks.zip vs).lookup k = vs[i]? := by
  induction ks generalizing vs i with
  | nil => cases hk
  | cons l ks ih =>
    rw [List.nodup_cons] at hks
    cases vs with
    | nil => rfl
    | cons v vs =>
      rw [List.zip_cons_cons, lookup_cons_ite]
      cases i with
      | zero =>
        have hl : l = k := Option.some.inj hk
        rw [if_pos hl.symm]
        rfl
      | succ i =>
        have hne : k ≠ l := fun heq => hks.1 (heq ▸ List.mem_of_getElem? hk)
        rw [if_neg hne]
        exact ih hks.2 hk

theorem lookup_flatMap_none {κ α : Type*} {f : κ → List (ℕ × α)} {ks : List κ} {n : ℕ}
    (h : ∀ k ∈ ks, (f k).lookup n = none) : (ks.flatMap f).lookup n = none := by
  induction ks with
  | nil => rfl
  | cons k ks ih =>
    rw [List.flatMap_cons, List.lookup_append, h k List.mem_cons_self, Option.none_or]
    exact ih fun l hl => h l (List.mem_cons_of_mem _ hl)

theorem lookup_flatMap {κ α : Type*} [DecidableEq κ] {f : κ → List (ℕ × α)} {ks : List κ} {k : κ} {n : ℕ} (hk : k ∈ ks)
    (hother : ∀ l ∈ ks, l ≠ k → (f l).lookup n = none) : (ks.flatMap f).lookup n = (f k).lookup n := by
  cases hfound : (f k).lookup n with
  | none =>
    refine lookup_flatMap_none fun l hl => ?_
    by_cases heq : l = k
    · rw [heq, hfound]
    · exact hother l hl heq
  | some v =>
    induction ks with
    | nil => cases hk
    | cons l ks ih =>
      rw [List.flatMap_cons, List.lookup_append]
      by_cases heq : l = k
      · rw [heq, hfound, Option.some_or]
      · have hmem : k ∈ ks := (List.mem_cons.mp hk).resolve_left fun hkl => heq hkl.symm
        rw [hother l List.mem_cons_self heq, Option.none_or]
        exact ih hmem fun m hm => hother m (List.mem_cons_of_mem _ hm)

section

variable {lt : JsValue → JsValue → Bool} {spec : WindowSpec} {rows : List SourceRow} {parseFloat : String → Option ℚ}

theorem mem_part {key : List JsValue} {r : SourceRow} {place : ℕ} :
    (r, place) ∈ part lt spec rows key ↔ rows[place]? = some r ∧ partitionKey r spec.partitionBy = key := by
  unfold part
  rw [List.mem_insertionSort, List.mem_filter, List.mem_zipIdx_iff_getElem?, decide_eq_true_eq]

theorem nodup_places (key : List JsValue) : ((part lt spec rows key).map Prod.snd).Nodup := by
  have hperm := (List.perm_insertionSort (Precedes lt spec.orderBy)
    (rows.zipIdx.filter fun r => partitionKey r.1 spec.partitionBy = key)).map Prod.snd
  refine hperm.nodup_iff.mpr ?_
  have hsub := (List.filter_sublist (p := fun r : SourceRow × ℕ => partitionKey r.1 spec.partitionBy = key)
    (l := rows.zipIdx)).map Prod.snd
  refine hsub.nodup ?_
  rw [List.zipIdx_map_snd]
  exact List.nodup_range'

theorem applyWindow_get {key : List JsValue} {i place : ℕ} {r : SourceRow}
    (h : (part lt spec rows key)[i]? = some (r, place)) :
    (applyWindow parseFloat lt rows spec)[place]? =
      some (match (windowValues parseFloat spec ((part lt spec rows key).map Prod.fst))[i]? with
        | some v => r.assign spec.aliasName v
        | none => r) := by
  have ⟨hrow, hkey⟩ := mem_part.mp (List.mem_of_getElem? h)
  have hmem : key ∈ distinctKeys (rows.map fun r => partitionKey r spec.partitionBy) := by
    rw [mem_distinctKeys, List.mem_map]
    exact ⟨r, List.mem_of_getElem? hrow, hkey⟩
  have hplace : ((part lt spec rows key).map Prod.snd)[i]? = some place := by
    rw [List.getElem?_map, h]
    rfl
  have hother : ∀ l ∈ distinctKeys (rows.map fun r => partitionKey r spec.partitionBy), l ≠ key →
      (((part lt spec rows l).map Prod.snd).zip
        (windowValues parseFloat spec ((part lt spec rows l).map Prod.fst))).lookup place = none := by
    intro l _ hl
    refine lookup_zip_none fun hin => ?_
    have ⟨e, he, heq⟩ := List.mem_map.mp hin
    have ⟨hat, hpart⟩ := mem_part.mp he
    rw [heq, hrow] at hat
    rw [Option.some.injEq] at hat
    exact hl (hpart.symm.trans (hat ▸ hkey))
  unfold applyWindow
  rw [List.getElem?_map, List.getElem?_zipIdx, hrow]
  simp only [Option.map_some, Nat.zero_add]
  rw [lookup_flatMap hmem hother]
  exact congrArg (fun found : Option JsValue => some (match found with
    | some v => r.assign spec.aliasName v
    | none => r)) (lookup_zip (nodup_places key) hplace)

end

def frameOf (vs : List ℚ) : Frame := { sum := vs.sum, cnt := vs.length, mn := vs.min?, mx := vs.max? }

theorem min?_snoc (vs : List ℚ) (v : ℚ) : (vs ++ [v]).min? = some (vs.min?.elim v fun m => min m v) := by
  cases vs with
  | nil => rfl
  | cons w ws =>
    rw [List.cons_append, List.min?_cons', List.min?_cons', List.foldl_append]
    rfl

theorem max?_snoc (vs : List ℚ) (v : ℚ) : (vs ++ [v]).max? = some (vs.max?.elim v fun m => max m v) := by
  cases vs with
  | nil => rfl
  | cons w ws =>
    rw [List.cons_append, List.max?_cons', List.max?_cons', List.foldl_append]
    rfl

theorem add_frameOf (vs : List ℚ) (v : Option ℚ) : (frameOf vs).add v = frameOf (vs ++ v.toList) := by
  cases v with
  | none => rw [Option.toList_none, List.append_nil]; rfl
  | some v =>
    unfold frameOf
    rw [Option.toList_some, List.sum_append, List.length_append, min?_snoc, max?_snoc, List.sum_singleton]
    rfl

theorem runningFrom_get {parseFloat : String → Option ℚ} {spec : WindowSpec} (vs : List ℚ) {part : List SourceRow} {i : ℕ}
    (hi : i < part.length) : (runningFrom parseFloat spec (frameOf vs) part)[i]? =
      some ((frameOf (vs ++ (part.take (i + 1)).filterMap (argument parseFloat spec))).value spec.fn) := by
  induction part generalizing vs i with
  | nil => exact absurd hi (Nat.not_lt_zero i)
  | cons r part ih =>
    have hfirst : (argument parseFloat spec r).toList ++ (part.take i).filterMap (argument parseFloat spec) =
        ((r :: part).take (i + 1)).filterMap (argument parseFloat spec) := by
      rw [List.take_succ_cons, List.filterMap_cons]
      cases argument parseFloat spec r with
      | none => rfl
      | some v => rfl
    rw [runningFrom, add_frameOf, ← hfirst, ← List.append_assoc]
    cases i with
    | zero =>
      rw [List.take_zero, List.filterMap_nil, List.append_nil]
      rfl
    | succ i =>
      rw [List.getElem?_cons_succ]
      exact ih _ (Nat.lt_of_succ_lt_succ hi)

theorem runningValues_get {parseFloat : String → Option ℚ} {spec : WindowSpec} {part : List SourceRow} {i : ℕ}
    (hi : i < part.length) : (runningValues parseFloat spec part)[i]? =
      some ((frameOf ((part.take (i + 1)).filterMap (argument parseFloat spec))).value spec.fn) := runningFrom_get [] hi

theorem isRunning_iff {fn : String} :
    isRunning fn = true ↔ fn = "SUM" ∨ fn = "AVG" ∨ fn = "COUNT" ∨ fn = "MIN" ∨ fn = "MAX" := by
  simp [isRunning]

theorem windowValues_running {parseFloat : String → Option ℚ} {spec : WindowSpec} (h : isRunning spec.fn = true)
    (part : List SourceRow) : windowValues parseFloat spec part = runningValues parseFloat spec part := by
  have hranking : ¬ isRanking spec.fn = true := by
    rcases isRunning_iff.mp h with hfn | hfn | hfn | hfn | hfn <;> simp [isRanking, hfn]
  have hnav : spec.fn ∉ ["LAG", "LEAD"] := by
    rcases isRunning_iff.mp h with hfn | hfn | hfn | hfn | hfn <;> simp [hfn]
  unfold windowValues
  rw [if_neg hranking, if_neg hnav, if_pos h]

namespace AggregateWindow

variable {w : AggregateWindow} {lang : Language}

theorem result_get {key : List JsValue} {i place : ℕ} {r : SourceRow}
    (h : (w.sorted lang key)[i]? = some (r, place)) :
    ((w.result lang)[place]?).bind (fun row => row.get? w.spec.aliasName) =
      some ((frameOf ((before (w.sorted lang key) i).filterMap (argument lang.parseFloat w.spec))).value w.spec.fn) := by
  have hi : i < ((w.sorted lang key).map Prod.fst).length := by
    rw [List.length_map]
    exact (List.getElem?_eq_some_iff.mp h).1
  have hget : (w.result lang)[place]? = some (match
      (windowValues lang.parseFloat w.spec ((w.sorted lang key).map Prod.fst))[i]? with
    | some v => r.assign w.spec.aliasName v
    | none => r) := applyWindow_get h
  rw [windowValues_running w.running, runningValues_get hi, ← List.map_take] at hget
  rw [hget, Option.bind_some, Record.get?_assign, if_pos rfl]
  rfl

theorem arguments_append (rs ss : List SourceRow) : w.arguments (rs ++ ss) = w.arguments rs ++ w.arguments ss := by
  unfold arguments
  split
  · exact List.map_append
  · rw [List.map_append, notNull_append]

theorem admits_arguments (hstar : w.spec.column ≠ "") {rs : List SourceRow} (hrows : ∀ r ∈ rs, r ∈ w.rows) :
    ∀ v ∈ w.arguments rs, w.type.Admits v := by
  unfold arguments
  rw [if_neg hstar]
  intro v hv
  have ⟨hmem, hnull⟩ := mem_notNull.mp hv
  have ⟨r, hr, hread⟩ := List.mem_map.mp hmem
  rw [← hread] at hnull ⊢
  exact w.typed r (hrows r hr) hnull

theorem argument_one (parseFloat : String → Option ℚ) {r : SourceRow} (hr : r ∈ w.rows) :
    ((argument parseFloat w.spec r).toList).length = (w.arguments [r]).length ∧
      (w.spec.column = "" ∨ w.type = .number →
        (argument parseFloat w.spec r).toList = (w.arguments [r]).filterMap numberOf) := by
  unfold argument arguments
  by_cases hstar : w.spec.column = ""
  · rw [if_pos hstar, if_pos hstar]
    exact ⟨rfl, fun _ => rfl⟩
  · rw [if_neg hstar, if_neg hstar]
    unfold notNull
    cases hnull : (readCol r w.spec.column).isNullish with
    | true => simp [hnull]
    | false =>
      have hkept : (([r].map fun r => readCol r w.spec.column).filter fun v => !v.isNullish) =
          [readCol r w.spec.column] := by
        simp [hnull]
      rw [hkept]
      refine ⟨rfl, fun htype => ?_⟩
      have hadmits := w.typed r hr hnull
      rw [htype.resolve_left hstar] at hadmits
      have ⟨q, hq⟩ := hadmits
      rw [hq]
      rfl

theorem numbers_arguments (parseFloat : String → Option ℚ) {rs : List SourceRow} (hrows : ∀ r ∈ rs, r ∈ w.rows) :
    (rs.filterMap (argument parseFloat w.spec)).length = (w.arguments rs).length ∧
      (w.spec.column = "" ∨ w.type = .number →
        rs.filterMap (argument parseFloat w.spec) = (w.arguments rs).filterMap numberOf) := by
  induction rs with
  | nil =>
    unfold arguments notNull
    simp
  | cons r rs ih =>
    have ⟨hlength, hnumbers⟩ := ih fun s hs => hrows s (List.mem_cons_of_mem _ hs)
    have ⟨hone, hnumber⟩ := argument_one parseFloat (hrows r List.mem_cons_self)
    have hcons := w.arguments_append [r] rs
    rw [List.singleton_append] at hcons
    have hfirst : (r :: rs).filterMap (argument parseFloat w.spec) =
        (argument parseFloat w.spec r).toList ++ rs.filterMap (argument parseFloat w.spec) := by
      rw [List.filterMap_cons]
      cases argument parseFloat w.spec r with
      | none => rfl
      | some v => rfl
    rw [hcons, hfirst, List.filterMap_append, List.length_append, List.length_append, hlength, hone]
    exact ⟨rfl, fun htype => by rw [hnumbers htype, hnumber htype]⟩

end AggregateWindow

section

variable {collation : String → String → Bool} {type : ColumnType} {xs ys : List JsValue} {vs : List ℚ}

theorem count_iff (hlength : vs.length = xs.length) :
    (frameOf vs).value "COUNT" = aggregate collation type .count (xs ++ ys) ↔ ys = [] := by
  change JsValue.num (vs.length : ℚ) = .num ((xs ++ ys).length : ℚ) ↔ _
  rw [num_inj, Nat.cast_inj, hlength, List.length_append, ← List.length_eq_zero_iff]
  omega

theorem sum_iff (hnumbers : vs = xs.filterMap numberOf) (hadmits : ∀ v ∈ xs ++ ys, ColumnType.number.Admits v) :
    (frameOf vs).value "SUM" = aggregate collation .number .sum (xs ++ ys) ↔
      xs ++ ys ≠ [] ∧ (ys.filterMap numberOf).sum = 0 := by
  change JsValue.num vs.sum = sumValue ((xs ++ ys).filterMap numberOf) ↔ _
  unfold sumValue
  by_cases hnil : xs ++ ys = []
  · rw [if_pos ((numbers_eq_nil hadmits).mpr hnil)]
    exact ⟨nofun, fun h => absurd hnil h.1⟩
  · rw [if_neg fun h => hnil ((numbers_eq_nil hadmits).mp h), num_inj, List.filterMap_append, List.sum_append,
      hnumbers, left_eq_add]
    exact ⟨fun h => ⟨hnil, h⟩, fun h => h.2⟩

theorem avg_iff (hnumbers : vs = xs.filterMap numberOf) (hlength : vs.length = xs.length) :
    (frameOf vs).value "AVG" = aggregate collation .number .avg (xs ++ ys) ↔
      ys = [] ∨ xs ≠ [] ∧
        (ys.filterMap numberOf).sum / ys.length = (xs.filterMap numberOf).sum / xs.length := by
  change (if vs.length = 0 then JsValue.null else .num (vs.sum / (vs.length : ℕ))) =
    (if xs ++ ys = [] then .null else .num (((xs ++ ys).filterMap numberOf).sum / (xs ++ ys).length)) ↔ _
  rw [hlength]
  by_cases hxs : xs = []
  · rw [if_pos (List.length_eq_zero_iff.mpr hxs), hxs, List.nil_append]
    by_cases hys : ys = []
    · rw [if_pos hys]
      exact ⟨fun _ => .inl hys, fun _ => rfl⟩
    · rw [if_neg hys]
      exact ⟨nofun, fun h => h.elim (fun heq => absurd heq hys) fun h => absurd rfl h.1⟩
  · rw [if_neg (hxs ∘ List.length_eq_zero_iff.mp), if_neg fun h => hxs (List.append_eq_nil_iff.mp h).1, num_inj, hnumbers,
      List.filterMap_append, List.sum_append, List.length_append]
    by_cases hys : ys = []
    · rw [hys]
      simp
    · have hx : (xs.length : ℚ) ≠ 0 := by simpa using hxs
      have hy : (ys.length : ℚ) ≠ 0 := by simpa using hys
      have hxy : (xs.length : ℚ) + ys.length ≠ 0 := by positivity
      push_cast
      rw [div_eq_div_iff hx hxy, div_eq_div_iff hy hx]
      constructor
      · intro h
        refine .inr ⟨hxs, ?_⟩
        linarith
      · intro h
        have h := (h.resolve_left hys).2
        linarith

theorem min_iff (hnumbers : vs = xs.filterMap numberOf) :
    (frameOf vs).value "MIN" = aggregate collation .number .min (xs ++ ys) ↔
      ∀ y ∈ ys.filterMap numberOf, ∃ x ∈ xs.filterMap numberOf, x ≤ y := by
  change PartialAggregates.optional vs.min? = PartialAggregates.optional ((xs ++ ys).filterMap numberOf).min? ↔ _
  rw [optional_inj, hnumbers, List.filterMap_append, min?_append]

theorem max_iff (hnumbers : vs = xs.filterMap numberOf) :
    (frameOf vs).value "MAX" = aggregate collation .number .max (xs ++ ys) ↔
      ∀ y ∈ ys.filterMap numberOf, ∃ x ∈ xs.filterMap numberOf, y ≤ x := by
  change PartialAggregates.optional vs.max? = PartialAggregates.optional ((xs ++ ys).filterMap numberOf).max? ↔ _
  rw [optional_inj, hnumbers, List.filterMap_append, max?_append]

theorem extreme_text_iff (number : List ℚ → Option ℚ) {le : String → String → Bool} {best : Option ℚ}
    (hbest : vs = [] → best = none) (hlength : vs.length = xs.length)
    (hadmits : ∀ v ∈ xs ++ ys, ColumnType.text.Admits v) :
    PartialAggregates.optional best = extreme number (firstText le) .text (xs ++ ys) ↔ xs ++ ys = [] := by
  rw [eq_comm, extreme_text number le hadmits _ (by cases best <;> simp [PartialAggregates.optional])]
  constructor
  · intro h
    exact h.1
  · intro hnil
    have hvs : vs = [] := by
      rw [← List.length_eq_zero_iff, hlength, (List.append_eq_nil_iff.mp hnil).1]
      rfl
    rw [hbest hvs]
    exact ⟨hnil, rfl⟩

end

namespace AggregateWindow

variable {w : AggregateWindow} {lang : Language} {xs ys : List JsValue} {vs : List ℚ}

theorem value_iff (hlength : vs.length = xs.length) (hnumbers : w.type = .number → vs = xs.filterMap numberOf)
    (hadmits : w.spec.column ≠ "" → ∀ v ∈ xs ++ ys, w.type.Admits v) :
    (frameOf vs).value w.spec.fn = aggregate lang.collation w.type (aggFunc w.spec.fn) (xs ++ ys) ↔
      Idle (aggFunc w.spec.fn) w.type xs ys := by
  have hcolumn : w.spec.fn ≠ "COUNT" → ∀ v ∈ xs ++ ys, w.type.Admits v := fun hfn =>
    hadmits fun hstar => hfn (w.starred hstar)
  rcases isRunning_iff.mp w.running with hfn | hfn | hfn | hfn | hfn
  · have htype := w.summed (.inl hfn)
    rw [htype] at hcolumn ⊢
    rw [hfn] at hcolumn ⊢
    exact sum_iff (hnumbers htype) (hcolumn (by decide))
  · have htype := w.summed (.inr hfn)
    rw [htype, hfn]
    exact avg_iff (hnumbers htype) hlength
  · rw [hfn]
    exact count_iff hlength
  · rw [hfn] at hcolumn ⊢
    cases htype : w.type with
    | number => exact min_iff (hnumbers htype)
    | text =>
      rw [htype] at hcolumn
      exact extreme_text_iff List.min? (fun h => by rw [h]; rfl) hlength (hcolumn (by decide))
  · rw [hfn] at hcolumn ⊢
    cases htype : w.type with
    | number => exact max_iff (hnumbers htype)
    | text =>
      rw [htype] at hcolumn
      exact extreme_text_iff List.max? (fun h => by rw [h]; rfl) hlength (hcolumn (by decide))

theorem frame_rows {key : List JsValue} {i : ℕ} {r s : SourceRow}
    (h : s ∈ before (w.sorted lang key) i ∨ s ∈ w.later lang (w.sorted lang key) i r) : s ∈ w.rows := by
  have hsorted : ∀ e ∈ w.sorted lang key, e.1 ∈ w.rows := fun e he =>
    List.mem_of_getElem? (mem_part.mp he).1
  rcases h with h | h
  · have ⟨e, he, heq⟩ := List.mem_map.mp h
    exact heq ▸ hsorted e (List.mem_of_mem_take he)
  · have ⟨e, he, heq⟩ := List.mem_map.mp (List.mem_filter.mp h).1
    exact heq ▸ hsorted e (List.mem_of_mem_drop he)

end AggregateWindow

def texts : Language where
  lt a b := match a, b with
    | .str s, .str t => s < t
    | _, _ => false
  collation s t := s ≤ t
  parseFloat _ := none

def dayRow (day : String) (amount : ℕ) : SourceRow := (Record.empty.assign "day" (.str day)).assign "amount" (.num amount)

/-- COUNT(amount) OVER (ORDER BY day) over two rows of one day -/
def tiedDays : AggregateWindow where
  spec := { fn := "COUNT", column := "amount", partitionBy := [], orderBy := [⟨"day", false⟩], aliasName := "n", offset := none }
  type := .number
  rows := [dayRow "monday" 10, dayRow "monday" 20]
  running := by decide
  starred := nofun
  summed _ := rfl
  typed r hr _ := by
    rw [List.mem_pair] at hr
    cases hr with
    | inl h => exact ⟨10, by rw [h]; rfl⟩
    | inr h => exact ⟨20, by rw [h]; rfl⟩

end DataFabric.RunningWindows
