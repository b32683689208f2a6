import DataFabric.RunningWindows
import DataFabric.StableSorts

set_option autoImplicit false

/-!
# Several windows over the same rows

Every window writes its alias into the rows that the next one reads. A window reads the columns of its
PARTITION BY and ORDER BY and its own column, by their full names, by their last names, or by the first
column with the same last name.
-/
namespace DataFabric.WindowInterference
open JsValues OrderedRecords FederatedJoins Aggregates SetOperations StableSorts Windows RunningWindows

def isNavigation (fn : String) : Bool := fn ∈ ["LAG", "LEAD"]

def computes (spec : WindowSpec) : Bool := isRanking spec.fn || isNavigation spec.fn || isRunning spec.fn

def valueColumns (spec : WindowSpec) : List String :=
  if isNavigation spec.fn || (isRunning spec.fn && spec.column ≠ "") then [spec.column] else []

def reads (spec : WindowSpec) : List String :=
  if computes spec then spec.partitionBy ++ spec.orderBy.map SortKey.column ++ valueColumns spec else []

/-- The column that stands for a name without a column of its own. -/
def sameBase (row : SourceRow) (c : String) : Option (String × JsValue) :=
  row.entries.find? fun e => baseColumn e.1 = baseColumn c

/-- What is written under the alias is not read for the column. -/
def Unread (row : SourceRow) (aliasName c : String) : Prop :=
  aliasName ≠ c ∧ ((row.get? c).isSome = true ∨ aliasName ≠ baseColumn c ∧ ((row.get? (baseColumn c)).isSome = true ∨
    baseColumn aliasName ≠ baseColumn c ∨ ∃ e, sameBase row c = some e ∧ e.1 ≠ aliasName))

/-- The second window writes nothing that the first one reads or writes. -/
def Apart (rows : List SourceRow) (a b : WindowSpec) : Prop :=
  computes b = true → b.aliasName ≠ a.aliasName ∧ ∀ row ∈ rows, ∀ c ∈ reads a, Unread row b.aliasName c

def HoldsWhen (rows : List SourceRow) (specs : List WindowSpec) : Prop :=
  specs.Pairwise fun a b => Apart rows a b ∧ Apart rows b a

section

variable (parseFloat : String → Option ℚ) (lt : JsValue → JsValue → Bool)

def valueAt (rows : List SourceRow) (aliasName : String) (place : ℕ) : Option JsValue :=
  rows[place]?.bind fun row => row.get? aliasName

/-- In any order of the windows each alias has the values of its window alone. -/
def Independent (rows : List SourceRow) (specs : List WindowSpec) : Prop :=
  ∀ specs', specs'.Perm specs → ∀ spec ∈ specs, ∀ place,
    valueAt (applyWindows parseFloat lt rows specs') spec.aliasName place =
      valueAt (applyWindow parseFloat lt rows spec) spec.aliasName place

end

/-- Both rows are read in the same way for the column, and with the same value. -/
inductive SameColumn (c : String) (r s : SourceRow) : Prop
  | own (v : JsValue) : r.get? c = some v → s.get? c = some v → SameColumn c r s
  | base (v : JsValue) : r.get? c = none → s.get? c = none → r.get? (baseColumn c) = some v →
      s.get? (baseColumn c) = some v → SameColumn c r s
  | other : r.get? c = none → s.get? c = none → r.get? (baseColumn c) = none → s.get? (baseColumn c) = none →
      sameBase r c = sameBase s c → SameColumn c r s

section

variable {c : String} {r s : SourceRow}

theorem SameColumn.refl (c : String) (r : SourceRow) : SameColumn c r r := by
  cases hown : r.get? c with
  | some v => exact .own v hown hown
  | none =>
    cases hbase : r.get? (baseColumn c) with
    | some v => exact .base v hown hown hbase hbase
    | none => exact .other hown hown hbase hbase rfl

theorem SameColumn.readCol_eq (h : SameColumn c r s) : readCol r c = readCol s c := by
  unfold readCol
  cases h with
  | own v hr hs => rw [hr, hs]
  | base v hr hs hrb hsb => rw [hr, hs, hrb, hsb]
  | other hr hs hrb hsb hsame =>
    unfold sameBase at hsame
    rw [hr, hs, hrb, hsb, hsame]

theorem find?_assignEntry {k : String} {v : JsValue} {es : List (String × JsValue)} (q : String → Bool) :
    (assignEntry k v es).find? (fun e => q e.1) = if q k = true then
      some (((es.find? fun e => q e.1).map fun e => if e.1 = k then (k, v) else e).getD (k, v))
    else es.find? fun e => q e.1 := by
  induction es with
  | nil =>
    change List.find? (fun e => q e.1) [(k, v)] = _
    rw [List.find?_cons]
    cases q k <;> simp
  | cons e es ih =>
    rw [Record.assignEntry_cons]
    by_cases hek : e.1 = k
    · rw [if_pos hek, List.find?_cons, List.find?_cons]
      subst hek
      cases q e.1 <;> simp
    · rw [if_neg hek, List.find?_cons, List.find?_cons, ih]
      cases hq : q e.1 with
      | true => cases hk : q k <;> simp [hek]
      | false => rfl

theorem sameBase_assign (r : SourceRow) (k c : String) (v : JsValue) : sameBase (r.assign k v) c =
    if baseColumn k = baseColumn c then
      some (((sameBase r c).map fun e => if e.1 = k then (k, v) else e).getD (k, v))
    else sameBase r c := by
  have h := @find?_assignEntry k v r.entries fun name => baseColumn name = baseColumn c
  simp only [decide_eq_true_eq] at h
  exact h

theorem SameColumn.assign (h : SameColumn c r s) (k : String) (v : JsValue) :
    SameColumn c (r.assign k v) (s.assign k v) := by
  by_cases hc : c = k
  · exact .own v (by rw [Record.get?_assign, if_pos hc]) (by rw [Record.get?_assign, if_pos hc])
  · have hget : ∀ t : SourceRow, (t.assign k v).get? c = t.get? c := fun t => by rw [Record.get?_assign, if_neg hc]
    cases h with
    | own w hr hs => exact .own w ((hget r).trans hr) ((hget s).trans hs)
    | base w hr hs hrb hsb =>
      by_cases hb : baseColumn c = k
      · exact .base v ((hget r).trans hr) ((hget s).trans hs) (by rw [Record.get?_assign, if_pos hb])
          (by rw [Record.get?_assign, if_pos hb])
      · exact .base w ((hget r).trans hr) ((hget s).trans hs) (by rw [Record.get?_assign, if_neg hb, hrb])
          (by rw [Record.get?_assign, if_neg hb, hsb])
    | other hr hs hrb hsb hsame =>
      by_cases hb : baseColumn c = k
      · exact .base v ((hget r).trans hr) ((hget s).trans hs) (by rw [Record.get?_assign, if_pos hb])
          (by rw [Record.get?_assign, if_pos hb])
      · exact .other ((hget r).trans hr) ((hget s).trans hs) (by rw [Record.get?_assign, if_neg hb, hrb])
          (by rw [Record.get?_assign, if_neg hb, hsb]) (by rw [sameBase_assign, sameBase_assign, hsame])

theorem SameColumn.write (h : SameColumn c r s) {k : String} (hunread : Unread r k c) (v : JsValue) :
    SameColumn c r (s.assign k v) := by
  have hget : (s.assign k v).get? c = s.get? c := by
    rw [Record.get?_assign, if_neg hunread.1.symm]
  cases h with
  | own w hr hs => exact .own w hr (hget.trans hs)
  | base w hr hs hrb hsb =>
    have hbase := hunread.2.resolve_left (by rw [hr]; decide)
    exact .base w hr (hget.trans hs) hrb (by rw [Record.get?_assign, if_neg hbase.1.symm, hsb])
  | other hr hs hrb hsb hsame =>
    have hbase := hunread.2.resolve_left (by rw [hr]; decide)
    have hsecond := hbase.2.resolve_left (by rw [hrb]; decide)
    refine .other hr (hget.trans hs) hrb (by rw [Record.get?_assign, if_neg hbase.1.symm, hsb]) ?_
    rw [sameBase_assign, ← hsame]
    rcases hsecond with hne | ⟨e, he, hne⟩
    · rw [if_neg hne]
    · split
      · rw [he, Option.map_some, if_neg hne]
        rfl
      · rfl

end

def SameFor (spec : WindowSpec) (r s : SourceRow) : Prop :=
  (∀ c ∈ reads spec, SameColumn c r s) ∧ s.get? spec.aliasName = r.get? spec.aliasName

section

variable {parseFloat : String → Option ℚ} {lt : JsValue → JsValue → Bool} {spec : WindowSpec}

theorem SameFor.assign {r s : SourceRow} (h : SameFor spec r s) (v : JsValue) :
    SameFor spec (r.assign spec.aliasName v) (s.assign spec.aliasName v) := by
  refine ⟨fun c hc => (h.1 c hc).assign spec.aliasName v, ?_⟩
  rw [Record.get?_assign, Record.get?_assign, if_pos rfl, if_pos rfl]

theorem mem_reads (hcomputes : computes spec = true) {c : String} :
    c ∈ reads spec ↔ c ∈ spec.partitionBy ∨ c ∈ spec.orderBy.map SortKey.column ∨ c ∈ valueColumns spec := by
  unfold reads
  rw [if_pos hcomputes, List.mem_append, List.mem_append, or_assoc]

variable (hcomputes : computes spec = true)

include hcomputes

theorem partitionKey_same {r s : SourceRow} (h : SameFor spec r s) :
    partitionKey r spec.partitionBy = partitionKey s spec.partitionBy := by
  unfold partitionKey
  refine List.map_congr_left fun c hc => ?_
  rw [(h.1 c ((mem_reads hcomputes).mpr (.inl hc))).readCol_eq]

theorem readOrder_same {r s : SourceRow} (h : SameFor spec r s) {o : SortKey} (ho : o ∈ spec.orderBy) :
    readCol r o.column = readCol s o.column :=
  (h.1 o.column ((mem_reads hcomputes).mpr (.inr (.inl (List.mem_map_of_mem ho))))).readCol_eq

theorem orderKey_same {r s : SourceRow} (h : SameFor spec r s) : orderKey spec.orderBy r = orderKey spec.orderBy s := by
  unfold orderKey
  refine List.map_congr_left fun o ho => ?_
  rw [readOrder_same hcomputes h ho]

theorem comparator_same {r s r' s' : SourceRow} (h : SameFor spec r s) (h' : SameFor spec r' s') :
    comparator lt spec.orderBy r r' = comparator lt spec.orderBy s s' := by
  have hread : ∀ orderBy : List SortKey, (∀ o ∈ orderBy, o ∈ spec.orderBy) →
      comparator lt orderBy r r' = comparator lt orderBy s s' := by
    intro orderBy hsub
    induction orderBy with
    | nil => rfl
    | cons o orderBy ih =>
      have ho := hsub o List.mem_cons_self
      unfold comparator
      rw [readOrder_same hcomputes h ho, readOrder_same hcomputes h' ho,
        ih fun p hp => hsub p (List.mem_cons_of_mem _ hp)]
  exact hread spec.orderBy fun o ho => ho

theorem value_same {r s : SourceRow} (h : SameFor spec r s) (hvalue : valueColumns spec = [spec.column]) :
    readCol r spec.column = readCol s spec.column :=
  (h.1 spec.column ((mem_reads hcomputes).mpr (.inr (.inr (hvalue ▸ List.mem_singleton_self _))))).readCol_eq

theorem ranks_same {part part' : List SourceRow} (h : List.Forall₂ (SameFor spec) part part') {i rank dense : ℕ}
    {prevKey : Option (List JsValue)} :
    ranks spec.orderBy i rank dense prevKey part = ranks spec.orderBy i rank dense prevKey part' := by
  induction h generalizing i rank dense prevKey with
  | nil => rfl
  | cons hab _ ih =>
    unfold ranks
    rw [orderKey_same hcomputes hab]
    split
    · rw [ih]
    · rw [ih]

theorem navigated_same (hnav : isNavigation spec.fn = true) {part part' : List SourceRow}
    (h : List.Forall₂ (SameFor spec) part part') (i : ℕ) : navigated spec part i = navigated spec part' i := by
  have hvalue : valueColumns spec = [spec.column] := by
    unfold valueColumns
    rw [hnav]
    rfl
  have hget : ∀ j : ℕ, (part[j]?.map fun r => readCol r spec.column) = part'[j]?.map fun r => readCol r spec.column := by
    intro j
    induction h generalizing j with
    | nil => rfl
    | cons hab _ ih =>
      cases j with
      | zero => exact congrArg some (value_same hcomputes hab hvalue)
      | succ j => exact ih j
  unfold navigated
  simp only
  generalize (if spec.fn = "LAG" then (i : ℤ) - spec.offset.getD 1 else (i : ℤ) + spec.offset.getD 1) = j
  split
  · have hj := hget j.toNat
    cases hr : part[j.toNat]? with
    | none =>
      rw [hr] at hj
      rw [Option.map_eq_none_iff.mp hj.symm]
    | some r =>
      rw [hr, Option.map_some] at hj
      have ⟨s, hs, heq⟩ := Option.map_eq_some_iff.mp hj.symm
      rw [hs]
      exact congrArg (fun v => orElse v .null) heq.symm
  · rfl

omit hcomputes in
theorem forall₂_modify {part part' : List SourceRow} (h : List.Forall₂ (SameFor spec) part part') (i : ℕ) (v : JsValue) :
    List.Forall₂ (SameFor spec) (part.modify i fun r => r.assign spec.aliasName v)
      (part'.modify i fun r => r.assign spec.aliasName v) := by
  induction h generalizing i with
  | nil =>
    rw [List.modify_nil]
    exact .nil
  | cons hab hrest ih =>
    cases i with
    | zero =>
      rw [List.modify_zero_cons, List.modify_zero_cons]
      exact .cons (hab.assign v) hrest
    | succ i =>
      rw [List.modify_succ_cons, List.modify_succ_cons]
      exact .cons hab (ih i)

theorem navValues_same (hnav : isNavigation spec.fn = true) {part part' : List SourceRow}
    (h : List.Forall₂ (SameFor spec) part part') : navValues spec part = navValues spec part' := by
  have hrun : ∀ (places : List ℕ) (acc acc' : List SourceRow × List JsValue), List.Forall₂ (SameFor spec) acc.1 acc'.1 →
      acc.2 = acc'.2 →
      (places.foldl (fun (acc : List SourceRow × List JsValue) i =>
        let v := navigated spec acc.1 i
        (acc.1.modify i fun r => r.assign spec.aliasName v, acc.2 ++ [v])) acc).2 =
      (places.foldl (fun (acc : List SourceRow × List JsValue) i =>
        let v := navigated spec acc.1 i
        (acc.1.modify i fun r => r.assign spec.aliasName v, acc.2 ++ [v])) acc').2 := by
    intro places
    induction places with
    | nil => exact fun _ _ _ hvalues => hvalues
    | cons i places ih =>
      intro acc acc' hrows hvalues
      rw [List.foldl_cons, List.foldl_cons]
      refine ih _ _ ?_ ?_
      · simp only [navigated_same hcomputes hnav hrows i]
        exact forall₂_modify hrows i _
      · simp only [navigated_same hcomputes hnav hrows i, hvalues]
  unfold navValues
  rw [h.length_eq]
  exact hrun _ _ _ h rfl

theorem argument_same (hrunning : isRunning spec.fn = true) {r s : SourceRow} (h : SameFor spec r s) :
    argument parseFloat spec r = argument parseFloat spec s := by
  unfold argument
  by_cases hcolumn : spec.column = ""
  · rw [if_pos hcolumn, if_pos hcolumn]
  · have hvalue : valueColumns spec = [spec.column] := by
      unfold valueColumns
      rw [hrunning, Bool.true_and, decide_eq_true hcolumn, Bool.or_true]
      rfl
    rw [value_same hcomputes h hvalue]

theorem runningValues_same (hrunning : isRunning spec.fn = true) {part part' : List SourceRow}
    (h : List.Forall₂ (SameFor spec) part part') : runningValues parseFloat spec part = runningValues parseFloat spec part' := by
  have hrun : ∀ f : Frame, runningFrom parseFloat spec f part = runningFrom parseFloat spec f part' := by
    induction h with
    | nil => exact fun _ => rfl
    | cons hab _ ih =>
      intro f
      unfold runningFrom
      rw [argument_same hcomputes hrunning hab]
      exact congrArg (List.cons _) (ih _)
  exact hrun {}

theorem windowValues_same {part part' : List SourceRow} (h : List.Forall₂ (SameFor spec) part part') :
    windowValues parseFloat spec part = windowValues parseFloat spec part' := by
  unfold windowValues
  by_cases hranking : isRanking spec.fn = true
  · rw [if_pos hranking, if_pos hranking]
    unfold rankingValues
    rw [ranks_same hcomputes h]
  · rw [if_neg hranking, if_neg hranking]
    by_cases hnav : spec.fn ∈ ["LAG", "LEAD"]
    · rw [if_pos hnav, if_pos hnav]
      exact navValues_same hcomputes (decide_eq_true hnav) h
    · rw [if_neg hnav, if_neg hnav]
      by_cases hrunning : isRunning spec.fn = true
      · rw [if_pos hrunning, if_pos hrunning]
        exact runningValues_same hcomputes hrunning h
      · rw [if_neg hrunning, if_neg hrunning]

omit hcomputes in
theorem forall₂_zipIdx {rows rows' : List SourceRow} (h : List.Forall₂ (SameFor spec) rows rows') (n : ℕ) :
    List.Forall₂ (fun a b => SameFor spec a.1 b.1 ∧ a.2 = b.2) (rows.zipIdx n) (rows'.zipIdx n) := by
  induction h generalizing n with
  | nil => exact .nil
  | cons hab _ ih =>
    rw [List.zipIdx_cons, List.zipIdx_cons]
    exact .cons ⟨hab, rfl⟩ (ih (n + 1))

theorem forall₂_part {rows rows' : List SourceRow} (h : List.Forall₂ (SameFor spec) rows rows') (key : List JsValue) :
    List.Forall₂ (fun a b => SameFor spec a.1 b.1 ∧ a.2 = b.2) (part lt spec rows key) (part lt spec rows' key) := by
  unfold part
  refine forall₂_insertionSort ?_ ?_
  · have hzip := forall₂_zipIdx h 0
    generalize rows.zipIdx 0 = xs at hzip
    generalize rows'.zipIdx 0 = ys at hzip
    induction hzip with
    | nil => exact .nil
    | cons hab _ ih =>
      rw [List.filter_cons, List.filter_cons, partitionKey_same hcomputes hab.1]
      split
      · exact .cons hab ih
      · exact ih
  · intro a b c d hab hcd
    unfold Precedes
    rw [comparator_same hcomputes hab.1 hcd.1]

end

section

variable (parseFloat : String → Option ℚ) (lt : JsValue → JsValue → Bool)

def written (rows : List SourceRow) (spec : WindowSpec) : List (ℕ × JsValue) :=
  (distinctKeys (rows.map fun r => partitionKey r spec.partitionBy)).flatMap fun key =>
    ((part lt spec rows key).map Prod.snd).zip (windowValues parseFloat spec ((part lt spec rows key).map Prod.fst))

def writeTo (values : List (ℕ × JsValue)) (aliasName : String) (r : SourceRow × ℕ) : SourceRow :=
  (values.lookup r.2).elim r.1 fun v => r.1.assign aliasName v

end

section

variable {parseFloat : String → Option ℚ} {lt : JsValue → JsValue → Bool} {spec : WindowSpec}

theorem applyWindow_eq (rows : List SourceRow) :
    applyWindow parseFloat lt rows spec = rows.zipIdx.map (writeTo (written parseFloat lt rows spec) spec.aliasName) := by
  unfold applyWindow writeTo written
  refine List.map_congr_left fun r _ => ?_
  dsimp only
  split
  · rename_i v found
    rw [found]
    rfl
  · rename_i missing
    rw [missing]
    rfl

theorem map_writeTo_nil (aliasName : String) (rows : List SourceRow) (n : ℕ) :
    (rows.zipIdx n).map (writeTo [] aliasName) = rows := by
  induction rows generalizing n with
  | nil => rfl
  | cons r rows ih =>
    rw [List.zipIdx_cons, List.map_cons, ih]
    rfl

theorem applyWindow_idle (hcomputes : computes spec = false) (rows : List SourceRow) :
    applyWindow parseFloat lt rows spec = rows := by
  unfold computes at hcomputes
  rw [Bool.or_eq_false_iff, Bool.or_eq_false_iff] at hcomputes
  have hvalues : ∀ rs : List SourceRow, windowValues parseFloat spec rs = [] := by
    intro rs
    unfold windowValues
    rw [if_neg (Bool.eq_false_iff.mp hcomputes.1.1), if_neg (of_decide_eq_false hcomputes.1.2),
      if_neg (Bool.eq_false_iff.mp hcomputes.2)]
  have hnone : written parseFloat lt rows spec = [] := by
    unfold written
    rw [List.flatMap_eq_nil_iff]
    intro key _
    rw [hvalues, List.zip_nil_right]
  rw [applyWindow_eq, hnone, map_writeTo_nil]

theorem written_same (hcomputes : computes spec = true) {rows rows' : List SourceRow}
    (h : List.Forall₂ (SameFor spec) rows rows') : written parseFloat lt rows spec = written parseFloat lt rows' spec := by
  have hkeys : (rows.map fun r => partitionKey r spec.partitionBy) = rows'.map fun r => partitionKey r spec.partitionBy := by
    induction h with
    | nil => rfl
    | cons hab _ ih => rw [List.map_cons, List.map_cons, partitionKey_same hcomputes hab, ih]
  unfold written
  rw [hkeys]
  refine congrArg List.flatten (List.map_congr_left fun key _ => ?_)
  have hpart := @forall₂_part lt spec hcomputes rows rows' h key
  generalize part lt spec rows key = xs at hpart
  generalize part lt spec rows' key = ys at hpart
  have hplaces : xs.map Prod.snd = ys.map Prod.snd := by
    induction hpart with
    | nil => rfl
    | cons hab _ ih => rw [List.map_cons, List.map_cons, hab.2, ih]
  have hrows : List.Forall₂ (SameFor spec) (xs.map Prod.fst) (ys.map Prod.fst) := by
    rw [List.forall₂_map_left_iff, List.forall₂_map_right_iff]
    exact hpart.imp fun _ _ hab => hab.1
  rw [hplaces, windowValues_same hcomputes hrows]

theorem applyWindow_at (rows : List SourceRow) (place : ℕ) : (applyWindow parseFloat lt rows spec)[place]? =
    rows[place]?.map fun r => writeTo (written parseFloat lt rows spec) spec.aliasName (r, place) := by
  rw [applyWindow_eq, List.getElem?_map, List.getElem?_zipIdx, Nat.zero_add, Option.map_map]
  rfl

theorem writeTo_get (values : List (ℕ × JsValue)) (aliasName : String) (r : SourceRow × ℕ) :
    (writeTo values aliasName r).get? aliasName = (values.lookup r.2).or (r.1.get? aliasName) := by
  unfold writeTo
  cases values.lookup r.2 with
  | none => rfl
  | some v => exact (Record.get?_assign _ _ _ _).trans (if_pos rfl)

theorem forall₂_get {rows rows' : List SourceRow} (h : List.Forall₂ (SameFor spec) rows rows') (place : ℕ) :
    rows[place]?.map (fun r => r.get? spec.aliasName) = rows'[place]?.map fun r => r.get? spec.aliasName := by
  induction h generalizing place with
  | nil => rfl
  | cons hab _ ih =>
    cases place with
    | zero => exact congrArg some hab.2.symm
    | succ place => exact ih place

theorem valueAt_same {rows rows' : List SourceRow} (h : List.Forall₂ (SameFor spec) rows rows') (place : ℕ) :
    valueAt (applyWindow parseFloat lt rows spec) spec.aliasName place =
      valueAt (applyWindow parseFloat lt rows' spec) spec.aliasName place := by
  have hget := forall₂_get h place
  have hjoin : ∀ (o : Option SourceRow) (f : Option JsValue → Option JsValue),
      (o.bind fun r => f (r.get? spec.aliasName)) = (o.map fun r => r.get? spec.aliasName).bind f := by
    intro o f
    cases o <;> rfl
  unfold valueAt
  cases hcomputes : computes spec with
  | false =>
    rw [applyWindow_idle hcomputes, applyWindow_idle hcomputes]
    have hrows := hjoin rows[place]? id
    rw [hget, ← hjoin rows'[place]? id] at hrows
    exact hrows
  | true =>
    rw [applyWindow_at, applyWindow_at, Option.bind_map, Option.bind_map, written_same hcomputes h]
    have hvalue : ∀ r : SourceRow, ((fun row : SourceRow => row.get? spec.aliasName) ∘
        fun r => writeTo (written parseFloat lt rows' spec) spec.aliasName (r, place)) r =
        ((written parseFloat lt rows' spec).lookup place).or (r.get? spec.aliasName) := fun r => writeTo_get _ _ _
    rw [funext hvalue, hjoin _ fun v => ((written parseFloat lt rows' spec).lookup place).or v, hget,
      ← hjoin _ fun v => ((written parseFloat lt rows' spec).lookup place).or v]

theorem forall₂_applyWindow {other : WindowSpec} {rows rows' : List SourceRow} (hapart : Apart rows spec other)
    (h : List.Forall₂ (SameFor spec) rows rows') :
    List.Forall₂ (SameFor spec) rows (applyWindow parseFloat lt rows' other) := by
  cases hcomputes : computes other with
  | false =>
    rw [applyWindow_idle hcomputes]
    exact h
  | true =>
    have ⟨halias, hunread⟩ := hapart hcomputes
    rw [applyWindow_eq]
    generalize written parseFloat lt rows' other = values
    have hrun : ∀ n, List.Forall₂ (SameFor spec) rows ((rows'.zipIdx n).map (writeTo values other.aliasName)) := by
      clear hapart
      induction h with
      | nil => exact fun _ => .nil
      | @cons r s rows rows' hab _ ih =>
        intro n
        rw [List.zipIdx_cons, List.map_cons]
        refine .cons ?_ (ih (fun row hrow => hunread row (List.mem_cons_of_mem r hrow)) (n + 1))
        unfold writeTo
        cases values.lookup n with
        | none => exact hab
        | some v =>
          refine ⟨fun c hc => (hab.1 c hc).write (hunread r List.mem_cons_self c hc) v, ?_⟩
          change (s.assign other.aliasName v).get? spec.aliasName = _
          rw [Record.get?_assign, if_neg halias.symm, hab.2]
    exact hrun 0

theorem valueAt_kept {aliasName : String} {specs : List WindowSpec}
    (h : ∀ other ∈ specs, computes other = true → other.aliasName ≠ aliasName) (rows : List SourceRow) (place : ℕ) :
    valueAt (applyWindows parseFloat lt rows specs) aliasName place = valueAt rows aliasName place := by
  induction specs generalizing rows with
  | nil => rfl
  | cons other specs ih =>
    change valueAt (applyWindows parseFloat lt (applyWindow parseFloat lt rows other) specs) aliasName place = _
    rw [ih fun o ho => h o (List.mem_cons_of_mem other ho)]
    cases hcomputes : computes other with
    | false => rw [applyWindow_idle hcomputes]
    | true =>
      have halias := h other List.mem_cons_self hcomputes
      unfold valueAt
      rw [applyWindow_at, Option.bind_map]
      refine congrArg rows[place]?.bind (funext fun r => ?_)
      change (writeTo (written parseFloat lt rows other) other.aliasName (r, place)).get? aliasName = _
      unfold writeTo
      cases (written parseFloat lt rows other).lookup place with
      | none => rfl
      | some v => exact (Record.get?_assign _ _ _ _).trans (if_neg halias.symm)

theorem valueAt_run {rows : List SourceRow} {specs : List WindowSpec} (hapart : HoldsWhen rows specs)
    (rows' : List SourceRow) (h : ∀ spec ∈ specs, List.Forall₂ (SameFor spec) rows rows') :
    ∀ spec ∈ specs, ∀ place, valueAt (applyWindows parseFloat lt rows' specs) spec.aliasName place =
      valueAt (applyWindow parseFloat lt rows spec) spec.aliasName place := by
  induction specs generalizing rows' with
  | nil => exact fun _ hspec => absurd hspec List.not_mem_nil
  | cons first specs ih =>
    have hcons := List.pairwise_cons.mp hapart
    intro spec hspec place
    change valueAt (applyWindows parseFloat lt (applyWindow parseFloat lt rows' first) specs) spec.aliasName place = _
    rcases List.mem_cons.mp hspec with rfl | hspec
    · rw [valueAt_kept fun other hother hcomputes => ((hcons.1 other hother).1 hcomputes).1]
      exact (valueAt_same (h spec List.mem_cons_self) place).symm
    · refine ih hcons.2 (applyWindow parseFloat lt rows' first) (fun other hother => ?_) spec hspec place
      exact forall₂_applyWindow (hcons.1 other hother).2 (h other (List.mem_cons_of_mem first hother))

/-- Windows of which none writes what another one reads or writes have the values they have alone, in any order. -/
theorem independent_of_apart (parseFloat : String → Option ℚ) (lt : JsValue → JsValue → Bool) (rows : List SourceRow)
    (specs : List WindowSpec) (h : HoldsWhen rows specs) : Independent parseFloat lt rows specs := by
  intro specs' hperm spec hspec
  have hapart : HoldsWhen rows specs' := hperm.symm.pairwise h fun hab => hab.symm
  refine valueAt_run hapart rows (fun other _ => ?_) spec (hperm.mem_iff.mpr hspec)
  rw [List.forall₂_same]
  exact fun r _ => ⟨fun c _ => SameColumn.refl c r, rfl⟩

end

def amountRow (x : ℕ) : SourceRow := Record.empty.assign "x" (.num x)

def numbered (aliasName : String) : WindowSpec where
  fn := "ROW_NUMBER"
  column := ""
  partitionBy := []
  orderBy := []
  aliasName := aliasName
  offset := none

def summed : WindowSpec := { numbered "total" with fn := "SUM", column := "x" }

theorem independent_of_apart_sum : HoldsWhen [amountRow 5, amountRow 3] [numbered "n", summed] ∧
    Independent (fun _ => none) (fun _ _ => false) [amountRow 5, amountRow 3] [numbered "n", summed] := by
  have h : HoldsWhen [amountRow 5, amountRow 3] [numbered "n", summed] := by
    unfold HoldsWhen Apart Unread
    decide +kernel
  exact ⟨h, independent_of_apart _ _ _ _ h⟩

/-- Row numbers under the name of a column are what is summed up. -/
theorem summed_numbers : ¬ ∀ (parseFloat : String → Option ℚ) (lt : JsValue → JsValue → Bool) (rows : List SourceRow)
    (specs : List WindowSpec), Independent parseFloat lt rows specs := by
  intro h
  have hsum := h (fun _ => none) (fun _ _ => false) [amountRow 5, amountRow 3] [numbered "x", summed]
    [numbered "x", summed] (List.Perm.refl _) summed (by decide +kernel) 0
  revert hsum
  decide +kernel

end DataFabric.WindowInterference
