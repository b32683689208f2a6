import DataFabric.JoinPipelines

set_option autoImplicit false

/-!
# Joins of ordered rows

The pipeline of a join over rows with ordered properties, each leg fetched with the columns
that it is asked for. The legs, the windows and the caps are those of the executor.
-/
namespace DataFabric.JoinedRecords
open CharText JsValues KeyedJoins OrderedRecords FederatedJoins JoinReordering JoinStrategies JoinPipelines

/-- A source answers with the columns it is asked for, in an order of its own. -/
structure Projection where
  project : List String → SourceRow → SourceRow
  columns : ∀ cols r k, (project cols r).get? k = if k ∈ cols then r.get? k else none

/-- The columns each leg is asked for, `none` for all of them. -/
abbrev LegColumns := String → Option (List String)

def Projection.fetch (P : Projection) : Option (List String) → SourceRow → SourceRow
  | none, r => r
  | some cols, r => P.project cols r

theorem columnPath_injective (a : String) : Function.Injective (columnPath a) := by
  intro c d h
  have hlists := congrArg String.toList h
  simp only [columnPath, String.toList_append, List.append_assoc, List.append_cancel_left_eq] at hlists
  exact String.toList_inj.mp hlists

def qualifyRecord (a : String) (r : SourceRow) : SourceRow where
  entries := r.entries.map fun e => (columnPath a e.1, e.2)
  distinct := by
    rw [List.map_map]
    change (r.entries.map (columnPath a ∘ Prod.fst)).Nodup
    rw [← List.map_map]
    exact r.distinct.map (columnPath_injective a)

def mergedRecord : SourceRow × Option SourceRow → SourceRow
  | (l, some r) => l.spread r
  | (l, none) => l

def mergeRecords (c : LooseComparison) (lm : Leg) (left right : List SourceRow) : List SourceRow :=
  (outerPairs lm.keepUnmatchedLeft (fun l r => lm.matched c l.get? r.get?) left right).map mergedRecord

def legRecords (P : Projection) (select : LegColumns) (a : String) (rows : List SourceRow) : List SourceRow :=
  rows.map fun r => qualifyRecord a (P.fetch (select a) r)

structure Context where
  settings : JoinSettings
  comparison : LooseComparison
  cap : ℕ
  cards : Cards
  contents : Contents

namespace Context

variable (x : Context)

/-- The rows a leg answers with; without keys a bound leg is not fetched, and every fetch is cut at the cap. -/
def fetched (lm : Leg) (acc : List SourceRow) : List SourceRow :=
  let rows := x.contents lm.aliasName
  if lm.canBind then
    let keys := bindKeys (acc.map Record.get?) lm.on
    if keys = [] then []
    else (chunk x.settings.bindMax keys).flatMap fun ks =>
      (rows.filter fun r => x.settings.sourceIn (column r (baseColumn lm.on.right)) ks).take x.cap
  else rows.take x.cap

def innerEqui (lm : Leg) : Bool := lm.joinType = "INNER" && lm.isEquiJoin

def bestIdx (fromAlias : String) (joins : List Leg) : ℕ :=
  if joins.all innerEqui then
    drivingIndex x.cards (⟨fromAlias, none⟩ :: joins.map fun lm => ⟨lm.aliasName, some lm.on⟩)
  else 0

/-- The chosen leg and the FROM leg change places, the chosen ON turned around. -/
def arranged (fromAlias : String) (joins : List Leg) : String × List Leg :=
  match x.bestIdx fromAlias joins with
  | 0 => (fromAlias, joins)
  | k + 1 =>
    match joins[k]? with
    | some chosen => (chosen.aliasName, joins.set k ⟨fromAlias, "INNER", chosen.on.flip, chosen.operator⟩)
    | none => (fromAlias, joins)

def small (a : String) : Bool := (x.cards a).any (· ≤ x.settings.broadcastMax)

/-- Two small legs of one INNER equijoin are both fetched whole. -/
def broadcastLeg (driving : String) : List Leg → Option Leg
  | [lm] => if innerEqui lm && x.small driving && x.small lm.aliasName then some lm else none
  | _ => none

section

variable (P : Projection) (select : LegColumns)

def joinLeg (acc : List SourceRow) (lm : Leg) : List SourceRow :=
  mergeRecords x.comparison lm acc (legRecords P select lm.aliasName (x.fetched lm acc))

def joinChunk (drivingAlias : String) (subsequentLegs : List Leg) (drivingRows : List SourceRow) : List SourceRow :=
  subsequentLegs.foldl (x.joinLeg P select) (drivingRows.map (qualifyRecord drivingAlias))

/-- The windows one after the other; the cap ends the join after a full one and cuts the last one. -/
def joinWindows (drivingAlias : String) (subsequentLegs : List Leg) (acc : List SourceRow) :
    List (List SourceRow) → List SourceRow
  | [] => acc
  | w :: ws =>
    let joined := acc ++ x.joinChunk P select drivingAlias subsequentLegs w
    if w.length < windowSize then if acc.length < x.cap then joined.take x.cap else acc
    else if x.cap ≤ joined.length then joined
    else joinWindows drivingAlias subsequentLegs joined ws

def broadcastJoin (driving : String) (lm : Leg) : List SourceRow :=
  mergeRecords x.comparison lm (legRecords P select driving ((x.contents driving).take x.cap))
    (legRecords P select lm.aliasName ((x.contents lm.aliasName).take x.cap))

def executeLegs (driving : String) (legs : List Leg) : List SourceRow :=
  match x.broadcastLeg driving legs with
  | some lm => x.broadcastJoin P select driving lm
  | none => x.joinWindows P select driving legs [] (chunk windowSize (x.contents driving))

end

/-- The columns a leg's rows come with: the driving leg of windows is not projected. -/
def legColumns (select : LegColumns) (driving : String) (legs : List Leg) : LegColumns := fun a =>
  if a = driving ∧ x.broadcastLeg driving legs = none then none else select a

/-- A row of the driving leg with a matching row of every other leg, or with none of a leg joined LEFT. -/
inductive Combined (driving : String) : List Leg → SourceRow → Prop
  | driving {r : SourceRow} (h : r ∈ x.contents driving) : Combined driving [] (qualifyRecord driving r)
  | matched {legs : List Leg} {lm : Leg} {l r : SourceRow} (hl : Combined driving legs l)
    (hr : r ∈ x.contents lm.aliasName)
    (hmatch : lm.matched x.comparison l.get? (qualifyRecord lm.aliasName r).get? = true) :
    Combined driving (legs ++ [lm]) (l.spread (qualifyRecord lm.aliasName r))
  | alone {legs : List Leg} {lm : Leg} {l : SourceRow} (hl : Combined driving legs l)
    (hkeep : lm.keepUnmatchedLeft = true) : Combined driving (legs ++ [lm]) l

end Context

theorem get?_qualifyRecord (a : String) (r : SourceRow) : (qualifyRecord a r).get? = qualify a r := by
  funext key
  cases hafter : afterPrefix (a ++ ".") key with
  | none =>
    unfold qualify
    rw [hafter, Option.bind_none]
    by_contra hne
    rcases Option.ne_none_iff_exists'.mp hne with ⟨v, hv⟩
    rcases List.mem_map.mp ((Record.get?_eq_some_iff _ _ _).mp hv) with ⟨e, _, he⟩
    have hkey : key = columnPath a e.1 := (congrArg Prod.fst he).symm
    rw [hkey, columnPath, afterPrefix_append] at hafter
    cases hafter
  | some col =>
    have hkey : key = columnPath a col := afterPrefix_eq hafter
    rw [hkey, qualify_path]
    apply Option.ext
    intro v
    rw [Record.get?_eq_some_iff, Record.get?_eq_some_iff]
    change (columnPath a col, v) ∈ r.entries.map _ ↔ _
    rw [List.mem_map]
    constructor
    · rintro ⟨e, he, heq⟩
      have hcol : e.1 = col := columnPath_injective a (congrArg Prod.fst heq)
      have hv : e.2 = v := congrArg Prod.snd heq
      rw [← hcol, ← hv]
      exact he
    · intro hmem
      exact ⟨(col, v), hmem, rfl⟩

/-- Of every last name, the second row has the properties of the first one that are kept, in the same order. -/
def Narrowed (kept : String → Bool) (full proj : SourceRow) : Prop :=
  ∀ b, proj.restrict (baseColumn · = b) = full.restrict fun k => kept k && baseColumn k = b

section

variable {kept : String → Bool} {full proj full' proj' : SourceRow}

theorem Narrowed.get? (h : Narrowed kept full proj) (key : String) :
    proj.get? key = if kept key then full.get? key else none := by
  have hkey := congrArg (fun r => Record.get? r key) (h (baseColumn key))
  simpa only [Record.get?_restrict, decide_true, if_true, Bool.and_true] using hkey

theorem Narrowed.spread (h : Narrowed kept full proj) (h' : Narrowed kept full' proj') :
    Narrowed kept (full.spread full') (proj.spread proj') := by
  intro b
  rw [Record.restrict_spread, Record.restrict_spread, h b, h' b]

theorem Narrowed.find? (h : Narrowed kept full proj) {b : String}
    (hfirst : ∀ e, full.entries.find? (fun e => baseColumn e.1 = b) = some e → kept e.1 = true) :
    proj.entries.find? (fun e => baseColumn e.1 = b) = full.entries.find? fun e => baseColumn e.1 = b := by
  have hentries := congrArg Record.entries (h b)
  change proj.entries.filter (fun e => baseColumn e.1 = b) =
    full.entries.filter (fun e => kept e.1 && baseColumn e.1 = b) at hentries
  rw [← List.filter_filter] at hentries
  rw [← List.head?_filter, ← List.head?_filter, hentries]
  rw [← List.head?_filter] at hfirst
  cases hnamed : full.entries.filter fun e => baseColumn e.1 = b with
  | nil => rfl
  | cons e es =>
    have hkept : kept e.1 = true := hfirst e (by rw [hnamed, List.head?_cons])
    rw [List.filter_cons, if_pos hkept, List.head?_cons, List.head?_cons]

end

theorem map_eq_of_forall₂ {α β γ : Type*} {R : α → β → Prop} {f : α → γ} {g : β → γ}
    (h : ∀ a b, R a b → f a = g b) {xs : List α} {ys : List β} (hxs : List.Forall₂ R xs ys) :
    xs.map f = ys.map g := by
  induction hxs with
  | nil => rfl
  | cons hab _ ih => rw [List.map_cons, List.map_cons, h _ _ hab, ih]

theorem matched_congr {c : LooseComparison} {lm : Leg} {l l' r r' : JoinedRow} (hl : l lm.on.left = l' lm.on.left)
    (hr : r lm.on.right = r' lm.on.right) : lm.matched c l r = lm.matched c l' r' := by
  unfold Leg.matched matchesOn JoinedRow.read
  rw [hl, hr]

namespace Context

variable {x : Context} {driving : String} {aliases : List String} {kept : String → Bool}

def Present (x : Context) (aliases : List String) (key : String) : Prop :=
  ∃ a ∈ aliases, ∃ r ∈ x.contents a, ∃ k, key = columnPath a k ∧ r.get? k ≠ none

theorem present_qualifyRecord {a : String} (ha : a ∈ aliases) {r : SourceRow} (hr : r ∈ x.contents a) {key : String}
    (hkey : (qualifyRecord a r).get? key ≠ none) : x.Present aliases key := by
  rw [get?_qualifyRecord] at hkey
  have ⟨k, hk⟩ := ownedBy_iff.mp (qualify_owned hkey)
  rw [hk, qualify_path] at hkey
  exact ⟨a, ha, r, hr, k, hk, hkey⟩

theorem Combined.present {legs : List Leg} {row : SourceRow} (h : x.Combined driving legs row)
    (has : driving :: legs.map Leg.aliasName ⊆ aliases) {key : String} (hkey : row.get? key ≠ none) :
    x.Present aliases key := by
  induction h with
  | driving hr => exact present_qualifyRecord (has List.mem_cons_self) hr hkey
  | @matched legs lm l r hl hr hmatch ih =>
    rw [List.map_append, List.map_singleton, ← List.cons_append, List.append_subset] at has
    rw [Record.get?_spread] at hkey
    cases hright : (qualifyRecord lm.aliasName r).get? key with
    | none =>
      rw [hright, Option.none_or] at hkey
      exact ih has.1 hkey
    | some v =>
      refine present_qualifyRecord (has.2 List.mem_cons_self) hr ?_
      rw [hright]
      exact Option.some_ne_none v
  | alone hl hkeep ih =>
    rw [List.map_append, ← List.cons_append, List.append_subset] at has
    exact ih has.1 hkey

def Steady (x : Context) (aliases : List String) (kept : String → Bool) (path : String) : Prop :=
  x.Present aliases path → kept path = true

theorem Steady.get? {full proj : SourceRow} (hfull : ∀ key, full.get? key ≠ none → x.Present aliases key)
    (h : Narrowed kept full proj) {path : String} (hpath : x.Steady aliases kept path) :
    proj.get? path = full.get? path := by
  rw [h.get?]
  by_cases hkept : kept path
  · rw [if_pos hkept]
  · rw [if_neg hkept, eq_comm]
    by_contra hne
    exact hkept (hpath (hfull path hne))

section

variable {P : Projection} {select : LegColumns}

/-- The rows of the leg lose only what is not kept, and what its ON reads is kept. -/
structure LegNarrowed (x : Context) (aliases : List String) (kept : String → Bool) (P : Projection)
    (select : LegColumns) (lm : Leg) : Prop where
  known : lm.aliasName ∈ aliases
  rows : ∀ r ∈ x.contents lm.aliasName, Narrowed kept (qualifyRecord lm.aliasName r)
    (qualifyRecord lm.aliasName (P.fetch (select lm.aliasName) r))
  left : x.Steady aliases kept lm.on.left
  right : x.Steady aliases kept lm.on.right

def Corresponds (x : Context) (driving : String) (kept : String → Bool) (legs : List Leg) :
    List SourceRow → List SourceRow → Prop :=
  List.Forall₂ fun full proj => x.Combined driving legs full ∧ Narrowed kept full proj

theorem mem_fetched {lm : Leg} {acc : List SourceRow} {r : SourceRow} (h : r ∈ x.fetched lm acc) :
    r ∈ x.contents lm.aliasName := by
  unfold fetched at h
  dsimp only at h
  split at h
  · split at h
    · cases h
    · rcases List.mem_flatMap.mp h with ⟨ks, _, hks⟩
      exact (List.mem_filter.mp (List.mem_of_mem_take hks)).1
  · exact List.mem_of_mem_take h

variable {done : List Leg} (has : driving :: done.map Leg.aliasName ⊆ aliases)

include has

theorem over_combined {row : SourceRow} (h : x.Combined driving done row) : Over aliases row.get? := by
  intro key hkey
  have ⟨a, ha, _, _, k, hk, _⟩ := h.present has hkey
  exact ⟨a, ha, hk ▸ ownedBy_path a k⟩

theorem readColumn_narrowed {full proj : SourceRow} (hfull : x.Combined driving done full)
    (h : Narrowed kept full proj) {path : String} (hpath : x.Steady aliases kept path) :
    readColumn proj.get? path = readColumn full.get? path := by
  have hover : Over aliases proj.get? := by
    intro key hkey
    rw [h.get?] at hkey
    refine over_combined has hfull key fun hnone => hkey ?_
    rw [hnone, ite_self]
  rw [Leg.readColumn_over hover, Leg.readColumn_over (over_combined has hfull), JoinedRow.read, JoinedRow.read,
    hpath.get? (fun _ => hfull.present has) h]

theorem fetched_narrowed {lm : Leg} (hleg : x.LegNarrowed aliases kept P select lm) {acc acc' : List SourceRow}
    (hacc : x.Corresponds driving kept done acc acc') : x.fetched lm acc' = x.fetched lm acc := by
  have hkeys : bindKeys (acc'.map Record.get?) lm.on = bindKeys (acc.map Record.get?) lm.on := by
    unfold bindKeys
    rw [List.map_map, List.map_map]
    refine congrArg (fun vs => (List.filter _ vs).eraseDups) (Eq.symm ?_)
    exact map_eq_of_forall₂ (fun _ _ h => (readColumn_narrowed has h.1 h.2 hleg.left).symm) hacc
  unfold fetched
  rw [hkeys]

theorem mergeRecords_narrowed {lm : Leg} (hleg : x.LegNarrowed aliases kept P select lm)
    {acc acc' : List SourceRow} (hacc : x.Corresponds driving kept done acc acc') {rows : List SourceRow}
    (hrows : ∀ r ∈ rows, r ∈ x.contents lm.aliasName) :
    x.Corresponds driving kept (done ++ [lm])
      (mergeRecords x.comparison lm acc (legRecords P (fun _ => none) lm.aliasName rows))
      (mergeRecords x.comparison lm acc' (legRecords P select lm.aliasName rows)) := by
  have hright : List.Forall₂
      (fun r r' => (∃ row ∈ x.contents lm.aliasName, r = qualifyRecord lm.aliasName row) ∧ Narrowed kept r r')
      (legRecords P (fun _ => none) lm.aliasName rows) (legRecords P select lm.aliasName rows) := by
    unfold legRecords
    rw [List.forall₂_map_left_iff, List.forall₂_map_right_iff, List.forall₂_same]
    exact fun r hr => ⟨⟨r, hrows r hr, rfl⟩, hleg.rows r (hrows r hr)⟩
  have hrel : ∀ l l' : SourceRow, x.Combined driving done l ∧ Narrowed kept l l' → ∀ r r' : SourceRow,
      (∃ row ∈ x.contents lm.aliasName, r = qualifyRecord lm.aliasName row) ∧ Narrowed kept r r' →
        lm.matched x.comparison l.get? r.get? = lm.matched x.comparison l'.get? r'.get? := by
    intro l l' hl r r' ⟨⟨row, hrow, heq⟩, hr⟩
    have hpresent : ∀ key, r.get? key ≠ none → x.Present aliases key := by
      intro key hkey
      rw [heq] at hkey
      exact present_qualifyRecord hleg.known hrow hkey
    exact matched_congr (hleg.left.get? (fun _ => hl.1.present has) hl.2).symm
      (hleg.right.get? hpresent hr).symm
  have hpairs := @forall₂_outerPairs _ _ _ _ _ _ lm.keepUnmatchedLeft _ _ hrel _ _ hacc _ _ hright
  have hcombined : ∀ p ∈ outerPairs lm.keepUnmatchedLeft (fun l r => lm.matched x.comparison l.get? r.get?) acc
      (legRecords P (fun _ => none) lm.aliasName rows), x.Combined driving (done ++ [lm]) (mergedRecord p) := by
    intro ⟨l, o⟩ hp
    have hl : x.Combined driving done l := by
      have hmem := fst_mem_outerPairs hp
      exact ((List.forall₂_and_left _ _).mp hacc).1 l hmem
    cases o with
    | none => exact .alone hl (none_mem_outerPairs hp)
    | some r =>
      have ⟨_, hr, hmatch⟩ := mem_outerPairs.mp hp
      have ⟨row, hrow, heq⟩ := List.mem_map.mp hr
      subst heq
      exact .matched hl (hrows row hrow) hmatch
  unfold Corresponds mergeRecords
  rw [List.forall₂_map_left_iff, List.forall₂_map_right_iff]
  refine ((List.forall₂_and_left _ _).mpr ⟨hcombined, hpairs⟩).imp fun p q h => ⟨h.1, ?_⟩
  have ⟨l, o⟩ := p
  have ⟨l', o'⟩ := q
  have ⟨hl, ho⟩ := h.2
  cases ho with
  | none => exact hl.2
  | some hr => exact hl.2.spread hr.2

theorem joinLeg_narrowed {lm : Leg} (hleg : x.LegNarrowed aliases kept P select lm) {acc acc' : List SourceRow}
    (hacc : x.Corresponds driving kept done acc acc') :
    x.Corresponds driving kept (done ++ [lm]) (x.joinLeg P (fun _ => none) acc lm) (x.joinLeg P select acc' lm) := by
  unfold joinLeg
  rw [fetched_narrowed has hleg hacc]
  exact mergeRecords_narrowed has hleg hacc fun _ => mem_fetched

end

section

variable {P : Projection} {select : LegColumns}

theorem broadcastLeg_some {legs : List Leg} {lm : Leg} (h : x.broadcastLeg driving legs = some lm) : legs = [lm] := by
  unfold broadcastLeg at h
  split at h
  · split at h
    · rw [Option.some.inj h]
    · cases h
  · cases h

theorem foldl_joinLeg_narrowed {legs done : List Leg} (has : driving :: (done ++ legs).map Leg.aliasName ⊆ aliases)
    (hlegs : ∀ lm ∈ legs, x.LegNarrowed aliases kept P select lm) {acc acc' : List SourceRow}
    (hacc : x.Corresponds driving kept done acc acc') :
    x.Corresponds driving kept (done ++ legs) (legs.foldl (x.joinLeg P fun _ => none) acc)
      (legs.foldl (x.joinLeg P select) acc') := by
  induction legs generalizing done acc acc' with
  | nil =>
    rw [List.append_nil]
    exact hacc
  | cons lm legs ih =>
    have hdone : driving :: done.map Leg.aliasName ⊆ aliases := by
      rw [List.map_append, ← List.cons_append, List.append_subset] at has
      exact has.1
    have hleg := joinLeg_narrowed hdone (hlegs lm List.mem_cons_self) hacc
    have hsplit : done ++ lm :: legs = (done ++ [lm]) ++ legs := by rw [List.append_assoc, List.singleton_append]
    rw [List.foldl_cons, List.foldl_cons, hsplit]
    rw [hsplit] at has
    exact ih has (fun m hm => hlegs m (List.mem_cons_of_mem _ hm)) hleg

variable {legs : List Leg} (has : driving :: legs.map Leg.aliasName ⊆ aliases)
  (hlegs : ∀ lm ∈ legs, x.LegNarrowed aliases kept P select lm)

include has hlegs

theorem joinChunk_narrowed {rows : List SourceRow}
    (hrows : ∀ r ∈ rows, r ∈ x.contents driving ∧ Narrowed kept (qualifyRecord driving r) (qualifyRecord driving r)) :
    x.Corresponds driving kept legs (x.joinChunk P (fun _ => none) driving legs rows)
      (x.joinChunk P select driving legs rows) := by
  refine @foldl_joinLeg_narrowed _ _ _ _ _ _ legs [] has hlegs _ _ ?_
  unfold Corresponds
  rw [List.forall₂_map_left_iff, List.forall₂_map_right_iff, List.forall₂_same]
  exact fun r hr => ⟨.driving (hrows r hr).1, (hrows r hr).2⟩

theorem joinWindows_narrowed {ws : List (List SourceRow)} (hws : ∀ w ∈ ws, ∀ r ∈ w, r ∈ x.contents driving ∧
      Narrowed kept (qualifyRecord driving r) (qualifyRecord driving r)) {acc acc' : List SourceRow}
    (hacc : x.Corresponds driving kept legs acc acc') :
    x.Corresponds driving kept legs (x.joinWindows P (fun _ => none) driving legs acc ws)
      (x.joinWindows P select driving legs acc' ws) := by
  induction ws generalizing acc acc' with
  | nil => exact hacc
  | cons w ws ih =>
    have hchunk := joinChunk_narrowed has hlegs (hws w List.mem_cons_self)
    have hjoined := List.rel_append hacc hchunk
    have hlength : acc'.length = acc.length := hacc.length_eq.symm
    have hboth : (acc' ++ x.joinChunk P select driving legs w).length =
        (acc ++ x.joinChunk P (fun _ => none) driving legs w).length := hjoined.length_eq.symm
    unfold joinWindows
    dsimp only
    rw [hlength, hboth]
    by_cases hlast : w.length < windowSize
    · rw [if_pos hlast, if_pos hlast]
      by_cases hroom : acc.length < x.cap
      · rw [if_pos hroom, if_pos hroom]
        exact List.forall₂_take _ hjoined
      · rw [if_neg hroom, if_neg hroom]
        exact hacc
    · rw [if_neg hlast, if_neg hlast]
      by_cases hfull : x.cap ≤ (acc ++ x.joinChunk P (fun _ => none) driving legs w).length
      · rw [if_pos hfull, if_pos hfull]
        exact hjoined
      · rw [if_neg hfull, if_neg hfull]
        exact ih (fun v hv => hws v (List.mem_cons_of_mem _ hv)) hjoined

omit hlegs

theorem executeLegs_narrowed (hnodup : (driving :: legs.map Leg.aliasName).Nodup)
    (hlegs : ∀ lm ∈ legs, x.LegNarrowed aliases kept P (x.legColumns select driving legs) lm)
    (hdriving : ∀ r ∈ x.contents driving, Narrowed kept (qualifyRecord driving r)
      (qualifyRecord driving (P.fetch (x.legColumns select driving legs driving) r))) :
    x.Corresponds driving kept legs (x.executeLegs P (fun _ => none) driving legs)
      (x.executeLegs P select driving legs) := by
  have hother : ∀ lm ∈ legs, x.legColumns select driving legs lm.aliasName = select lm.aliasName := by
    intro lm hlm
    have hne : lm.aliasName ≠ driving := fun heq =>
      (List.nodup_cons.mp hnodup).1 (heq ▸ List.mem_map_of_mem hlm)
    exact if_neg fun h => hne h.1
  have hselect : ∀ lm ∈ legs, x.LegNarrowed aliases kept P select lm := by
    intro lm hlm
    have hleg := hlegs lm hlm
    exact ⟨hleg.known, fun r hr => hother lm hlm ▸ hleg.rows r hr, hleg.left, hleg.right⟩
  unfold executeLegs
  cases hmode : x.broadcastLeg driving legs with
  | none =>
    rw [legColumns, if_pos ⟨rfl, hmode⟩] at hdriving
    refine joinWindows_narrowed has hselect (fun w hw r hr => ?_) .nil
    have hmem : r ∈ x.contents driving := by
      rw [← chunk_flatten (show 0 < windowSize by decide) (x.contents driving)]
      exact List.mem_flatten.mpr ⟨w, hw, hr⟩
    exact ⟨hmem, hdriving r hmem⟩
  | some lm =>
    have hlegs : legs = [lm] := broadcastLeg_some hmode
    subst hlegs
    have hwhole : x.legColumns select driving [lm] driving = select driving := by
      refine if_neg fun h => ?_
      rw [hmode] at h
      cases h.2
    rw [hwhole] at hdriving
    refine @mergeRecords_narrowed x driving aliases kept P select [] ?_ lm (hselect lm List.mem_cons_self) _ _ ?_ _ ?_
    · exact fun a ha => has (List.mem_cons.mpr (.inl (List.mem_singleton.mp ha)))
    · unfold Corresponds legRecords
      rw [List.forall₂_map_left_iff, List.forall₂_map_right_iff, List.forall₂_same]
      intro r hr
      have hmem := List.mem_of_mem_take hr
      exact ⟨.driving hmem, hdriving r hmem⟩
    · exact fun r hr => List.mem_of_mem_take hr

end

end Context

end DataFabric.JoinedRecords
