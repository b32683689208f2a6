import DataFabric.JoinPipelines
import DataFabric.JoinedSql

set_option autoImplicit false

/-!
# The order of the columns in a join condition

A tree of equijoins of any kind, each ON with its two columns in either order, as the
engine joins it and as the SQL of the same tree does.
-/
namespace DataFabric.SwappedConditions
open CharText JsValues KeyedJoins OrderedRecords FederatedJoins JoinReordering JoinPipelines JoinStrategies

inductive JoinKind
  | inner | left | right | full
  deriving DecidableEq, Repr

namespace JoinKind

def text : JoinKind → String
  | .inner => "INNER"
  | .left => "LEFT"
  | .right => "RIGHT"
  | .full => "FULL"

def keepsLeft (k : JoinKind) : Bool := k = .left || k = .full

def keepsRight (k : JoinKind) : Bool := k = .right || k = .full

end JoinKind

structure TypedLeg where
  kind : JoinKind
  leg : TreeLeg
  deriving DecidableEq

namespace TypedLeg

def aliasName (l : TypedLeg) : String := l.leg.aliasName

def toLeg (l : TypedLeg) : Leg := ⟨l.leg.aliasName, l.kind.text, l.leg.on, "EQ"⟩

def turn (l : TypedLeg) : TypedLeg := { l with leg := { l.leg with reversed := !l.leg.reversed } }

end TypedLeg

structure TypedTree where
  root : String
  legs : List TypedLeg
  nonempty : legs ≠ []
  distinct : DistinctAliases (root :: legs.map TypedLeg.aliasName)
  linked : Linked [root] (legs.map TypedLeg.leg)
  plain : ∀ l ∈ legs, '.' ∉ l.leg.column.toList ∧ '.' ∉ l.leg.otherColumn.toList

theorem map_modify_of {α β : Type} {f : α → α} {g : α → β} (h : ∀ x, g (f x) = g x) (xs : List α) (i : ℕ) :
    (xs.modify i f).map g = xs.map g := by
  induction xs generalizing i with
  | nil => rw [List.modify_nil]
  | cons x xs ih =>
    cases i with
    | zero => simp [h]
    | succ i => simp [ih]

theorem foldl_modify_of {α β : Type} {f : α → α} {step : β → α → β} (h : ∀ b x, step b (f x) = step b x)
    (xs : List α) (i : ℕ) (b : β) : (xs.modify i f).foldl step b = xs.foldl step b := by
  induction xs generalizing i b with
  | nil => rw [List.modify_nil]
  | cons x xs ih =>
    cases i with
    | zero => simp [h]
    | succ i => simp [ih]

theorem linked_turn (legs : List TypedLeg) (i : ℕ) (seen : List String) :
    Linked seen ((legs.modify i TypedLeg.turn).map TypedLeg.leg) ↔ Linked seen (legs.map TypedLeg.leg) := by
  induction legs generalizing i seen with
  | nil => rw [List.modify_nil]
  | cons l legs ih =>
    cases i with
    | zero => rfl
    | succ i => rw [List.modify_succ_cons, List.map_cons, List.map_cons, Linked, Linked, ih]

theorem mem_turn {legs : List TypedLeg} {i : ℕ} {l : TypedLeg} (h : l ∈ legs.modify i TypedLeg.turn) :
    ∃ m ∈ legs, l = m ∨ l = m.turn := by
  have ⟨j, hj⟩ := List.mem_iff_getElem?.mp h
  rw [List.getElem?_modify] at hj
  cases hm : legs[j]? with
  | none =>
    rw [hm] at hj
    cases hj
  | some m =>
    rw [hm] at hj
    refine ⟨m, List.mem_of_getElem? hm, ?_⟩
    split at hj
    · exact .inr (Option.some.inj hj).symm
    · exact .inl (Option.some.inj hj).symm

namespace TypedTree

def turn (t : TypedTree) (i : ℕ) : TypedTree where
  root := t.root
  legs := t.legs.modify i TypedLeg.turn
  nonempty := by
    intro hnil
    have hlength := congrArg List.length hnil
    rw [List.length_modify] at hlength
    exact t.nonempty (List.eq_nil_of_length_eq_zero hlength)
  distinct := by
    rw [@map_modify_of _ _ TypedLeg.turn TypedLeg.aliasName fun _ => rfl]
    exact t.distinct
  linked := (linked_turn t.legs i _).mpr t.linked
  plain := by
    intro l hl
    have ⟨m, hm, hlm⟩ := mem_turn hl
    rcases hlm with rfl | rfl
    · exact t.plain l hm
    · exact t.plain m hm

def legMetas (t : TypedTree) : List LegMeta := ⟨t.root, none⟩ :: t.legs.map fun l => l.leg.meta

/-- Trees of INNER joins go through the choice of the driving leg and the broadcast. -/
def executeJoin (t : TypedTree) (s : JoinSettings) (c : LooseComparison) (cards : Cards) (contents : Contents) :
    List JoinedRow :=
  if ∀ l ∈ t.legs, l.kind = .inner then FederatedJoins.executeJoin s cards contents t.legMetas
  else (chunk windowSize (contents t.root)).flatMap (joinChunk s c contents t.root (t.legs.map TypedLeg.toLeg))

end TypedTree

/-- An ON equality of SQL reads both columns in the combined row. -/
def sqlOn (eq : JsValue → JsValue → Bool) (on : JoinOn) (l r : JoinedRow) : Bool :=
  eq ((mergeRow l r).read on.left) ((mergeRow l r).read on.right)

/-- A row without a partner has no columns of the other side. -/
def sqlLeg (eq : JsValue → JsValue → Bool) (contents : Contents) (acc : List JoinedRow) (l : TypedLeg) :
    List JoinedRow :=
  let rows := legRows contents l.aliasName
  let alone := rows.filter fun r => acc.all fun x => !sqlOn eq l.leg.on x r
  (outerPairs l.kind.keepsLeft (sqlOn eq l.leg.on) acc rows).map Equijoin.merged ++
    if l.kind.keepsRight then alone else []

def TypedTree.sqlJoin (t : TypedTree) (eq : JsValue → JsValue → Bool) (contents : Contents) : List JoinedRow :=
  t.legs.foldl (sqlLeg eq contents) (legRows contents t.root)

/-- The linked pairs and, of a LEFT join, the rows without a partner; an ON that names its own leg first
links nothing. -/
def fedLeg (contents : Contents) (acc : List JoinedRow) (l : TypedLeg) : List JoinedRow :=
  if l.leg.reversed then if l.kind = .left then acc else []
  else (outerPairs (l.kind = .left) (linkedOn l.leg.on) acc (legRows contents l.aliasName)).map Equijoin.merged

def TypedTree.fedJoin (t : TypedTree) (contents : Contents) : List JoinedRow :=
  t.legs.foldl (fedLeg contents) (legRows contents t.root)

structure Stage (aliases as : List String) (legs : List TypedLeg) : Prop where
  distinct : DistinctAliases aliases
  nodup : (as ++ legs.map TypedLeg.aliasName).Nodup
  within : as ++ legs.map TypedLeg.aliasName ⊆ aliases
  linked : Linked as (legs.map TypedLeg.leg)
  plain : ∀ l ∈ legs, '.' ∉ l.leg.column.toList ∧ '.' ∉ l.leg.otherColumn.toList

namespace Stage

variable {aliases as : List String} {l : TypedLeg} {legs : List TypedLeg}

theorem tail (h : Stage aliases as (l :: legs)) : Stage aliases (l.aliasName :: as) legs where
  distinct := h.distinct
  nodup := by
    have hnodup := h.nodup
    rw [List.map_cons] at hnodup
    exact (List.perm_middle.nodup_iff).mp hnodup
  within := by
    have hwithin := h.within
    rw [List.map_cons] at hwithin
    exact fun a ha => hwithin (List.perm_middle.mem_iff.mpr ha)
  linked := h.linked.2
  plain m hm := h.plain m (List.mem_cons_of_mem _ hm)

theorem notMem (h : Stage aliases as (l :: legs)) : l.aliasName ∉ as := by
  have hnodup := h.tail.nodup
  rw [List.cons_append, List.nodup_cons] at hnodup
  exact fun hmem => hnodup.1 (List.mem_append_left _ hmem)

theorem covered (h : Stage aliases as legs) : as ⊆ aliases := (List.append_subset.mp h.within).1

theorem mem (h : Stage aliases as (l :: legs)) : l.aliasName ∈ aliases := h.tail.covered List.mem_cons_self

theorem other_mem (h : Stage aliases as (l :: legs)) : l.leg.other ∈ as := h.linked.1

end Stage

theorem TypedTree.stage (t : TypedTree) : Stage (t.root :: t.legs.map TypedLeg.aliasName) [t.root] t.legs where
  distinct := t.distinct
  nodup := t.distinct.nodup
  within := List.Subset.refl _
  linked := t.linked
  plain := t.plain

section

variable {contents : Contents} {aliases as : List String} {l : TypedLeg} {legs : List TypedLeg}
  {acc : List JoinedRow}

theorem outerPairs_none {keep : Bool} {rel : JoinedRow → JoinedRow → Bool} {ls rs : List JoinedRow}
    (h : ∀ l ∈ ls, ∀ r ∈ rs, rel l r = false) :
    (outerPairs keep rel ls rs).map Equijoin.merged = if keep then ls else [] := by
  induction ls with
  | nil => cases keep <;> rfl
  | cons l ls ih =>
    have hnone : rs.filter (rel l) = [] := by
      rw [List.filter_eq_nil_iff]
      intro r hr
      rw [h l List.mem_cons_self r hr]
      exact Bool.false_ne_true
    have htail := ih fun m hm => h m (List.mem_cons_of_mem _ hm)
    rw [outerPairs_cons, hnone, List.map_append, htail]
    cases keep <;> rfl

theorem fedLeg_distributes (contents : Contents) (l : TypedLeg) : Distributes fun acc => fedLeg contents acc l := by
  intro acc acc'
  dsimp only [fedLeg]
  by_cases hrev : l.leg.reversed = true
  · rw [if_pos hrev, if_pos hrev, if_pos hrev]
    split <;> rfl
  · rw [if_neg hrev, if_neg hrev, if_neg hrev, outerPairs_append, List.map_append]

theorem fedLeg_forward (h : l.leg.reversed = false) :
    fedLeg contents acc l =
      (outerPairs (l.kind = .left) (linkedOn l.leg.on) acc (legRows contents l.aliasName)).map Equijoin.merged := by
  unfold fedLeg
  rw [h, if_neg Bool.false_ne_true]

theorem fedLeg_reversed (h : l.leg.reversed = true) :
    fedLeg contents acc l = if l.kind = .left then acc else [] := by
  unfold fedLeg
  rw [if_pos h]

theorem over_fedLeg (hacc : ∀ row ∈ acc, Over as row) :
    ∀ row ∈ fedLeg contents acc l, Over (if l.leg.reversed then as else l.aliasName :: as) row := by
  cases hrev : l.leg.reversed with
  | true =>
    rw [if_pos rfl, fedLeg_reversed hrev]
    split
    · exact hacc
    · exact fun row hrow => absurd hrow List.not_mem_nil
  | false =>
    rw [if_neg Bool.false_ne_true, fedLeg_forward hrev]
    exact over_merged hacc (over_legRows _ _)

theorem toLeg_canBind (l : TypedLeg) : l.toLeg.canBind = true := by
  have hequi : l.toLeg.isEquiJoin = true := by
    change decide (operatorCode "EQ" ∈ ["EQ", "="]) = true
    decide
  have hkind : ∀ k : JoinKind, k.text ∈ ["INNER", "LEFT", "RIGHT", "FULL"] := by
    intro k
    cases k <;> decide
  unfold Leg.canBind
  rw [hequi, Bool.true_and]
  exact decide_eq_true (hkind l.kind)

theorem keepUnmatchedLeft_toLeg (l : TypedLeg) : l.toLeg.keepUnmatchedLeft = decide (l.kind = .left) := by
  have ⟨kind, leg⟩ := l
  cases kind <;> rfl

theorem joined_toLeg (c : LooseComparison) (h : Stage aliases as (l :: legs)) (hacc : ∀ row ∈ acc, Over as row) :
    l.toLeg.joined c acc (contents l.aliasName) = fedLeg contents acc l := by
  have hlinks : l.toLeg.links c = linkedOn l.leg.on := by
    funext x r
    unfold Leg.links
    rw [if_pos (toLeg_canBind l)]
    rfl
  unfold Leg.joined
  rw [hlinks, keepUnmatchedLeft_toLeg]
  cases hrev : l.leg.reversed with
  | false =>
    rw [fedLeg_forward hrev]
    rfl
  | true =>
    rw [fedLeg_reversed hrev, outerPairs_none]
    · simp
    · intro x hx r _
      have habsent : x (columnPath l.aliasName l.leg.column) = none :=
        over_none h.distinct h.covered h.mem h.notMem (hacc x hx)
      unfold linkedOn JoinedRow.read
      rw [on_reversed hrev]
      change (_ && !((x (columnPath l.aliasName l.leg.column)).getD .undefined).isNullish) = false
      rw [habsent]
      exact Bool.and_false _

theorem over_step (hacc : ∀ row ∈ acc, Over as row) :
    ∀ row ∈ fedLeg contents acc l, Over (l.aliasName :: as) row := by
  intro row hrow
  refine over_mono ?_ (over_fedLeg hacc row hrow)
  split
  · exact List.subset_cons_self _ _
  · exact List.Subset.refl _

theorem joinAll_toLeg (c : LooseComparison) (h : Stage aliases as legs) (hacc : ∀ row ∈ acc, Over as row) :
    joinAll c contents (legs.map TypedLeg.toLeg) acc = legs.foldl (fedLeg contents) acc := by
  unfold joinAll
  induction legs generalizing as acc with
  | nil => rfl
  | cons l legs ih =>
    have hleg : l.toLeg.joined c acc (contents l.toLeg.aliasName) = fedLeg contents acc l := joined_toLeg c h hacc
    rw [List.map_cons, List.foldl_cons, List.foldl_cons, hleg]
    exact ih h.tail (over_step hacc)

end

theorem TypedTree.keyed (t : TypedTree) :
    ∀ lm ∈ t.legs.map TypedLeg.toLeg, lm.KeyedAmong (t.root :: (t.legs.map TypedLeg.toLeg).map Leg.aliasName) := by
  intro lm hlm _
  have ⟨l, hl, hlm⟩ := List.mem_map.mp hlm
  have hnames : (t.legs.map TypedLeg.toLeg).map Leg.aliasName = t.legs.map TypedLeg.aliasName := List.map_map
  have hmem : l.aliasName ∈ t.root :: t.legs.map TypedLeg.aliasName :=
    List.mem_cons_of_mem _ (List.mem_map_of_mem hl)
  subst hlm
  rw [hnames]
  cases hrev : l.leg.reversed with
  | false =>
    refine .inl ?_
    have hright : l.toLeg.on.right = columnPath l.leg.aliasName l.leg.column :=
      congrArg JoinOn.right (on_forward hrev)
    unfold Leg.OwnRight
    rw [hright, baseColumn_path (t.plain l hl).1]
    rfl
  | true =>
    refine .inr fun a ha hne howned => hne ?_
    have hleft : l.toLeg.on.left = columnPath l.leg.aliasName l.leg.column :=
      congrArg JoinOn.left (on_reversed hrev)
    rw [hleft] at howned
    exact owned_unique t.distinct ha hmem howned (ownedBy_path _ _)

theorem TypedTree.executeJoin_mixed {s : JoinSettings} (hs : ReadsIn s.sourceIn) (c : LooseComparison) (cards : Cards)
    (contents : Contents) (t : TypedTree) (hmixed : ¬ ∀ l ∈ t.legs, l.kind = .inner) :
    t.executeJoin s c cards contents = t.fedJoin contents := by
  have hnames : (t.legs.map TypedLeg.toLeg).map Leg.aliasName = t.legs.map TypedLeg.aliasName := List.map_map
  have hnodup : (t.root :: (t.legs.map TypedLeg.toLeg).map Leg.aliasName).Nodup := by
    rw [hnames]
    exact t.distinct.nodup
  unfold executeJoin
  rw [if_neg hmixed, flatMap_joinChunk hs hnodup t.keyed, chunk_flatten (by decide),
    joinChunk_eq hs hnodup t.keyed, joinAll_toLeg c t.stage (over_legRows t.root _)]
  rfl

theorem outerPairs_inner (rel : JoinedRow → JoinedRow → Bool) (ls rs : List JoinedRow) :
    (outerPairs false rel ls rs).map Equijoin.merged = mergePairs (pairs rel ls rs) := by
  induction ls with
  | nil => rfl
  | cons l ls ih =>
    have hpartners : (partners false l (rs.filter (rel l))).map Equijoin.merged =
        mergePairs ((rs.filter (rel l)).map (Prod.mk l)) := by
      unfold mergePairs
      rw [List.map_map]
      cases rs.filter (rel l) with
      | nil => rfl
      | cons r ms =>
        unfold partners
        rw [List.map_map]
        rfl
    rw [outerPairs_cons, pairs_cons, List.map_append, ih, hpartners]
    unfold mergePairs
    rw [List.map_append]

theorem legSpec_inner {l : TypedLeg} (h : l.kind = .inner) (contents : Contents) (acc : List JoinedRow) :
    legSpec contents acc l.leg = fedLeg contents acc l := by
  unfold legSpec
  cases hrev : l.leg.reversed with
  | true => rw [if_pos rfl, fedLeg_reversed hrev, h, if_neg (by decide)]
  | false =>
    rw [if_neg Bool.false_ne_true, fedLeg_forward hrev, h]
    exact (outerPairs_inner _ _ _).symm

theorem foldl_legSpec_inner {legs : List TypedLeg} (h : ∀ l ∈ legs, l.kind = .inner) (contents : Contents)
    (acc : List JoinedRow) :
    (legs.map TypedLeg.leg).foldl (legSpec contents) acc = legs.foldl (fedLeg contents) acc := by
  induction legs generalizing acc with
  | nil => rfl
  | cons l legs ih =>
    rw [List.map_cons, List.foldl_cons, List.foldl_cons, legSpec_inner (h l List.mem_cons_self),
      ih fun m hm => h m (List.mem_cons_of_mem _ hm)]

def TypedTree.joinTree (t : TypedTree) {l : TypedLeg} {legs : List TypedLeg} (h : t.legs = l :: legs) : JoinTree where
  root := t.root
  first := l.leg
  rest := legs.map TypedLeg.leg
  distinct := by
    have hdistinct := t.distinct
    rw [h] at hdistinct
    have hnames : (l.leg :: legs.map TypedLeg.leg).map TreeLeg.aliasName = (l :: legs).map TypedLeg.aliasName := by
      rw [← List.map_cons, List.map_map]
      rfl
    rw [hnames]
    exact hdistinct
  linked := by
    have hlinked := t.linked
    rw [h] at hlinked
    exact hlinked
  plain := by
    intro m hm
    have ⟨x, hx, hxm⟩ := List.mem_map.mp (show m ∈ (l :: legs).map TypedLeg.leg from hm)
    subst hxm
    exact t.plain x (h ▸ hx)

theorem TypedTree.joinTree_legs (t : TypedTree) {l : TypedLeg} {legs : List TypedLeg} (h : t.legs = l :: legs) :
    (t.joinTree h).legs = t.legMetas := by
  unfold legMetas
  rw [h]
  change _ :: _ :: ((legs.map TypedLeg.leg).map TreeLeg.meta) = _
  rw [List.map_map]
  rfl

theorem executeJoin_tree {s : JoinSettings} (hs : ReadsIn s.sourceIn) (cards : Cards) (contents : Contents)
    (t : JoinTree) : (FederatedJoins.executeJoin s cards contents t.legs).Perm (runLegs s cards contents t.legs) ∨
      FederatedJoins.executeJoin s cards contents t.legs = [] ∧ t.rest ≠ [] := by
  unfold FederatedJoins.executeJoin
  rcases drivingIndex_cases cards t with hk | ⟨j, l, hk, hl⟩
  · refine .inl ?_
    rcases Nat.le_one_iff_eq_zero_or_eq_one.mp hk with hi | hi
    · rw [hi, swapDriving_zero]
    · rw [hi]
      exact t.swapped_perm hs cards contents
  · refine .inr ⟨?_, ?_⟩
    · rw [hk]
      exact t.swapped_later cards contents hl
    · intro hnil
      rw [hnil] at hl
      cases hl

/-- Two legs of an INNER join that are both small enough to be fetched whole. -/
def TypedTree.Broadcast (t : TypedTree) (s : JoinSettings) (cards : Cards) : Prop :=
  ∃ l, t.legs = [l] ∧ l.kind = .inner ∧ isSmall s cards t.root = true ∧ isSmall s cards l.aliasName = true

theorem TypedTree.executeJoin_inner (t : TypedTree) (hinner : ∀ l ∈ t.legs, l.kind = .inner) (s : JoinSettings)
    (c : LooseComparison) (cards : Cards) (contents : Contents) :
    t.executeJoin s c cards contents = FederatedJoins.executeJoin s cards contents t.legMetas := if_pos hinner

theorem TypedTree.executeJoin_bound {s : JoinSettings} (hs : ReadsIn s.sourceIn) (c : LooseComparison) (cards : Cards)
    (contents : Contents) (t : TypedTree) (hbound : ¬ t.Broadcast s cards) :
    (t.executeJoin s c cards contents).Perm (t.fedJoin contents) ∨
      t.executeJoin s c cards contents = [] ∧ ∀ l ∈ t.legs, l.kind = .inner := by
  by_cases hinner : ∀ l ∈ t.legs, l.kind = .inner
  · rw [t.executeJoin_inner hinner]
    cases hlegs : t.legs with
    | nil => exact absurd hlegs t.nonempty
    | cons l legs =>
      rw [← t.joinTree_legs hlegs]
      rcases executeJoin_tree hs cards contents (t.joinTree hlegs) with hperm | ⟨hnil, _⟩
      · refine .inl (hperm.trans (.of_eq ?_))
        have hbind : runLegs s cards contents (t.joinTree hlegs).legs =
            bindJoin s contents (t.joinTree hlegs).legs := by
          cases legs with
          | cons m legs => exact runLegs_many s cards contents _ _ _ _
          | nil =>
            have hsmall : ¬ (isSmall s cards t.root = true ∧ isSmall s cards l.aliasName = true) :=
              fun h => hbound ⟨l, hlegs, hinner l (hlegs ▸ List.mem_cons_self), h⟩
            exact (runLegs_two s cards contents t.root l.aliasName l.leg.on).trans (if_neg hsmall)
        have hfold := foldl_legSpec_inner hinner contents (legRows contents t.root)
        rw [hbind, (t.joinTree hlegs).bindJoin_legs hs]
        unfold fedJoin
        rw [← hfold, hlegs]
        rfl
      · exact .inr ⟨hnil, hlegs ▸ hinner⟩
  · rw [t.executeJoin_mixed hs c cards contents hinner]
    exact .inl (.refl _)

theorem TypedTree.executeJoin_broadcast {s : JoinSettings} (hs : ReadsIn s.sourceIn) (c : LooseComparison)
    (cards : Cards) (contents : Contents) (t : TypedTree) {l : TypedLeg} (hlegs : t.legs = [l])
    (hkind : l.kind = .inner) (hsmall : isSmall s cards t.root = true ∧ isSmall s cards l.aliasName = true) :
    (t.executeJoin s c cards contents).Perm
      (mergePairs (pairs (matchesOn l.leg.on) (legRows contents t.root) (legRows contents l.aliasName))) := by
  have hinner : ∀ m ∈ t.legs, m.kind = .inner := by
    intro m hm
    rw [hlegs] at hm
    rw [List.mem_singleton.mp hm]
    exact hkind
  rw [t.executeJoin_inner hinner, ← t.joinTree_legs hlegs]
  rcases executeJoin_tree hs cards contents (t.joinTree hlegs) with hperm | ⟨_, hrest⟩
  · refine hperm.trans (.of_eq ?_)
    exact (runLegs_two s cards contents t.root l.aliasName l.leg.on).trans (if_pos hsmall)
  · exact absurd rfl hrest

def Extends (y x : JoinedRow) : Prop := ∀ key v, x key = some v → y key = some v

theorem extends_refl (x : JoinedRow) : Extends x x := fun _ _ h => h

theorem Extends.trans {x y z : JoinedRow} (h : Extends z y) (h' : Extends y x) : Extends z x :=
  fun key v hx => h key v (h' key v hx)

theorem extends_merge {x y : JoinedRow} (h : Extends y x) (r : JoinedRow) :
    Extends (mergeRow y r) (mergeRow x r) := by
  intro key v hv
  unfold mergeRow at *
  cases hr : r key with
  | some w =>
    rw [hr] at hv
    exact hv
  | none =>
    rw [hr, Option.none_or] at hv
    rw [Option.none_or]
    exact h key v hv

theorem read_some {row : JoinedRow} {path : String} (h : (row.read path).isNullish = false) :
    row path = some (row.read path) := by
  unfold JoinedRow.read at *
  cases hrow : row path with
  | some v => rfl
  | none =>
    rw [hrow] at h
    cases h

section

variable {eq : JsValue → JsValue → Bool} {contents : Contents} {aliases as : List String} {l : TypedLeg}
  {legs : List TypedLeg} {acc : List JoinedRow}

theorem extends_left (h : Stage aliases as (l :: legs)) {x r : JoinedRow} (hx : Over as x)
    (hr : Over [l.aliasName] r) : Extends (mergeRow x r) x := by
  intro key v hv
  have hnone : r key = none := by
    by_contra hne
    have ⟨a, ha, hra⟩ := hr key hne
    have ⟨b, hb, hxb⟩ := hx key (by rw [hv]; exact Option.some_ne_none v)
    rw [List.mem_singleton.mp ha] at hra
    have heq := owned_unique h.distinct h.mem (h.covered hb) hra hxb
    exact h.notMem (heq ▸ hb)
  unfold mergeRow
  rw [hnone, Option.none_or]
  exact hv

theorem exists_extends (h : Stage aliases as (l :: legs)) (hacc : ∀ row ∈ acc, Over as row) {keep : Bool}
    (hkeep : keep = true) (rel : JoinedRow → JoinedRow → Bool) {x : JoinedRow} (hx : x ∈ acc) :
    ∃ y ∈ (outerPairs keep rel acc (legRows contents l.aliasName)).map Equijoin.merged, Extends y x := by
  cases hms : (legRows contents l.aliasName).filter (rel x) with
  | nil =>
    have hpair : (x, none) ∈ outerPairs keep rel acc (legRows contents l.aliasName) := by
      refine List.mem_flatMap.mpr ⟨x, hx, ?_⟩
      rw [hms, hkeep]
      exact List.mem_singleton.mpr rfl
    exact ⟨x, List.mem_map.mpr ⟨(x, none), hpair, rfl⟩, extends_refl x⟩
  | cons r ms =>
    have hr : r ∈ (legRows contents l.aliasName).filter (rel x) := hms ▸ List.mem_cons_self
    have ⟨hmem, hrel⟩ := List.mem_filter.mp hr
    have hpair : (x, some r) ∈ outerPairs keep rel acc (legRows contents l.aliasName) :=
      mem_outerPairs.mpr ⟨hx, hmem, hrel⟩
    have hover := over_legRows _ _ r hmem
    exact ⟨mergeRow x r, List.mem_map.mpr ⟨(x, some r), hpair, rfl⟩, extends_left h (hacc x hx) hover⟩

theorem sqlOn_of_linked (he : Equijoin.SqlEquality eq) (h : Stage aliases as (l :: legs))
    (hrev : l.leg.reversed = false) {x y r : JoinedRow} (hext : Extends y x) (hr : Over [l.aliasName] r)
    (hlinked : linkedOn l.leg.on x r = true) : sqlOn eq l.leg.on y r = true := by
  unfold linkedOn matchesOn at hlinked
  rw [on_forward hrev, Bool.and_eq_true] at hlinked
  have ⟨hsame, hpresent⟩ := hlinked
  have ⟨p, hleft, hright⟩ := sameKey_eq hsame
  dsimp only at hleft hright hpresent
  rw [hleft, Bool.not_eq_true'] at hpresent
  have hx := @read_some x (columnPath l.leg.other l.leg.otherColumn) (hleft ▸ hpresent)
  have hrow := @read_some r (columnPath l.leg.aliasName l.leg.column) (hright ▸ hpresent)
  rw [hleft] at hx
  rw [hright] at hrow
  have hlacks : r (columnPath l.leg.other l.leg.otherColumn) = none := by
    refine over_none h.distinct (List.cons_subset.mpr ⟨h.mem, List.nil_subset _⟩) (h.covered h.other_mem) ?_ hr
    intro hmem
    exact h.notMem (List.mem_singleton.mp hmem ▸ h.other_mem)
  unfold sqlOn JoinedRow.read mergeRow
  rw [on_forward hrev]
  dsimp only
  rw [hlacks, hrow, Option.none_or, hext _ _ hx]
  exact he.same p hpresent

theorem over_sqlLeg (hacc : ∀ row ∈ acc, Over as row) :
    ∀ row ∈ sqlLeg eq contents acc l, Over (l.aliasName :: as) row := by
  intro row hrow
  rcases List.mem_append.mp hrow with hrow | hrow
  · exact over_merged hacc (over_legRows _ _) row hrow
  · split at hrow
    · refine over_mono ?_ (over_legRows _ _ row (List.mem_of_mem_filter hrow))
      exact List.cons_subset_cons _ (List.nil_subset _)
    · cases hrow

theorem fedLeg_extends (he : Equijoin.SqlEquality eq) (h : Stage aliases as (l :: legs)) {acc' : List JoinedRow}
    (hacc' : ∀ row ∈ acc', Over as row) (hext : ∀ x ∈ acc, ∃ y ∈ acc', Extends y x) :
    ∀ x ∈ fedLeg contents acc l, ∃ y ∈ sqlLeg eq contents acc' l, Extends y x := by
  have hkept : l.kind = .left → ∀ x ∈ acc, ∃ y ∈ sqlLeg eq contents acc' l, Extends y x := by
    intro hkind x hx
    have ⟨x', hx', hxx'⟩ := hext x hx
    have hkeep : l.kind.keepsLeft = true := by
      rw [hkind]
      rfl
    have ⟨y, hy, hyx⟩ := @exists_extends contents _ _ _ _ _ h hacc' _ hkeep (sqlOn eq l.leg.on) _ hx'
    exact ⟨y, List.mem_append_left _ hy, hyx.trans hxx'⟩
  intro x hx
  cases hrev : l.leg.reversed with
  | true =>
    rw [fedLeg_reversed hrev] at hx
    split at hx
    case isTrue hkind => exact hkept hkind x hx
    case isFalse => cases hx
  | false =>
    rw [fedLeg_forward hrev] at hx
    have ⟨⟨u, o⟩, hpair, heq⟩ := List.mem_map.mp hx
    subst heq
    cases o with
    | none => exact hkept (of_decide_eq_true (none_mem_outerPairs hpair)) u (fst_mem_outerPairs hpair)
    | some r =>
      have ⟨hu, hr, hlinked⟩ := mem_outerPairs.mp hpair
      have ⟨u', hu', huu'⟩ := hext u hu
      have hon := sqlOn_of_linked he h hrev huu' (over_legRows _ _ r hr) hlinked
      have hpair' : (u', some r) ∈ outerPairs l.kind.keepsLeft (sqlOn eq l.leg.on) acc'
          (legRows contents l.aliasName) := mem_outerPairs.mpr ⟨hu', hr, hon⟩
      exact ⟨mergeRow u' r, List.mem_append_left _ (List.mem_map.mpr ⟨_, hpair', rfl⟩), extends_merge huu' r⟩

theorem foldl_extends (he : Equijoin.SqlEquality eq) (h : Stage aliases as legs) {acc' : List JoinedRow}
    (hacc' : ∀ row ∈ acc', Over as row) (hext : ∀ x ∈ acc, ∃ y ∈ acc', Extends y x) :
    ∀ x ∈ legs.foldl (fedLeg contents) acc, ∃ y ∈ legs.foldl (sqlLeg eq contents) acc', Extends y x := by
  induction legs generalizing as acc acc' with
  | nil => exact hext
  | cons l legs ih => exact ih h.tail (over_sqlLeg hacc') (fedLeg_extends he h hacc' hext)

end

theorem TypedTree.fedJoin_extends {eq : JsValue → JsValue → Bool} (he : Equijoin.SqlEquality eq) (contents : Contents)
    (t : TypedTree) : ∀ x ∈ t.fedJoin contents, ∃ y ∈ t.sqlJoin eq contents, Extends y x :=
  foldl_extends he t.stage (over_legRows t.root _) fun x hx => ⟨x, hx, extends_refl x⟩

section

variable {contents : Contents} {aliases as : List String} {legs : List TypedLeg} {acc : List JoinedRow}

theorem foldl_fedLeg_nil (contents : Contents) (legs : List TypedLeg) : legs.foldl (fedLeg contents) [] = [] :=
  (Distributes.foldl (fedLeg_distributes contents) legs).nil

theorem foldl_fedLeg_reversed (h : ∃ l ∈ legs, l.leg.reversed = true ∧ l.kind ≠ .left) (acc : List JoinedRow) :
    legs.foldl (fedLeg contents) acc = [] := by
  induction legs generalizing acc with
  | nil =>
    have ⟨_, hl, _⟩ := h
    cases hl
  | cons m legs ih =>
    have ⟨l, hl, hrev, hkind⟩ := h
    rw [List.foldl_cons]
    cases List.mem_cons.mp hl with
    | inl heq =>
      rw [← heq, fedLeg_reversed hrev, if_neg hkind]
      exact foldl_fedLeg_nil contents legs
    | inr hmem => exact ih ⟨l, hmem, hrev, hkind⟩ _

theorem over_foldl (hacc : ∀ row ∈ acc, Over as row) :
    ∀ row ∈ legs.foldl (fedLeg contents) acc,
      Over (as ++ (legs.filter fun l => !l.leg.reversed).map TypedLeg.aliasName) row := by
  induction legs generalizing as acc with
  | nil =>
    intro row hrow
    exact over_mono (List.subset_append_left _ _) (hacc row hrow)
  | cons l legs ih =>
    intro row hrow
    have hover := ih (over_fedLeg hacc) row hrow
    cases hrev : l.leg.reversed with
    | true =>
      rw [hrev, if_pos rfl] at hover
      rw [List.filter_cons_of_neg (by simp [hrev])]
      exact hover
    | false =>
      rw [hrev, if_neg Bool.false_ne_true] at hover
      rw [List.filter_cons_of_pos (by simp [hrev]), List.map_cons]
      exact over_mono (fun a ha => List.perm_middle.mem_iff.mpr ha) hover

def HasKey (l : TypedLeg) (x : JoinedRow) : Prop := (x.read (columnPath l.aliasName l.leg.column)).isNullish = false

theorem HasKey.extends {l : TypedLeg} {x y : JoinedRow} (h : HasKey l x) (hext : Extends y x) : HasKey l y := by
  have hy := hext _ _ (read_some h)
  unfold HasKey at *
  have hread : y.read (columnPath l.aliasName l.leg.column) = x.read (columnPath l.aliasName l.leg.column) := by
    rw [JoinedRow.read, hy]
    rfl
  rw [hread]
  exact h

theorem hasKey_linked {l : TypedLeg} (hrev : l.leg.reversed = false) {x r : JoinedRow}
    (hlinked : linkedOn l.leg.on x r = true) : HasKey l (mergeRow x r) := by
  unfold linkedOn matchesOn at hlinked
  rw [on_forward hrev, Bool.and_eq_true] at hlinked
  have ⟨hsame, hpresent⟩ := hlinked
  have ⟨p, hleft, hright⟩ := sameKey_eq hsame
  dsimp only at hleft hright hpresent
  rw [hleft, Bool.not_eq_true'] at hpresent
  have hrow := @read_some r (columnPath l.leg.aliasName l.leg.column) (hright ▸ hpresent)
  have hread : (mergeRow x r).read (columnPath l.aliasName l.leg.column) = .prim p := by
    unfold JoinedRow.read mergeRow
    change ((r (columnPath l.leg.aliasName l.leg.column)).or _).getD _ = _
    rw [hrow, hright]
    rfl
  unfold HasKey
  rw [hread]
  exact hpresent

theorem foldl_survive (hleft : ∀ l ∈ legs, l.kind = .left) (h : Stage aliases as legs)
    (hacc : ∀ row ∈ acc, Over as row) : ∀ x ∈ acc, ∃ y ∈ legs.foldl (fedLeg contents) acc, Extends y x := by
  induction legs generalizing as acc with
  | nil => exact fun x hx => ⟨x, hx, extends_refl x⟩
  | cons l legs ih =>
    intro x hx
    have hkind := hleft l List.mem_cons_self
    have hstep : ∃ y ∈ fedLeg contents acc l, Extends y x := by
      cases hrev : l.leg.reversed with
      | true =>
        rw [fedLeg_reversed hrev, if_pos hkind]
        exact ⟨x, hx, extends_refl x⟩
      | false =>
        rw [fedLeg_forward hrev]
        exact exists_extends h hacc (decide_eq_true hkind) _ hx
    have ⟨y, hy, hyx⟩ := hstep
    have ⟨z, hz, hzy⟩ := ih (fun m hm => hleft m (List.mem_cons_of_mem _ hm)) h.tail (over_step hacc) y hy
    exact ⟨z, hz, hzy.trans hyx⟩

theorem foldl_left (hleft : ∀ l ∈ legs, l.kind = .left) (h : Stage aliases as legs)
    (hacc : ∀ row ∈ acc, Over as row) :
    legs.foldl (fedLeg contents) acc = acc ∨
      ∃ x ∈ legs.foldl (fedLeg contents) acc, ∃ l ∈ legs, l.leg.reversed = false ∧ HasKey l x := by
  induction legs generalizing as acc with
  | nil => exact .inl rfl
  | cons l legs ih =>
    have hkind := hleft l List.mem_cons_self
    have htail : ∀ m ∈ legs, m.kind = .left := fun m hm => hleft m (List.mem_cons_of_mem _ hm)
    rw [List.foldl_cons]
    by_cases hnone : fedLeg contents acc l = acc
    · have hnext := ih htail h.tail (@over_step contents _ l _ hacc)
      rw [hnone] at hnext ⊢
      exact hnext.imp_right fun ⟨x, hx, m, hm, hkey⟩ => ⟨x, hx, m, List.mem_cons_of_mem _ hm, hkey⟩
    · have hrev : l.leg.reversed = false := by
        by_contra hrev
        exact hnone ((fedLeg_reversed ((Bool.not_eq_false _).mp hrev)).trans (if_pos hkind))
      have hsome : ∃ x ∈ acc, ∃ r ∈ legRows contents l.aliasName, linkedOn l.leg.on x r = true := by
        by_contra hall
        refine hnone ?_
        rw [fedLeg_forward hrev, outerPairs_none, if_pos (decide_eq_true hkind)]
        intro x hx r hr
        by_contra hlinked
        exact hall ⟨x, hx, r, hr, (Bool.not_eq_false _).mp hlinked⟩
      have ⟨x, hx, r, hr, hlinked⟩ := hsome
      have hmem : mergeRow x r ∈ fedLeg contents acc l := by
        rw [fedLeg_forward hrev]
        exact List.mem_map.mpr ⟨(x, some r), mem_outerPairs.mpr ⟨hx, hr, hlinked⟩, rfl⟩
      have hsurvive := @foldl_survive contents _ _ _ (fedLeg contents acc l) htail h.tail (over_step hacc)
      have ⟨y, hy, hyx⟩ := hsurvive _ hmem
      exact .inr ⟨y, hy, l, List.mem_cons_self, hrev, (hasKey_linked hrev hlinked).extends hyx⟩

end

namespace TypedTree

variable {eq : JsValue → JsValue → Bool} {contents : Contents} {t : TypedTree} {i : ℕ}

theorem turn_map {β : Type} {g : TypedLeg → β} (h : ∀ l, g l.turn = g l) (t : TypedTree) (i : ℕ) :
    (t.turn i).legs.map g = t.legs.map g := map_modify_of h t.legs i

theorem turn_kinds (k : JoinKind) : (∀ l ∈ (t.turn i).legs, l.kind = k) ↔ ∀ l ∈ t.legs, l.kind = k := by
  have hkinds := turn_map (g := TypedLeg.kind) (fun _ => rfl) t i
  have hall : ∀ legs : List TypedLeg, (∀ l ∈ legs, l.kind = k) ↔ ∀ k' ∈ legs.map TypedLeg.kind, k' = k := by
    intro legs
    rw [List.forall_mem_map]
  rw [hall, hall, hkinds]

theorem turn_on (l : TypedLeg) : l.turn.leg.on = l.leg.on.flip := by
  unfold TypedLeg.turn TreeLeg.on JoinOn.flip
  cases hrev : l.leg.reversed <;> rfl

theorem sqlOn_flip (hsymm : ∀ v w, eq v w = eq w v) (on : JoinOn) : sqlOn eq on.flip = sqlOn eq on := by
  funext x r
  exact hsymm _ _

theorem sqlJoin_turn (hsymm : ∀ v w, eq v w = eq w v) : (t.turn i).sqlJoin eq contents = t.sqlJoin eq contents := by
  refine foldl_modify_of (fun acc l => ?_) t.legs i _
  unfold sqlLeg
  rw [turn_on, sqlOn_flip hsymm]
  rfl

theorem turn_broadcast {s : JoinSettings} {cards : Cards} (h : (t.turn i).Broadcast s cards) : t.Broadcast s cards := by
  have ⟨l, hlegs, hkind, hsmall⟩ := h
  have hmap := turn_map (g := fun l : TypedLeg => (l.kind, l.aliasName)) (fun _ => rfl) t i
  rw [hlegs, eq_comm, List.map_singleton, List.map_eq_singleton_iff] at hmap
  have ⟨m, hm, hml⟩ := hmap
  have ⟨hk, hname⟩ := Prod.mk.inj hml
  refine ⟨m, hm, hk.trans hkind, ?_⟩
  rw [hname]
  exact hsmall

theorem not_hasKey_turn {l : TypedLeg} (hi : t.legs[i]? = some l) (hrev : l.leg.reversed = false) :
    ∀ x ∈ (t.turn i).fedJoin contents, ¬ HasKey l x := by
  intro x hx hkey
  have hover := over_foldl (over_legRows t.root (contents t.root)) x hx
  have hnames : (t.turn i).legs.map TypedLeg.aliasName = t.legs.map TypedLeg.aliasName := turn_map (fun _ => rfl) t i
  have hnodup := t.distinct.nodup
  rw [List.nodup_cons] at hnodup
  have hmem := List.mem_of_getElem? hi
  have hnot : l.aliasName ∉ [t.root] ++ ((t.turn i).legs.filter fun m => !m.leg.reversed).map TypedLeg.aliasName := by
    intro hin
    rcases List.mem_append.mp hin with hroot | hleg
    · exact hnodup.1 (List.mem_singleton.mp hroot ▸ List.mem_map_of_mem hmem)
    · have ⟨m, hm, hname⟩ := List.mem_map.mp hleg
      have ⟨hm, hforward⟩ := List.mem_filter.mp hm
      have ⟨j, hj⟩ := List.mem_iff_getElem?.mp hm
      have hjname : (t.legs.map TypedLeg.aliasName)[j]? = (t.legs.map TypedLeg.aliasName)[i]? := by
        rw [← hnames, List.getElem?_map, hj, hnames, List.getElem?_map, hi]
        exact congrArg some hname
      have hlt : j < (t.legs.map TypedLeg.aliasName).length := by
        have hsome : (t.legs.map TypedLeg.aliasName)[j]? = some l.aliasName := by
          rw [hjname, List.getElem?_map, hi]
          rfl
        exact (List.getElem?_eq_some_iff.mp hsome).1
      have hji := (List.getElem?_inj hlt hnodup.2).mp hjname
      change (t.legs.modify i TypedLeg.turn)[j]? = some m at hj
      rw [hji, List.getElem?_modify, hi] at hj
      have hturn : (if i = i then l.turn else l) = m := Option.some.inj hj
      rw [if_pos rfl] at hturn
      rw [← hturn] at hforward
      unfold TypedLeg.turn at hforward
      rw [hrev] at hforward
      cases hforward
  have hsub : [t.root] ++ ((t.turn i).legs.filter fun m => !m.leg.reversed).map TypedLeg.aliasName ⊆
      t.root :: t.legs.map TypedLeg.aliasName := by
    rw [← hnames]
    exact List.cons_subset_cons _ (List.map_subset _ (List.filter_subset_self _))
  have hnone : x (columnPath l.aliasName l.leg.column) = none :=
    over_none t.distinct hsub (List.mem_cons_of_mem _ (List.mem_map_of_mem hmem)) hnot hover
  unfold HasKey JoinedRow.read at hkey
  rw [hnone] at hkey
  cases hkey

/-- The rows are those of SQL, and stay when one ON is turned around. -/
structure Symmetric (t : TypedTree) (eq : JsValue → JsValue → Bool) (s : JoinSettings) (c : LooseComparison)
    (cards : Cards) (contents : Contents) : Prop where
  agrees : (t.executeJoin s c cards contents).Perm (t.sqlJoin eq contents)
  turned : ∀ i, ((t.turn i).executeJoin s c cards contents).Perm (t.executeJoin s c cards contents)

/-- Any two rows have one present value in the columns of the ON. -/
def AllLinked (t : TypedTree) (contents : Contents) : Prop :=
  ∀ l ∈ t.legs, ∀ u ∈ contents t.root, ∀ w ∈ contents l.aliasName,
    sameKey (column u l.leg.otherColumn) (column w l.leg.column) = true ∧
      (column u l.leg.otherColumn).isNullish = false

/-- The rows of a join that finds no partner: none unless all joins are LEFT. -/
def unmatched (t : TypedTree) (contents : Contents) : List JoinedRow :=
  if ∀ l ∈ t.legs, l.kind = .left then legRows contents t.root else []

/-- Two legs fetched whole are linked row by row; otherwise SQL joins nothing. -/
structure HoldsWhen (t : TypedTree) (eq : JsValue → JsValue → Bool) (s : JoinSettings) (cards : Cards)
    (contents : Contents) : Prop where
  whole : t.Broadcast s cards → t.AllLinked contents
  bound : ¬ t.Broadcast s cards → (t.sqlJoin eq contents).Perm (t.unmatched contents)

theorem unmatched_turn : (t.turn i).unmatched contents = t.unmatched contents := by
  unfold unmatched
  have hkinds := @turn_kinds t i .left
  by_cases hleft : ∀ l ∈ t.legs, l.kind = .left
  · rw [if_pos hleft, if_pos (hkinds.mpr hleft)]
    rfl
  · rw [if_neg hleft, if_neg fun h => hleft (hkinds.mp h)]

theorem inner_not_left (hinner : ∀ l ∈ t.legs, l.kind = .inner) : ¬ ∀ l ∈ t.legs, l.kind = .left := by
  intro hleft
  have ⟨l, hl⟩ := List.exists_mem_of_ne_nil _ t.nonempty
  have hkind := hinner l hl
  rw [hleft l hl] at hkind
  cases hkind

theorem fedJoin_unmatched (he : Equijoin.SqlEquality eq) (h : (t.sqlJoin eq contents).Perm (t.unmatched contents)) :
    t.fedJoin contents = t.unmatched contents := by
  have hext := t.fedJoin_extends he contents
  unfold unmatched at *
  by_cases hleft : ∀ l ∈ t.legs, l.kind = .left
  · rw [if_pos hleft] at h ⊢
    cases foldl_left hleft t.stage (over_legRows t.root (contents t.root)) with
    | inl hrows => exact hrows
    | inr hkey =>
      exfalso
      have ⟨x, hx, l, hl, _, hkey⟩ := hkey
      have ⟨y, hy, hyx⟩ := hext x hx
      have hover := over_legRows t.root _ y (h.mem_iff.mp hy)
      have hname : l.aliasName ∈ t.legs.map TypedLeg.aliasName := List.mem_map_of_mem hl
      have hnodup := t.distinct.nodup
      rw [List.nodup_cons] at hnodup
      have hnone : y (columnPath l.aliasName l.leg.column) = none := by
        refine over_none t.distinct ?_ (List.mem_cons_of_mem _ hname) ?_ hover
        · exact List.cons_subset_cons _ (List.nil_subset _)
        · intro hroot
          exact hnodup.1 (List.mem_singleton.mp hroot ▸ hname)
      have hread := hkey.extends hyx
      unfold HasKey JoinedRow.read at hread
      rw [hnone] at hread
      cases hread
  · rw [if_neg hleft] at h ⊢
    rw [List.eq_nil_iff_forall_not_mem]
    intro x hx
    have ⟨y, hy, _⟩ := hext x hx
    rw [h.eq_nil] at hy
    cases hy

theorem executeJoin_unmatched {s : JoinSettings} (hs : ReadsIn s.sourceIn) (c : LooseComparison) (cards : Cards)
    (hbound : ¬ t.Broadcast s cards) (hrows : t.fedJoin contents = t.unmatched contents) :
    (t.executeJoin s c cards contents).Perm (t.unmatched contents) := by
  rcases executeJoin_bound hs c cards contents t hbound with hperm | ⟨hnil, hinner⟩
  · rw [← hrows]
    exact hperm
  · unfold unmatched
    rw [hnil, if_neg (inner_not_left hinner)]

theorem executeJoin_reversed {s : JoinSettings} (hs : ReadsIn s.sourceIn) (c : LooseComparison) (cards : Cards)
    (hbound : ¬ t.Broadcast s cards) (h : ∃ l ∈ t.legs, l.leg.reversed = true ∧ l.kind ≠ .left) :
    t.executeJoin s c cards contents = [] := by
  have hrows : t.fedJoin contents = [] := foldl_fedLeg_reversed h _
  rcases executeJoin_bound hs c cards contents t hbound with hperm | ⟨hnil, _⟩
  · rw [hrows] at hperm
    exact hperm.eq_nil
  · exact hnil

theorem symmetric_bound {s : JoinSettings} (hs : ReadsIn s.sourceIn) {c : LooseComparison} {cards : Cards}
    (hbound : ¬ t.Broadcast s cards) (h : t.Symmetric eq s c cards contents) :
    (t.sqlJoin eq contents).Perm (t.unmatched contents) := by
  unfold unmatched
  by_cases hleft : ∀ l ∈ t.legs, l.kind = .left
  · rw [if_pos hleft]
    have hmixed : ¬ ∀ l ∈ t.legs, l.kind = .inner := fun hinner => inner_not_left hinner hleft
    have hexecute := t.executeJoin_mixed hs c cards contents hmixed
    have hagrees := h.agrees
    rw [hexecute] at hagrees
    cases foldl_left hleft t.stage (over_legRows t.root (contents t.root)) with
    | inl hrows =>
      have hrows : t.fedJoin contents = legRows contents t.root := hrows
      rw [hrows] at hagrees
      exact hagrees.symm
    | inr hkey =>
      exfalso
      have ⟨x, hx, l, hl, hrev, hkey⟩ := hkey
      have ⟨i, hi⟩ := List.mem_iff_getElem?.mp hl
      have hturned := h.turned i
      have hturn : ¬ ∀ l ∈ (t.turn i).legs, l.kind = .inner := fun hinner =>
        hmixed ((turn_kinds .inner).mp hinner)
      rw [hexecute, (t.turn i).executeJoin_mixed hs c cards contents hturn] at hturned
      exact not_hasKey_turn hi hrev x (hturned.mem_iff.mpr hx) hkey
  · rw [if_neg hleft]
    have hsome : ∃ l ∈ t.legs, l.kind ≠ .left := by
      by_contra hnone
      exact hleft fun l hl => by_contra fun hkind => hnone ⟨l, hl, hkind⟩
    have ⟨l, hl, hkind⟩ := hsome
    have hempty : t.executeJoin s c cards contents = [] := by
      cases hrev : l.leg.reversed with
      | true => exact executeJoin_reversed hs c cards hbound ⟨l, hl, hrev, hkind⟩
      | false =>
        have ⟨i, hi⟩ := List.mem_iff_getElem?.mp hl
        have hmem : l.turn ∈ (t.turn i).legs := by
          refine List.mem_iff_getElem?.mpr ⟨i, ?_⟩
          change (t.legs.modify i TypedLeg.turn)[i]? = some l.turn
          rw [List.getElem?_modify, hi]
          exact congrArg some (if_pos rfl)
        have hturn : l.turn.leg.reversed = true := by
          unfold TypedLeg.turn
          rw [hrev]
          rfl
        have hnil := @executeJoin_reversed contents (t.turn i) _ hs c cards
          (fun hb => hbound (turn_broadcast hb)) ⟨l.turn, hmem, hturn, hkind⟩
        have hturned := h.turned i
        rw [hnil] at hturned
        exact hturned.symm.eq_nil
    have hagrees := h.agrees
    rw [hempty] at hagrees
    exact hagrees.symm

section

variable {m : TypedLeg} {aliases : List String} {root : String}

theorem matchesOn_leg (h : Stage aliases [root] [m]) (u w : SourceRow) :
    matchesOn m.leg.on (qualify root u) (qualify m.aliasName w) =
      if m.leg.reversed then true else sameKey (column u m.leg.otherColumn) (column w m.leg.column) := by
  have hother : m.leg.other = root := List.mem_singleton.mp h.other_mem
  unfold matchesOn
  cases hrev : m.leg.reversed with
  | false =>
    rw [on_forward hrev, if_neg Bool.false_ne_true, hother]
    dsimp only
    rw [read_qualify]
    exact congrArg _ (read_qualify _ _ _)
  | true =>
    have hleft : qualify root u (columnPath m.leg.aliasName m.leg.column) = none :=
      over_none h.distinct h.covered h.mem h.notMem (over_qualify root u)
    have hright : qualify m.aliasName w (columnPath m.leg.other m.leg.otherColumn) = none := by
      refine over_none h.distinct (List.cons_subset.mpr ⟨h.mem, List.nil_subset _⟩) (h.covered h.other_mem) ?_
        (over_qualify m.aliasName w)
      intro hmem
      exact h.notMem (List.mem_singleton.mp hmem ▸ h.other_mem)
    rw [on_reversed hrev, if_pos rfl]
    unfold JoinedRow.read
    rw [hleft, hright]
    rfl

theorem sqlOn_leg (hsymm : ∀ v w, eq v w = eq w v) (h : Stage aliases [root] [m]) (u w : SourceRow) :
    sqlOn eq m.leg.on (qualify root u) (qualify m.aliasName w) =
      eq (column u m.leg.otherColumn) (column w m.leg.column) := by
  have hother : m.leg.other = root := List.mem_singleton.mp h.other_mem
  have hforward : sqlOn eq m.leg.on =
      sqlOn eq ⟨columnPath m.leg.other m.leg.otherColumn, columnPath m.leg.aliasName m.leg.column⟩ := by
    cases hrev : m.leg.reversed with
    | false => rw [on_forward hrev]
    | true =>
      rw [on_reversed hrev, ← sqlOn_flip hsymm]
      rfl
  have hlacks : qualify m.aliasName w (columnPath m.leg.other m.leg.otherColumn) = none := by
    refine over_none h.distinct (List.cons_subset.mpr ⟨h.mem, List.nil_subset _⟩) (h.covered h.other_mem) ?_
      (over_qualify m.aliasName w)
    intro hmem
    exact h.notMem (List.mem_singleton.mp hmem ▸ h.other_mem)
  have habsent : qualify root u (columnPath m.leg.aliasName m.leg.column) = none :=
    over_none h.distinct h.covered h.mem h.notMem (over_qualify root u)
  rw [hforward]
  unfold sqlOn JoinedRow.read mergeRow
  dsimp only
  rw [hlacks, habsent, Option.none_or, Option.or_none, hother, qualify_path]
  exact congrArg (fun o : Option JsValue => eq _ (o.getD .undefined)) (qualify_path m.aliasName _ w)

end

theorem sqlJoin_inner {l : TypedLeg} (hlegs : t.legs = [l]) (hkind : l.kind = .inner) :
    t.sqlJoin eq contents =
      mergePairs (pairs (sqlOn eq l.leg.on) (legRows contents t.root) (legRows contents l.aliasName)) := by
  unfold sqlJoin sqlLeg
  rw [hlegs, List.foldl_cons, List.foldl_nil, hkind]
  exact (List.append_nil _).trans (outerPairs_inner _ _ _)

theorem turn_legs {l : TypedLeg} (hlegs : t.legs = [l]) (i : ℕ) :
    (t.turn i).legs = [l] ∨ (t.turn i).legs = [l.turn] := by
  change t.legs.modify i TypedLeg.turn = _ ∨ t.legs.modify i TypedLeg.turn = _
  rw [hlegs]
  cases i with
  | zero => exact .inr rfl
  | succ i => exact .inl (by rw [List.modify_succ_cons, List.modify_nil])

theorem linked_of_lengths (he : Equijoin.SqlEquality eq) (hsymm : ∀ v w, eq v w = eq w v) {m₁ m₂ : TypedLeg}
    {aliases : List String} {root : String} (h₁ : Stage aliases [root] [m₁]) (h₂ : Stage aliases [root] [m₂])
    (hname : m₁.aliasName = m₂.aliasName) (hrev₁ : m₁.leg.reversed = true) (hrev₂ : m₂.leg.reversed = false)
    (hforward : (pairs (matchesOn m₁.leg.on) (legRows contents root) (legRows contents m₂.aliasName)).length =
      (pairs (matchesOn m₂.leg.on) (legRows contents root) (legRows contents m₂.aliasName)).length)
    (hsql : (pairs (matchesOn m₁.leg.on) (legRows contents root) (legRows contents m₂.aliasName)).length =
      (pairs (sqlOn eq m₂.leg.on) (legRows contents root) (legRows contents m₂.aliasName)).length) :
    ∀ u ∈ contents root, ∀ w ∈ contents m₂.aliasName,
      sameKey (column u m₂.leg.otherColumn) (column w m₂.leg.column) = true ∧
        (column u m₂.leg.otherColumn).isNullish = false := by
  have hall : ∀ u w, matchesOn m₁.leg.on (qualify root u) (qualify m₂.aliasName w) = true := by
    intro u w
    rw [← hname, matchesOn_leg h₁, if_pos hrev₁]
  have hrows : ∀ rel : JoinedRow → JoinedRow → Bool, ∀ x ∈ legRows contents root,
      ∀ r ∈ legRows contents m₂.aliasName, rel x r = true → matchesOn m₁.leg.on x r = true := by
    intro rel x hx r hr _
    have ⟨u, _, hu⟩ := List.mem_map.mp hx
    have ⟨w, _, hw⟩ := List.mem_map.mp hr
    rw [← hu, ← hw]
    exact hall u w
  intro u hu w hw
  have hmatch := pairs_length_eq (hrows _) hforward.le _ (List.mem_map_of_mem hu) _ (List.mem_map_of_mem hw)
    (hall u w)
  have hon := pairs_length_eq (hrows _) hsql.le _ (List.mem_map_of_mem hu) _ (List.mem_map_of_mem hw) (hall u w)
  rw [matchesOn_leg h₂, hrev₂, if_neg Bool.false_ne_true] at hmatch
  rw [sqlOn_leg hsymm h₂] at hon
  exact ⟨hmatch, (he.present _ _ hon).1⟩

theorem pairs_linked (he : Equijoin.SqlEquality eq) (hsymm : ∀ v w, eq v w = eq w v) {m : TypedLeg}
    {aliases : List String} {root : String} (h : Stage aliases [root] [m])
    (hall : ∀ u ∈ contents root, ∀ w ∈ contents m.aliasName,
      sameKey (column u m.leg.otherColumn) (column w m.leg.column) = true ∧
        (column u m.leg.otherColumn).isNullish = false) :
    pairs (matchesOn m.leg.on) (legRows contents root) (legRows contents m.aliasName) =
      pairs (sqlOn eq m.leg.on) (legRows contents root) (legRows contents m.aliasName) := by
  refine pairs_congr_right fun x hx => List.filter_congr fun r hr => ?_
  have ⟨u, hu, hxu⟩ := List.mem_map.mp hx
  have ⟨w, hw, hrw⟩ := List.mem_map.mp hr
  have ⟨hsame, hpresent⟩ := hall u hu w hw
  have ⟨p, hleft, hright⟩ := sameKey_eq hsame
  rw [← hxu, ← hrw, matchesOn_leg h, sqlOn_leg hsymm h, hsame, ite_self, hleft, hright]
  rw [hleft] at hpresent
  exact (he.same p hpresent).symm

theorem stage_one {l : TypedLeg} (hlegs : t.legs = [l]) : Stage (t.root :: [l.aliasName]) [t.root] [l] := by
  have hstage := t.stage
  rw [hlegs] at hstage
  exact hstage

theorem symmetric_whole (he : Equijoin.SqlEquality eq) (hsymm : ∀ v w, eq v w = eq w v) {s : JoinSettings}
    (hs : ReadsIn s.sourceIn) {c : LooseComparison} {cards : Cards} {l : TypedLeg} (hlegs : t.legs = [l])
    (hkind : l.kind = .inner) (hsmall : isSmall s cards t.root = true ∧ isSmall s cards l.aliasName = true) :
    t.Symmetric eq s c cards contents ↔ t.AllLinked contents := by
  have hsql := @sqlJoin_inner eq contents t l hlegs hkind
  have hexecute := executeJoin_broadcast hs c cards contents t hlegs hkind hsmall
  have hturn : (t.turn 0).legs = [l.turn] := by
    change t.legs.modify 0 TypedLeg.turn = _
    rw [hlegs]
    rfl
  have hturned := executeJoin_broadcast hs c cards contents (t.turn 0) hturn hkind hsmall
  have hstage := stage_one hlegs
  have hstage' : Stage (t.root :: [l.aliasName]) [t.root] [l.turn] := stage_one hturn
  have hsqlOn : sqlOn eq l.turn.leg.on = sqlOn eq l.leg.on := by rw [turn_on, sqlOn_flip hsymm]
  constructor
  · intro h
    have hagrees := (hexecute.symm.trans h.agrees).length_eq
    have hagrees' := (hturned.symm.trans ((h.turned 0).trans h.agrees)).length_eq
    rw [hsql] at hagrees hagrees'
    unfold mergePairs at hagrees hagrees'
    rw [List.length_map, List.length_map] at hagrees hagrees'
    intro m hm
    rw [hlegs] at hm
    rw [List.mem_singleton.mp hm]
    cases hrev : l.leg.reversed with
    | true =>
      have hforward : l.turn.leg.reversed = false := by
        unfold TypedLeg.turn
        rw [hrev]
        rfl
      refine @linked_of_lengths eq contents he hsymm l l.turn _ _ hstage hstage' rfl hrev hforward
        (hagrees.trans hagrees'.symm) ?_
      rw [hsqlOn]
      exact hagrees
    | false =>
      have hreversed : l.turn.leg.reversed = true := by
        unfold TypedLeg.turn
        rw [hrev]
        rfl
      exact linked_of_lengths he hsymm hstage' hstage rfl hreversed hrev (hagrees'.trans hagrees.symm) hagrees'
  · intro hall
    have hall := hall l (hlegs ▸ List.mem_cons_self)
    have hagrees : (t.executeJoin s c cards contents).Perm (t.sqlJoin eq contents) := by
      rw [hsql, ← pairs_linked he hsymm hstage hall]
      exact hexecute
    refine ⟨hagrees, fun i => List.Perm.trans ?_ hagrees.symm⟩
    rw [hsql, ← hsqlOn]
    rcases turn_legs hlegs i with hl | hl
    · rw [hsqlOn, ← pairs_linked he hsymm hstage hall]
      exact executeJoin_broadcast hs c cards contents (t.turn i) hl hkind hsmall
    · have hpairs := pairs_linked he hsymm hstage' hall
      refine List.Perm.trans (executeJoin_broadcast hs c cards contents (t.turn i) hl hkind hsmall) (.of_eq ?_)
      exact congrArg mergePairs hpairs

end TypedTree

theorem plainEq_comm (v w : JsValue) : plainEq v w = plainEq w v := by
  unfold plainEq
  by_cases h : v = w
  · rw [h]
  · simp [h, Ne.symm h]

def customersFirst : TypedTree where
  root := "o"
  legs := [⟨.inner, ⟨"c", "id", "o", "customer", true⟩⟩]
  nonempty := List.cons_ne_nil _ _
  distinct := {
    nodup := by decide
    separated := by
      refine SeparatedNames.separated_of_notMem ?_
      have hplain : ∀ a ∈ ["o", "c"], '.' ∉ a.toList := by decide
      intro w hw
      have ⟨a, ha, hwa⟩ := hw
      rw [hwa]
      exact hplain a ha }
  linked := by simp [Linked]
  plain := by decide

def twoRows (col : String) : List SourceRow :=
  [Record.empty.assign col (.num 1), Record.empty.assign col (.num 2)]

def customerContents : Contents := fun a => if a = "o" then twoRows "customer" else twoRows "id"

def twoEach : Cards := fun _ => some 2

end DataFabric.SwappedConditions
