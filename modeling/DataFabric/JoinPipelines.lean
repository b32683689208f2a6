import DataFabric.JoinStrategies

set_option autoImplicit false

/-!
# The pipeline of a join

A chunk of driving rows goes through the legs one after the other. A leg is fetched by the
keys of the chunk where its join is an equality, as a whole otherwise.
-/
namespace DataFabric.JoinPipelines
open CharText JsValues KeyedJoins OrderedRecords FederatedJoins JoinReordering JoinStrategies

/-- A leg after the driving one; its join type is in upper case. -/
structure Leg where
  aliasName : String
  joinType : String
  on : JoinOn
  operator : String
  deriving DecidableEq

def operatorCode (operator : String) : String := upperCase (if operator = "" then "EQ" else operator)

/-- The `==`, `<` and `<=` of the language, which convert their operands. -/
structure LooseComparison where
  eq : JsValue → JsValue → Bool
  lt : JsValue → JsValue → Bool
  le : JsValue → JsValue → Bool

def evalOn (c : LooseComparison) (left : JsValue) (operator : String) (right : JsValue) : Bool :=
  let code := operatorCode operator
  if code ∈ ["NE", "!=", "<>"] then !c.eq left right
  else if code ∈ ["GT", ">"] then c.lt right left
  else if code ∈ ["GTE", ">="] then c.le right left
  else if code ∈ ["LT", "<"] then c.lt left right
  else if code ∈ ["LTE", "<="] then c.le left right
  else c.eq left right

namespace Leg

variable (lm : Leg)

def isEquiJoin : Bool := operatorCode lm.operator ∈ ["EQ", "="]

def canBind : Bool := lm.isEquiJoin && lm.joinType ∈ ["INNER", "LEFT", "RIGHT", "FULL"]

def keepUnmatchedLeft : Bool := lm.joinType = "LEFT"

/-- What the merge takes for a match: one `Map` key, or the comparison of the nested loop. -/
def matched (c : LooseComparison) (l r : JoinedRow) : Bool :=
  if lm.isEquiJoin then matchesOn lm.on l r else evalOn c (l.read lm.on.left) lm.operator (r.read lm.on.right)

def mergeJoin (c : LooseComparison) (left right : List JoinedRow) : List JoinedRow :=
  (outerPairs lm.keepUnmatchedLeft (lm.matched c) left right).map Equijoin.merged

/-- The rows that are asked for: of a bind join those with a key, none if there is no key. -/
def fetched (s : JoinSettings) (rows : List SourceRow) (acc : List JoinedRow) : List SourceRow :=
  if lm.canBind then
    let keys := bindKeys acc lm.on
    if keys = [] then [] else fetchBound s rows (baseColumn lm.on.right) keys
  else rows

end Leg

def joinLeg (s : JoinSettings) (c : LooseComparison) (contents : Contents) (acc : List JoinedRow) (lm : Leg) :
    List JoinedRow :=
  lm.mergeJoin c acc ((lm.fetched s (contents lm.aliasName) acc).map (qualify lm.aliasName))

def joinChunk (s : JoinSettings) (c : LooseComparison) (contents : Contents) (drivingAlias : String)
    (subsequentLegs : List Leg) (drivingRows : List SourceRow) : List JoinedRow :=
  subsequentLegs.foldl (joinLeg s c contents) (drivingRows.map (qualify drivingAlias))

theorem over_mono {as bs : List String} (h : as ⊆ bs) {row : JoinedRow} (hrow : Over as row) : Over bs row := by
  intro key hkey
  have ⟨a, ha, howned⟩ := hrow key hkey
  exact ⟨a, h ha, howned⟩

theorem over_legRows (a : String) (rows : List SourceRow) : ∀ row ∈ rows.map (qualify a), Over [a] row := by
  intro row hrow
  have ⟨r, _, hr⟩ := List.mem_map.mp hrow
  exact hr ▸ over_qualify a r

theorem over_merged {keep : Bool} {rel : JoinedRow → JoinedRow → Bool} {as : List String} {a : String}
    {ls rs : List JoinedRow} (hls : ∀ l ∈ ls, Over as l) (hrs : ∀ r ∈ rs, Over [a] r) :
    ∀ row ∈ (outerPairs keep rel ls rs).map Equijoin.merged, Over (a :: as) row := by
  intro row hrow
  have ⟨⟨l, o⟩, hpair, heq⟩ := List.mem_map.mp hrow
  subst heq
  cases o with
  | none => exact over_mono (List.subset_cons_self _ _) (hls l (fst_mem_outerPairs hpair))
  | some r =>
    have ⟨hl, hr, _⟩ := mem_outerPairs.mp hpair
    exact over_merge (hls l hl) (hrs r hr)

namespace Leg

variable {lm : Leg} {c : LooseComparison} {s : JoinSettings}

/-- The rows a leg links: under a bind join the key has to be present. -/
def links (lm : Leg) (c : LooseComparison) (l r : JoinedRow) : Bool :=
  if lm.canBind then linkedOn lm.on l r else lm.matched c l r

def joined (lm : Leg) (c : LooseComparison) (acc : List JoinedRow) (rows : List SourceRow) : List JoinedRow :=
  (outerPairs lm.keepUnmatchedLeft (lm.links c) acc (rows.map (qualify lm.aliasName))).map Equijoin.merged

def OwnRight (lm : Leg) : Prop := lm.on.right = columnPath lm.aliasName (baseColumn lm.on.right)

def NoLeft (lm : Leg) : Prop := ∀ a ≠ lm.aliasName, ¬ OwnedBy a lm.on.left

/-- A leg that is fetched by keys is matched by the column that is asked for, or by nothing. -/
def Keyed (lm : Leg) : Prop := lm.canBind = true → lm.OwnRight ∨ lm.NoLeft

def KeyedAmong (aliases : List String) (lm : Leg) : Prop :=
  lm.canBind = true → lm.OwnRight ∨ ∀ a ∈ aliases, a ≠ lm.aliasName → ¬ OwnedBy a lm.on.left

theorem Keyed.among (h : lm.Keyed) (aliases : List String) : lm.KeyedAmong aliases := fun hbind =>
  (h hbind).imp_right fun hleft a _ => hleft a

theorem isEquiJoin_of_canBind (h : lm.canBind = true) : lm.isEquiJoin = true :=
  (Bool.and_eq_true _ _ |>.mp h).1

theorem matched_of_canBind (h : lm.canBind = true) : lm.matched c = matchesOn lm.on := by
  funext l r
  unfold matched
  rw [if_pos (isEquiJoin_of_canBind h)]

theorem joined_distributes (rows : List SourceRow) : Distributes fun acc => lm.joined c acc rows := by
  intro acc acc'
  dsimp only [joined]
  rw [outerPairs_append, List.map_append]

theorem over_joined {as : List String} {acc : List JoinedRow} (hacc : ∀ row ∈ acc, Over as row)
    (rows : List SourceRow) : ∀ row ∈ lm.joined c acc rows, Over (lm.aliasName :: as) row :=
  over_merged hacc (over_legRows lm.aliasName rows)

theorem readColumn_over {as : List String} {row : JoinedRow} (hrow : Over as row) (path : String) :
    readColumn row path = row.read path := by
  unfold readColumn JoinedRow.read
  cases row path with
  | some v => rfl
  | none =>
    have hbase : row (baseColumn path) = none := by
      by_contra hne
      have ⟨_, _, howned⟩ := hrow _ hne
      exact baseColumn_plain path (ownedBy_dot howned)
    rw [hbase]

section

variable {aliases as : List String} (has : as ⊆ aliases) (hnot : lm.aliasName ∉ as)
  (hleft : ∀ a ∈ aliases, a ≠ lm.aliasName → ¬ OwnedBy a lm.on.left)

include has hnot hleft

theorem left_absent {row : JoinedRow} (hrow : Over as row) : row lm.on.left = none := by
  by_contra hne
  have ⟨a, ha, howned⟩ := hrow _ hne
  exact hleft a (has ha) (fun heq => hnot (heq ▸ ha)) howned

theorem bindKeys_absent {acc : List JoinedRow} (hacc : ∀ row ∈ acc, Over as row) : bindKeys acc lm.on = [] := by
  rw [List.eq_nil_iff_forall_not_mem]
  intro v hv
  have ⟨⟨row, hrow, hread⟩, hpresent⟩ := mem_bindKeys.mp hv
  rw [readColumn_over (hacc row hrow), JoinedRow.read, left_absent has hnot hleft (hacc row hrow)] at hread
  rw [← hread] at hpresent
  cases hpresent

theorem linkedOn_absent {l : JoinedRow} (hl : Over as l) (r : JoinedRow) : linkedOn lm.on l r = false := by
  unfold linkedOn JoinedRow.read
  rw [left_absent has hnot hleft hl]
  exact Bool.and_false _

end

theorem filter_keyed (hs : ReadsIn s.sourceIn) (hbind : lm.canBind = true) {aliases as : List String}
    (hkeyed : lm.KeyedAmong aliases) (has : as ⊆ aliases) (hnot : lm.aliasName ∉ as) {acc : List JoinedRow} (hacc : ∀ row ∈ acc, Over as row) (rows : List SourceRow)
    {l : JoinedRow} (hl : l ∈ acc) :
    ((lm.fetched s rows acc).filter fun r => matchesOn lm.on l (qualify lm.aliasName r)) =
      rows.filter fun r => linkedOn lm.on l (qualify lm.aliasName r) := by
  unfold fetched
  rw [if_pos hbind]
  dsimp only
  cases hkeyed hbind with
  | inl hright =>
    rw [← filter_fetched hs hright rows hl]
    by_cases hkeys : bindKeys acc lm.on = []
    · rw [if_pos hkeys, hkeys]
      rfl
    · rw [if_neg hkeys]
  | inr hleft =>
    rw [if_pos (bindKeys_absent has hnot hleft hacc), List.filter_nil, eq_comm, List.filter_eq_nil_iff]
    intro r _
    rw [linkedOn_absent has hnot hleft (hacc l hl)]
    exact Bool.false_ne_true

theorem mergeJoin_fetched (hs : ReadsIn s.sourceIn) {aliases as : List String}
    (hkeyed : lm.KeyedAmong aliases) (has : as ⊆ aliases) (hnot : lm.aliasName ∉ as) {acc : List JoinedRow} (hacc : ∀ row ∈ acc, Over as row) (rows : List SourceRow) :
    lm.mergeJoin c acc ((lm.fetched s rows acc).map (qualify lm.aliasName)) = lm.joined c acc rows := by
  unfold mergeJoin joined
  refine congrArg _ (outerPairs_congr_right fun l hl => ?_)
  rw [List.filter_map, List.filter_map]
  refine congrArg _ ?_
  cases hbind : lm.canBind with
  | false =>
    have hfetched : lm.fetched s rows acc = rows := by
      unfold fetched
      rw [hbind, if_neg Bool.false_ne_true]
    have hlinks : lm.links c = lm.matched c := by
      funext l r
      unfold links
      rw [hbind, if_neg Bool.false_ne_true]
    rw [hfetched, hlinks]
  | true =>
    have hlinks : lm.links c = linkedOn lm.on := by
      funext l r
      unfold links
      rw [if_pos hbind]
    rw [matched_of_canBind hbind, hlinks]
    exact filter_keyed hs hbind hkeyed has hnot hacc rows hl

end Leg

section

variable {s : JoinSettings} {c : LooseComparison} {contents : Contents}

def joinAll (c : LooseComparison) (contents : Contents) (legs : List Leg) (acc : List JoinedRow) : List JoinedRow :=
  legs.foldl (fun acc lm => lm.joined c acc (contents lm.aliasName)) acc

theorem joinAll_distributes (legs : List Leg) : Distributes (joinAll c contents legs) :=
  Distributes.foldl (fun lm => lm.joined_distributes (contents lm.aliasName)) legs

theorem foldl_joinLeg (hs : ReadsIn s.sourceIn) {aliases : List String} {legs : List Leg}
    (hkeyed : ∀ lm ∈ legs, lm.KeyedAmong aliases) {as : List String} (has : as ++ legs.map Leg.aliasName ⊆ aliases)
    (hnodup : (as ++ legs.map Leg.aliasName).Nodup) {acc : List JoinedRow} (hacc : ∀ row ∈ acc, Over as row) : legs.foldl (joinLeg s c contents) acc = joinAll c contents legs acc := by
  unfold joinAll
  induction legs generalizing as acc with
  | nil => rw [List.foldl_nil, List.foldl_nil]
  | cons lm legs ih =>
    rw [List.map_cons] at hnodup has
    have hnot : lm.aliasName ∉ as := by
      intro hmem
      exact (List.nodup_append.mp hnodup).2.2 _ hmem _ List.mem_cons_self rfl
    have hleg : joinLeg s c contents acc lm = lm.joined c acc (contents lm.aliasName) := by
      unfold joinLeg
      exact Leg.mergeJoin_fetched hs (hkeyed lm List.mem_cons_self) (List.append_subset.mp has).1 hnot hacc _
    have hover := @Leg.over_joined lm c _ _ hacc (contents lm.aliasName)
    rw [List.foldl_cons, List.foldl_cons, hleg]
    refine ih (fun m hm => hkeyed m (List.mem_cons_of_mem _ hm)) ?_ ?_ hover
    · exact fun b hb => has (List.perm_middle.mem_iff.mpr hb)
    · exact (List.perm_middle.nodup_iff).mp hnodup

theorem joinChunk_eq (hs : ReadsIn s.sourceIn) {drivingAlias : String} {legs : List Leg}
    (hnodup : (drivingAlias :: legs.map Leg.aliasName).Nodup)
    (hkeyed : ∀ lm ∈ legs, lm.KeyedAmong (drivingAlias :: legs.map Leg.aliasName)) (rows : List SourceRow) :
    joinChunk s c contents drivingAlias legs rows = joinAll c contents legs (rows.map (qualify drivingAlias)) := by
  refine @foldl_joinLeg _ _ _ hs _ _ hkeyed [drivingAlias] (List.Subset.refl _) hnodup _ ?_
  exact over_legRows drivingAlias rows

theorem flatMap_joinChunk (hs : ReadsIn s.sourceIn) {drivingAlias : String} {legs : List Leg}
    (hnodup : (drivingAlias :: legs.map Leg.aliasName).Nodup)
    (hkeyed : ∀ lm ∈ legs, lm.KeyedAmong (drivingAlias :: legs.map Leg.aliasName)) (chunks : List (List SourceRow)) :
    chunks.flatMap (joinChunk s c contents drivingAlias legs) =
      joinChunk s c contents drivingAlias legs chunks.flatten := by
  rw [funext (joinChunk_eq hs hnodup hkeyed)]
  dsimp only
  rw [List.map_flatten, (joinAll_distributes legs).flatten, List.flatMap_map]

end

theorem afterPrefix_eq {p t y : String} (h : afterPrefix p t = some y) : t = p ++ y := by
  have ⟨rest, hrest⟩ := afterPrefix_some h
  have ht : t = p ++ String.ofList rest := by
    rw [← String.toList_inj, String.toList_append, String.toList_ofList, hrest]
  rw [ht, afterPrefix_append] at h
  rw [ht, Option.some.inj h]

theorem ownedBy_iff {a path : String} : OwnedBy a path ↔ ∃ col, path = columnPath a col := by
  constructor
  · rintro ⟨rest, hrest⟩
    refine ⟨String.ofList rest, ?_⟩
    rw [← String.toList_inj, ← hrest]
    simp [columnPath]
  · rintro ⟨col, hcol⟩
    rw [hcol]
    exact ownedBy_path a col

def oneIn (col : String) : SourceRow := Record.empty.assign col (.num 1)

theorem get?_oneIn (col d : String) : (oneIn col).get? d = if d = col then some (.num 1) else none := by
  unfold oneIn
  rw [Record.get?_assign]
  rfl

theorem read_oneIn (a col : String) : (qualify a (oneIn col)).read (columnPath a col) = .num 1 := by
  rw [read_qualify, column, get?_oneIn, if_pos rfl]
  rfl

theorem qualify_empty (a key : String) : qualify a Record.empty key = none := by
  unfold qualify
  cases afterPrefix (a ++ ".") key <;> rfl

theorem read_empty (a key : String) : (qualify a Record.empty).read key = .undefined := by
  unfold JoinedRow.read
  rw [qualify_empty]
  rfl

theorem read_right_absent {lm : Leg} (h : ¬ lm.OwnRight) :
    (qualify lm.aliasName (oneIn (baseColumn lm.on.right))).read lm.on.right = .undefined := by
  unfold JoinedRow.read qualify
  cases hafter : afterPrefix (lm.aliasName ++ ".") lm.on.right with
  | none => rfl
  | some col =>
    have hright : lm.on.right = columnPath lm.aliasName col := afterPrefix_eq hafter
    have hne : col ≠ baseColumn lm.on.right := by
      intro heq
      rw [heq] at hright
      exact h hright
    change ((oneIn (baseColumn lm.on.right)).get? col).getD .undefined = _
    rw [get?_oneIn, if_neg hne]
    rfl

theorem chunk_singleton {α : Type} {size : ℕ} (hsize : 0 < size) (x : α) : chunk size [x] = [[x]] := by
  have htake : [x].take size = [x] := List.take_of_length_le (by rw [List.length_singleton]; omega)
  change [x].take size :: slices size 0 _ = [[x]]
  rw [htake]
  rfl

section

variable {s : JoinSettings} {c : LooseComparison} {lm : Leg} {a x : String}

theorem bindKeys_one (hleft : lm.on.left = columnPath a x) (n : ℕ) :
    bindKeys ((oneIn x :: List.replicate n Record.empty).map (qualify a)) lm.on = [.num 1] := by
  have hread : ∀ r, readColumn (qualify a r) lm.on.left = (qualify a r).read lm.on.left :=
    fun r => Leg.readColumn_over (over_qualify a r) _
  unfold bindKeys
  rw [List.map_map, List.map_cons, List.map_replicate]
  simp only [Function.comp_apply, hread, read_empty]
  rw [hleft, read_oneIn, List.filter_cons_of_pos (by rfl), List.filter_replicate_of_neg (by decide)]
  rfl

theorem bindKeys_none : bindKeys ([Record.empty].map (qualify a)) lm.on = [] := by
  have hread : readColumn (qualify a Record.empty) lm.on.left = .undefined := by
    rw [Leg.readColumn_over (over_qualify a _), read_empty]
  unfold bindKeys
  rw [List.map_cons, List.map_cons, List.map_nil, List.map_nil, hread]
  rfl

theorem fetched_one (hs : ReadsIn s.sourceIn) (hbind : lm.canBind = true) {acc : List JoinedRow}
    (hkeys : bindKeys acc lm.on = [.num 1]) :
    lm.fetched s [oneIn (baseColumn lm.on.right)] acc = [oneIn (baseColumn lm.on.right)] := by
  have hone : column (oneIn (baseColumn lm.on.right)) (baseColumn lm.on.right) = .num 1 := by
    rw [column, get?_oneIn, if_pos rfl]
    rfl
  have hin : s.sourceIn (.num 1) [.num 1] = true := (hs.primitive _ _ rfl).mpr List.mem_cons_self
  unfold Leg.fetched fetchBound
  rw [if_pos hbind, hkeys]
  dsimp only
  rw [chunk_singleton s.bindMax_pos]
  simp [hone, hin]

theorem joinChunk_one (contents : Contents) (rows : List SourceRow) :
    joinChunk s c contents a [lm] rows =
      lm.mergeJoin c (rows.map (qualify a))
        ((lm.fetched s (contents lm.aliasName) (rows.map (qualify a))).map (qualify lm.aliasName)) := by
  unfold joinChunk
  rw [List.foldl_cons, List.foldl_nil, joinLeg]

theorem chunks_differ (hs : ReadsIn s.sourceIn) (hbind : lm.canBind = true) (hleft : lm.on.left = columnPath a x)
    (hright : ¬ lm.OwnRight) :
    joinChunk s c (fun _ => [oneIn (baseColumn lm.on.right)]) a [lm] [oneIn x, Record.empty] ≠
      [[oneIn x], [Record.empty]].flatMap
        (joinChunk s c (fun _ => [oneIn (baseColumn lm.on.right)]) a [lm]) := by
  have hone : matchesOn lm.on (qualify a (oneIn x))
      (qualify lm.aliasName (oneIn (baseColumn lm.on.right))) = false := by
    unfold matchesOn
    rw [read_right_absent hright, hleft, read_oneIn]
    rfl
  have hempty : matchesOn lm.on (qualify a Record.empty)
      (qualify lm.aliasName (oneIn (baseColumn lm.on.right))) = true := by
    unfold matchesOn
    rw [read_right_absent hright, read_empty]
    rfl
  have hboth : lm.fetched s [oneIn (baseColumn lm.on.right)] ([oneIn x, Record.empty].map (qualify a)) =
      [oneIn (baseColumn lm.on.right)] := fetched_one hs hbind (bindKeys_one hleft 1)
  have hfirst : lm.fetched s [oneIn (baseColumn lm.on.right)] ([oneIn x].map (qualify a)) =
      [oneIn (baseColumn lm.on.right)] := fetched_one hs hbind (bindKeys_one hleft 0)
  have hsecond : lm.fetched s [oneIn (baseColumn lm.on.right)] ([Record.empty].map (qualify a)) = [] := by
    unfold Leg.fetched
    rw [if_pos hbind, bindKeys_none]
    rfl
  intro heq
  rw [List.flatMap_cons, List.flatMap_cons, List.flatMap_nil, List.append_nil, joinChunk_one, joinChunk_one,
    joinChunk_one, hsecond] at heq
  unfold Leg.mergeJoin at heq
  rw [Leg.matched_of_canBind hbind, hboth, hfirst] at heq
  simp only [outerPairs, List.map_cons, List.map_nil, List.flatMap_cons, List.flatMap_nil, List.filter_cons,
    List.filter_nil, hone, hempty, List.append_nil, List.map_append, List.append_cancel_left_eq] at heq
  cases hkeep : lm.keepUnmatchedLeft with
  | false =>
    rw [hkeep] at heq
    simp [partners] at heq
  | true =>
    rw [hkeep] at heq
    simp only [partners, if_true, List.map_cons, List.map_nil, List.cons.injEq, and_true] at heq
    have hcell := congrFun heq (columnPath lm.aliasName (baseColumn lm.on.right))
    change ((qualify lm.aliasName _ _).or _) = qualify a Record.empty _ at hcell
    rw [qualify_empty, qualify_path, get?_oneIn, if_pos rfl] at hcell
    cases hcell

theorem keyed_of_agree (hs : ReadsIn s.sourceIn)
    (h : ∀ a ≠ lm.aliasName, ∀ (contents : Contents) (chunks : List (List SourceRow)),
      chunks.flatMap (joinChunk s c contents a [lm]) = joinChunk s c contents a [lm] chunks.flatten) : lm.Keyed := by
  intro hbind
  by_contra hnone
  have hright : ¬ lm.OwnRight := fun hright => hnone (.inl hright)
  have hsome : ∃ a, a ≠ lm.aliasName ∧ OwnedBy a lm.on.left := by
    by_contra hall
    exact hnone (.inr fun a ha howned => hall ⟨a, ha, howned⟩)
  have ⟨a, ha, howned⟩ := hsome
  have ⟨x, hleft⟩ := ownedBy_iff.mp howned
  have heq := h a ha (fun _ => [oneIn (baseColumn lm.on.right)]) [[oneIn x], [Record.empty]]
  exact chunks_differ hs hbind hleft hright heq.symm

end

/-- Whatever legs of these are joined, in whatever order, the chunks of the driving rows give, one after the
other, the rows of the whole list. -/
def ChunksAgree (s : JoinSettings) (c : LooseComparison) (among : Leg → Prop) : Prop :=
  ∀ (drivingAlias : String) (legs : List Leg), (drivingAlias :: legs.map Leg.aliasName).Nodup →
    (∀ lm ∈ legs, among lm) → ∀ (contents : Contents) (chunks : List (List SourceRow)),
      chunks.flatMap (joinChunk s c contents drivingAlias legs) =
        joinChunk s c contents drivingAlias legs chunks.flatten

/-- The chunks add up exactly when each leg that is fetched by keys is matched by a column of its own. -/
theorem chunksAgree_iff {s : JoinSettings} (hs : ReadsIn s.sourceIn) (c : LooseComparison) (among : Leg → Prop) :
    ChunksAgree s c among ↔ ∀ lm, among lm → lm.Keyed := by
  constructor
  · intro hagree lm hlm
    refine keyed_of_agree hs fun a ha contents chunks => hagree a [lm] ?_ ?_ contents chunks
    · simp [ha]
    · intro m hm
      rw [List.mem_singleton.mp hm]
      exact hlm
  · intro hkeyed drivingAlias legs hnodup hamong contents chunks
    exact flatMap_joinChunk hs hnodup (fun lm hlm => (hkeyed lm (hamong lm hlm)).among _) chunks

/-- The comparison of two values of one type, of which only numbers are ordered. -/
def sameTyped : LooseComparison where
  eq v w := v = w
  lt v w := match v, w with
    | .num p, .num q => p < q
    | _, _ => false
  le v w := match v, w with
    | .num p, .num q => p ≤ q
    | _, _ => false

def customersByRef : Leg where
  aliasName := "c"
  joinType := "INNER"
  on := ⟨"o.customer", "c.ref.id"⟩
  operator := "EQ"

theorem chunksAgree_customers : ReadsIn sqlSettings.sourceIn ∧
    (ChunksAgree sqlSettings sameTyped (· = customersByRef) ↔ ∀ lm, lm = customersByRef → lm.Keyed) :=
  ⟨readsIn_sqlSettings, chunksAgree_iff readsIn_sqlSettings sameTyped (· = customersByRef)⟩

/-- The customer that the first order asks for is found by the second one, which has none. -/
theorem customers_strayed : ¬ ∀ (s : JoinSettings) (c : LooseComparison) (drivingAlias : String) (legs : List Leg)
    (contents : Contents) (chunks : List (List SourceRow)), ReadsIn s.sourceIn →
    (drivingAlias :: legs.map Leg.aliasName).Nodup →
      chunks.flatMap (joinChunk s c contents drivingAlias legs) =
        joinChunk s c contents drivingAlias legs chunks.flatten := by
  intro h
  have heq := h sqlSettings sameTyped "o" [customersByRef] (fun _ => [oneIn "id"])
    [[oneIn "customer"], [Record.empty]] readsIn_sqlSettings (by decide)
  have hchunks : ([[oneIn "customer"], [Record.empty]].flatMap
      (joinChunk sqlSettings sameTyped (fun _ => [oneIn "id"]) "o" [customersByRef])).length = 0 := by decide
  have hwhole : (joinChunk sqlSettings sameTyped (fun _ => [oneIn "id"]) "o" [customersByRef]
      [oneIn "customer", Record.empty]).length = 1 := by decide
  have hlength := congrArg List.length heq
  rw [hchunks] at hlength
  exact absurd (hlength.trans hwhole) (by decide)

end DataFabric.JoinPipelines
