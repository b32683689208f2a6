import DataFabric.FederatedJoins
import DataFabric.SeparatedNames

set_option autoImplicit false

/-!
# Choosing the driving leg

The estimates move a leg of a tree of equijoins to the front. What that leaves
of the join: everything when the leg is the second one, nothing when it is a
later one.
-/
namespace DataFabric.JoinReordering
open CharText JsValues KeyedJoins OrderedRecords FederatedJoins

def columnPath (a c : String) : String := a ++ "." ++ c

/-- A leg and the equijoin that links one of its columns to an earlier leg, in either order. -/
structure TreeLeg where
  aliasName : String
  column : String
  other : String
  otherColumn : String
  reversed : Bool := false
  deriving DecidableEq

def TreeLeg.on (l : TreeLeg) : JoinOn :=
  if l.reversed then ⟨columnPath l.aliasName l.column, columnPath l.other l.otherColumn⟩
  else ⟨columnPath l.other l.otherColumn, columnPath l.aliasName l.column⟩

def TreeLeg.meta (l : TreeLeg) : LegMeta := ⟨l.aliasName, some l.on⟩

def Linked : List String → List TreeLeg → Prop
  | _, [] => True
  | seen, l :: ls => l.other ∈ seen ∧ Linked (l.aliasName :: seen) ls

/-- No alias is another one or continues it after a dot, so a qualified column has one leg. -/
structure DistinctAliases (aliases : List String) : Prop where
  nodup : aliases.Nodup
  separated : SeparatedNames.Separated '.' {w | ∃ a ∈ aliases, w = a.toList}

structure JoinTree where
  root : String
  first : TreeLeg
  rest : List TreeLeg
  distinct : DistinctAliases (root :: (first :: rest).map TreeLeg.aliasName)
  linked : Linked [root] (first :: rest)
  plain : ∀ l ∈ first :: rest, '.' ∉ l.column.toList ∧ '.' ∉ l.otherColumn.toList

def JoinTree.legs (t : JoinTree) : List LegMeta :=
  ⟨t.root, none⟩ :: (t.first :: t.rest).map TreeLeg.meta

theorem afterPrefix_some {p s c : String} (h : afterPrefix p s = some c) :
    p.toList <+: s.toList := by
  unfold afterPrefix at h
  split_ifs at h with hp
  exact (startsWith_iff _ _).mp hp

theorem afterPrefix_append (p c : String) : afterPrefix p (p ++ c) = some c := by
  unfold afterPrefix
  have hp : startsWith (p ++ c) p = true :=
    (startsWith_iff _ _).mpr ⟨c.toList, String.toList_append.symm⟩
  rw [if_pos hp, String.toList_append, List.drop_left, String.ofList_toList]

theorem qualify_path (a c : String) (r : SourceRow) : qualify a r (columnPath a c) = r.get? c := by
  unfold qualify columnPath
  rw [afterPrefix_append]
  rfl

def OwnedBy (a key : String) : Prop := SeparatedNames.Continues '.' a.toList key.toList

theorem ownedBy_path (a c : String) : OwnedBy a (columnPath a c) := by
  refine ⟨c.toList, ?_⟩
  simp [columnPath, String.toList_append]

theorem qualify_owned {a key : String} {r : SourceRow} (h : qualify a r key ≠ none) :
    OwnedBy a key := by
  unfold qualify at h
  cases hc : afterPrefix (a ++ ".") key with
  | none =>
    rw [hc] at h
    exact absurd rfl h
  | some c =>
    have hprefix := afterPrefix_some hc
    rwa [String.toList_append] at hprefix

theorem ownedBy_dot {a key : String} (h : OwnedBy a key) : '.' ∈ key.toList := by
  obtain ⟨rest, hrest⟩ := h
  rw [← hrest]
  simp

theorem baseColumn_path {a c : String} (hc : '.' ∉ c.toList) : baseColumn (columnPath a c) = c := by
  unfold baseColumn afterLast columnPath
  rw [String.toList_append, String.toList_append, List.reverse_append, List.reverse_append]
  have hall : ∀ d ∈ c.toList.reverse, decide (d ≠ '.') = true := by
    intro d hd
    have hne : d ≠ '.' := fun e => hc (e ▸ List.mem_reverse.mp hd)
    exact decide_eq_true hne
  rw [List.takeWhile_append_of_pos hall]
  simp

def Over (aliases : List String) (row : JoinedRow) : Prop :=
  ∀ key, row key ≠ none → ∃ a ∈ aliases, OwnedBy a key

theorem over_qualify (a : String) (r : SourceRow) : Over [a] (qualify a r) :=
  fun _ h => ⟨a, List.mem_cons_self, qualify_owned h⟩

theorem over_merge {as : List String} {a : String} {l r : JoinedRow} (hl : Over as l)
    (hr : Over [a] r) : Over (a :: as) (mergeRow l r) := by
  intro key h
  unfold mergeRow at h
  cases hk : r key with
  | some v =>
    have hne : r key ≠ none := by
      rw [hk]
      exact Option.some_ne_none v
    obtain ⟨b, hb, howned⟩ := hr key hne
    exact ⟨b, List.mem_cons.mpr (.inl (List.mem_singleton.mp hb)), howned⟩
  | none =>
    rw [hk, Option.none_or] at h
    obtain ⟨b, hb, howned⟩ := hl key h
    exact ⟨b, List.mem_cons_of_mem _ hb, howned⟩

theorem owned_unique {aliases : List String} (h : DistinctAliases aliases) {a b key : String}
    (ha : a ∈ aliases) (hb : b ∈ aliases) (hka : OwnedBy a key) (hkb : OwnedBy b key) : a = b := by
  by_contra hne
  have hnames : a.toList ≠ b.toList := fun e => hne (String.toList_inj.mp e)
  exact SeparatedNames.separated_disjoint h.separated ⟨a, ha, rfl⟩ ⟨b, hb, rfl⟩ hnames (.inr hka)
    (.inr hkb)

theorem over_none {aliases as : List String} (h : DistinctAliases aliases) (has : as ⊆ aliases)
    {a c : String} (ha : a ∈ aliases) (hnot : a ∉ as) {row : JoinedRow} (hrow : Over as row) :
    row (columnPath a c) = none := by
  by_contra hne
  obtain ⟨b, hb, howned⟩ := hrow _ hne
  exact hnot (owned_unique h ha (has hb) (ownedBy_path a c) howned ▸ hb)

theorem readColumn_path {as : List String} {row : JoinedRow} (hrow : Over as row) {a c : String}
    (hc : '.' ∉ c.toList) : readColumn row (columnPath a c) = row.read (columnPath a c) := by
  unfold readColumn
  cases hk : row (columnPath a c) with
  | some v =>
    unfold JoinedRow.read
    rw [hk]
    rfl
  | none =>
    have hbase : row c = none := by
      by_contra hne
      obtain ⟨b, _, howned⟩ := hrow c hne
      exact hc (ownedBy_dot howned)
    unfold JoinedRow.read
    rw [hk]
    simp only [baseColumn_path hc, hbase]

theorem readColumn_present {row : JoinedRow} {path : String} (h : (row.read path).isNullish = false) :
    readColumn row path = row.read path := by
  unfold readColumn JoinedRow.read at *
  cases hk : row path with
  | some v => rfl
  | none =>
    rw [hk] at h
    cases h

/-- The rows an equijoin links: equal keys that are present. -/
def linkedOn (on : JoinOn) (l r : JoinedRow) : Bool :=
  matchesOn on l r && !(l.read on.left).isNullish

def mergePairs (ps : List (JoinedRow × JoinedRow)) : List JoinedRow :=
  ps.map fun p => mergeRow p.1 p.2

def legRows (contents : Contents) (a : String) : List JoinedRow := (contents a).map (qualify a)

/-- What the join of a leg comes to: the linked pairs, none when the ON reads its own leg first. -/
def legSpec (contents : Contents) (acc : List JoinedRow) (l : TreeLeg) : List JoinedRow :=
  if l.reversed then []
  else mergePairs (pairs (linkedOn l.on) acc (legRows contents l.aliasName))

theorem sameKey_eq {v w : JsValue} (h : sameKey v w = true) : ∃ p, v = .prim p ∧ w = .prim p := by
  unfold sameKey at h
  split at h
  case h_1 p q =>
    have hpq : p = q := of_decide_eq_true h
    exact ⟨p, rfl, by rw [hpq]⟩
  case h_2 => cases h

theorem sameKey_comm (v w : JsValue) : sameKey v w = sameKey w v := by
  cases v with
  | prim p =>
    cases w with
    | prim q => simp [sameKey, eq_comm]
    | arr vs => rfl
    | obj fields => rfl
  | arr vs => cases w <;> rfl
  | obj fields => cases w <;> rfl

theorem read_qualify (a c : String) (r : SourceRow) :
    (qualify a r).read (columnPath a c) = column r c := by
  unfold JoinedRow.read column
  rw [qualify_path]

theorem mem_bindKeys {acc : List JoinedRow} {on : JoinOn} {v : JsValue} :
    v ∈ bindKeys acc on ↔ (∃ l ∈ acc, readColumn l on.left = v) ∧ v.isNullish = false := by
  unfold bindKeys
  rw [List.mem_eraseDups, List.mem_filter, List.mem_map, Bool.not_eq_true']

theorem filter_batch {s : JoinSettings} (hs : ReadsIn s.sourceIn) {l : JoinedRow} {on : JoinOn}
    {a c : String} (hright : on.right = columnPath a c) {p : Primitive}
    (hkey : l.read on.left = .prim p) (hpresent : (JsValue.prim p).isNullish = false)
    (rows : List SourceRow) (ks : List JsValue) :
    (rows.filter fun r => s.sourceIn (column r c) ks).filter (fun r => matchesOn on l (qualify a r)) =
      if JsValue.prim p ∈ ks then rows.filter (fun r => matchesOn on l (qualify a r)) else [] := by
  have hrow : ∀ r, matchesOn on l (qualify a r) = true →
      (s.sourceIn (column r c) ks = true ↔ JsValue.prim p ∈ ks) := by
    intro r hmatch
    unfold matchesOn at hmatch
    rw [hright, read_qualify, hkey] at hmatch
    obtain ⟨q, hq, hcol⟩ := sameKey_eq hmatch
    have hpq : p = q := JsValue.prim.inj hq
    rw [hcol, ← hpq]
    exact hs.primitive p ks hpresent
  rw [List.filter_filter]
  split
  case isTrue hmem =>
    refine List.filter_congr fun r _ => ?_
    by_cases hmatch : matchesOn on l (qualify a r) = true
    · rw [hmatch, (hrow r hmatch).mpr hmem]
      rfl
    · rw [Bool.not_eq_true] at hmatch
      rw [hmatch]
      rfl
  case isFalse hmem =>
    rw [List.filter_eq_nil_iff]
    intro r _ hboth
    obtain ⟨hmatch, hin⟩ := Bool.and_eq_true_iff.mp hboth
    exact hmem ((hrow r hmatch).mp hin)

theorem filter_fetched {s : JoinSettings} (hs : ReadsIn s.sourceIn) {acc : List JoinedRow}
    {on : JoinOn} {a c : String} (hright : on.right = columnPath a c) (rows : List SourceRow)
    {l : JoinedRow} (hl : l ∈ acc) :
    (fetchBound s rows c (bindKeys acc on)).filter (fun r => matchesOn on l (qualify a r)) =
      rows.filter fun r => linkedOn on l (qualify a r) := by
  unfold linkedOn
  cases hkey : l.read on.left with
  | arr vs => simp [matchesOn, hkey, sameKey]
  | obj fields => simp [matchesOn, hkey, sameKey]
  | prim p =>
    cases hpresent : (JsValue.prim p).isNullish with
    | true =>
      have hnone : ∀ r ∈ fetchBound s rows c (bindKeys acc on),
          ¬ matchesOn on l (qualify a r) = true := by
        intro r hr hmatch
        unfold matchesOn at hmatch
        rw [hright, read_qualify, hkey] at hmatch
        obtain ⟨q, hq, hcol⟩ := sameKey_eq hmatch
        obtain ⟨ks, _, hin⟩ := List.mem_flatMap.mp hr
        have hsource := (List.mem_filter.mp hin).2
        rw [hcol, ← hq, hs.nullish _ ks hpresent] at hsource
        cases hsource
      rw [List.filter_eq_nil_iff.mpr hnone]
      simp
    | false =>
      have hmem : JsValue.prim p ∈ bindKeys acc on :=
        mem_bindKeys.mpr ⟨⟨l, hl, (readColumn_present (hkey ▸ hpresent)).trans hkey⟩, hpresent⟩
      have hbatches := chunk_flatten s.bindMax_pos (bindKeys acc on)
      have hnodup : (chunk s.bindMax (bindKeys acc on)).flatten.Nodup := by
        rw [hbatches]
        exact nodup_eraseDups _
      have hkmem : JsValue.prim p ∈ (chunk s.bindMax (bindKeys acc on)).flatten := by
        rw [hbatches]
        exact hmem
      unfold fetchBound
      rw [List.filter_flatMap]
      simp only [filter_batch hs hright hkey hpresent]
      rw [flatMap_batches hnodup hkmem]
      simp

theorem mergeJoin_qualified (acc : List JoinedRow) (rows : List SourceRow) (a : String) (on : JoinOn) :
    mergeJoin acc (rows.map (qualify a)) on =
      acc.flatMap fun l => (rows.filter fun r => matchesOn on l (qualify a r)).map fun r =>
        mergeRow l (qualify a r) := by
  unfold mergeJoin pairs
  rw [List.map_flatMap]
  refine List.flatMap_congr fun l _ => ?_
  rw [List.filter_map, List.map_map, List.map_map]
  rfl

theorem legSpec_qualified (contents : Contents) (acc : List JoinedRow) {l : TreeLeg}
    (hfwd : l.reversed = false) :
    legSpec contents acc l = acc.flatMap fun x =>
      ((contents l.aliasName).filter fun r => linkedOn l.on x (qualify l.aliasName r)).map fun r =>
        mergeRow x (qualify l.aliasName r) := by
  unfold legSpec mergePairs pairs legRows
  rw [hfwd, if_neg Bool.false_ne_true, List.map_flatMap]
  refine List.flatMap_congr fun x _ => ?_
  rw [List.filter_map, List.map_map, List.map_map]
  rfl

theorem on_forward {l : TreeLeg} (h : l.reversed = false) :
    l.on = ⟨columnPath l.other l.otherColumn, columnPath l.aliasName l.column⟩ := by
  unfold TreeLeg.on
  rw [h, if_neg Bool.false_ne_true]

theorem on_reversed {l : TreeLeg} (h : l.reversed = true) :
    l.on = ⟨columnPath l.aliasName l.column, columnPath l.other l.otherColumn⟩ := by
  unfold TreeLeg.on
  rw [if_pos h]

theorem joinLeg_of_no_keys {s : JoinSettings} {contents : Contents} {acc : List JoinedRow}
    {a : String} {on : JoinOn} (h : bindKeys acc on = []) :
    joinLeg s contents acc ⟨a, some on⟩ = [] := by
  unfold joinLeg mergeJoin
  simp only [h, if_true, List.map_nil, pairs_nil_right]

theorem joinLeg_nil (s : JoinSettings) (contents : Contents) (lm : LegMeta) :
    joinLeg s contents [] lm = [] := by
  obtain ⟨a, on⟩ := lm
  cases on with
  | none => rfl
  | some on => exact joinLeg_of_no_keys rfl

theorem foldl_joinLeg_nil (s : JoinSettings) (contents : Contents) (legs : List LegMeta) :
    legs.foldl (joinLeg s contents) [] = [] := by
  induction legs with
  | nil => rfl
  | cons lm legs ih => rw [List.foldl_cons, joinLeg_nil, ih]

theorem joinLeg_absent {s : JoinSettings} {contents : Contents} {aliases as : List String}
    (hd : DistinctAliases aliases) (has : as ⊆ aliases) {acc : List JoinedRow}
    (hacc : ∀ row ∈ acc, Over as row) {a b c : String} {right : String} (hc : '.' ∉ c.toList)
    (hb : b ∈ aliases) (hnot : b ∉ as) :
    joinLeg s contents acc ⟨a, some ⟨columnPath b c, right⟩⟩ = [] := by
  refine joinLeg_of_no_keys ?_
  rw [List.eq_nil_iff_forall_not_mem]
  intro v hv
  obtain ⟨⟨row, hrow, hread⟩, hpresent⟩ := mem_bindKeys.mp hv
  rw [readColumn_path (hacc row hrow) hc] at hread
  unfold JoinedRow.read at hread
  rw [over_none hd has hb hnot (hacc row hrow)] at hread
  rw [← hread] at hpresent
  cases hpresent

theorem joinLeg_eq_spec {s : JoinSettings} (hs : ReadsIn s.sourceIn) {contents : Contents}
    {aliases as : List String} (hd : DistinctAliases aliases) (has : as ⊆ aliases)
    {acc : List JoinedRow} (hacc : ∀ row ∈ acc, Over as row) {l : TreeLeg}
    (hplain : '.' ∉ l.column.toList ∧ '.' ∉ l.otherColumn.toList) (hl : l.aliasName ∈ aliases)
    (hnot : l.aliasName ∉ as) : joinLeg s contents acc l.meta = legSpec contents acc l := by
  cases hrev : l.reversed with
  | true =>
    unfold TreeLeg.meta
    rw [on_reversed hrev, joinLeg_absent hd has hacc hplain.1 hl hnot]
    unfold legSpec
    rw [if_pos hrev]
  | false =>
    have hon := on_forward hrev
    have hright : l.on.right = columnPath l.aliasName l.column := by rw [hon]
    have hbase : baseColumn l.on.right = l.column := by
      rw [hright, baseColumn_path hplain.1]
    rw [legSpec_qualified _ _ hrev]
    unfold TreeLeg.meta joinLeg
    simp only [hbase]
    rw [mergeJoin_qualified]
    refine List.flatMap_congr fun row hrow => ?_
    by_cases hkeys : bindKeys acc l.on = []
    · rw [if_pos hkeys, ← filter_fetched hs hright (contents l.aliasName) hrow,
        hkeys]
      rfl
    · rw [if_neg hkeys, filter_fetched hs hright (contents l.aliasName) hrow]

theorem legSpec_over {contents : Contents} {as : List String} {acc : List JoinedRow}
    (hacc : ∀ row ∈ acc, Over as row) (l : TreeLeg) :
    ∀ row ∈ legSpec contents acc l, Over (l.aliasName :: as) row := by
  intro row hrow
  unfold legSpec mergePairs at hrow
  split_ifs at hrow
  · cases hrow
  · obtain ⟨p, hp, rfl⟩ := List.mem_map.mp hrow
    obtain ⟨hleft, hright, _⟩ := mem_pairs.mp hp
    obtain ⟨r, _, hr⟩ := List.mem_map.mp hright
    exact over_merge (hacc _ hleft) (hr ▸ over_qualify l.aliasName r)

theorem foldl_joinLeg_eq {s : JoinSettings} (hs : ReadsIn s.sourceIn) {contents : Contents}
    {aliases : List String} (hd : DistinctAliases aliases) {legs : List TreeLeg} {as : List String}
    (hall : (as ++ legs.map TreeLeg.aliasName).Nodup) (has : as ⊆ aliases)
    (hlegs : legs.map TreeLeg.aliasName ⊆ aliases) {acc : List JoinedRow}
    (hacc : ∀ row ∈ acc, Over as row)
    (hplain : ∀ l ∈ legs, '.' ∉ l.column.toList ∧ '.' ∉ l.otherColumn.toList) :
    (legs.map TreeLeg.meta).foldl (joinLeg s contents) acc = legs.foldl (legSpec contents) acc := by
  induction legs generalizing as acc with
  | nil => rfl
  | cons l legs ih =>
    rw [List.map_cons] at hall hlegs
    obtain ⟨hl, hrest⟩ := List.cons_subset.mp hlegs
    have hnot : l.aliasName ∉ as := by
      intro hmem
      exact (List.nodup_append.mp hall).2.2 _ hmem _ List.mem_cons_self rfl
    rw [List.map_cons, List.foldl_cons, List.foldl_cons,
      joinLeg_eq_spec hs hd has hacc (hplain l List.mem_cons_self) hl hnot]
    refine ih ?_ (List.cons_subset.mpr ⟨hl, has⟩) hrest (legSpec_over hacc l) fun m hm =>
      hplain m (List.mem_cons_of_mem _ hm)
    exact (List.perm_middle.nodup_iff).mp hall

theorem legSpec_distributes (contents : Contents) (l : TreeLeg) :
    Distributes fun acc => legSpec contents acc l := by
  intro acc acc'
  unfold legSpec mergePairs
  dsimp only
  split
  · rfl
  · rw [pairs_append, List.map_append]

theorem foldl_legSpec_nil (contents : Contents) (legs : List TreeLeg) : legs.foldl (legSpec contents) [] = [] :=
  (Distributes.foldl (legSpec_distributes contents) legs).nil

theorem flatMap_windows (contents : Contents) (legs : List TreeLeg) (q : SourceRow → JoinedRow)
    (windows : List (List SourceRow)) :
    (windows.flatMap fun w => legs.foldl (legSpec contents) (w.map q)) =
      legs.foldl (legSpec contents) (windows.flatten.map q) := by
  rw [List.map_flatten, (Distributes.foldl (legSpec_distributes contents) legs).flatten, List.flatMap_map]

def treeJoin (contents : Contents) (root : String) (legs : List TreeLeg) : List JoinedRow :=
  legs.foldl (legSpec contents) (legRows contents root)

theorem bindJoin_eq {s : JoinSettings} (hs : ReadsIn s.sourceIn) (contents : Contents) {root : String}
    {legs : List TreeLeg} (hd : DistinctAliases (root :: legs.map TreeLeg.aliasName))
    (hplain : ∀ l ∈ legs, '.' ∉ l.column.toList ∧ '.' ∉ l.otherColumn.toList) :
    bindJoin s contents (⟨root, none⟩ :: legs.map TreeLeg.meta) = treeJoin contents root legs := by
  unfold bindJoin treeJoin legRows
  have hwindow : ∀ w : List SourceRow, joinChunk s contents root (legs.map TreeLeg.meta) w =
      legs.foldl (legSpec contents) (w.map (qualify root)) := by
    intro w
    have hover : ∀ row ∈ w.map (qualify root), Over [root] row := by
      intro row hrow
      obtain ⟨r, _, rfl⟩ := List.mem_map.mp hrow
      exact over_qualify root r
    exact foldl_joinLeg_eq hs hd hd.nodup (List.cons_subset_cons _ (List.nil_subset _))
      (List.subset_cons_self _ _) hover hplain
  change (chunk windowSize (contents root)).flatMap
    (joinChunk s contents root (legs.map TreeLeg.meta)) = _
  rw [funext hwindow, flatMap_windows, chunk_flatten (by decide)]

theorem legSpec_perm {contents : Contents} {acc acc' : List JoinedRow} (h : acc.Perm acc')
    (l : TreeLeg) : (legSpec contents acc l).Perm (legSpec contents acc' l) := by
  unfold legSpec mergePairs
  split
  · exact .refl _
  · exact (pairs_perm_left _ h).map _

theorem foldl_legSpec_perm {contents : Contents} (legs : List TreeLeg) {acc acc' : List JoinedRow}
    (h : acc.Perm acc') :
    (legs.foldl (legSpec contents) acc).Perm (legs.foldl (legSpec contents) acc') := by
  induction legs generalizing acc acc' with
  | nil => exact h
  | cons l legs ih => exact ih (legSpec_perm h l)

theorem mergeRow_comm {aliases : List String} (hd : DistinctAliases aliases) {a b : String}
    (ha : a ∈ aliases) (hb : b ∈ aliases) (hab : a ≠ b) {l r : JoinedRow} (hl : Over [a] l)
    (hr : Over [b] r) : mergeRow l r = mergeRow r l := by
  funext key
  unfold mergeRow
  cases hlk : l key with
  | none => cases r key <;> rfl
  | some v =>
    cases hrk : r key with
    | none => rfl
    | some w =>
      have hlne : l key ≠ none := by
        rw [hlk]
        exact Option.some_ne_none v
      have hrne : r key ≠ none := by
        rw [hrk]
        exact Option.some_ne_none w
      obtain ⟨a', ha', hka⟩ := hl key hlne
      obtain ⟨b', hb', hkb⟩ := hr key hrne
      rw [List.mem_singleton.mp ha'] at hka
      rw [List.mem_singleton.mp hb'] at hkb
      exact absurd (owned_unique hd ha hb hka hkb) hab

theorem mergePairs_swap {aliases : List String} (hd : DistinctAliases aliases) {a b : String}
    (ha : a ∈ aliases) (hb : b ∈ aliases) (hab : a ≠ b) (contents : Contents)
    {rel rel' : JoinedRow → JoinedRow → Bool} (hrel : ∀ l r, rel l r = rel' r l) :
    (mergePairs (pairs rel (legRows contents a) (legRows contents b))).Perm
      (mergePairs (pairs rel' (legRows contents b) (legRows contents a))) := by
  have hswap := pairs_swap rel (legRows contents a) (legRows contents b)
  have hflip : pairs (fun r l => rel l r) (legRows contents b) (legRows contents a) =
      pairs rel' (legRows contents b) (legRows contents a) :=
    pairs_congr_right fun r _ => List.filter_congr fun l _ => hrel l r
  rw [hflip] at hswap
  refine List.Perm.trans ?_ (hswap.map fun p => mergeRow p.1 p.2)
  unfold mergePairs
  rw [List.map_map]
  refine List.Perm.of_eq (List.map_congr_left fun p hp => ?_)
  obtain ⟨hl, hr, _⟩ := mem_pairs.mp hp
  obtain ⟨x, _, hx⟩ := List.mem_map.mp hl
  obtain ⟨y, _, hy⟩ := List.mem_map.mp hr
  exact mergeRow_comm hd ha hb hab (hx ▸ over_qualify a x) (hy ▸ over_qualify b y)

theorem matchesOn_flip (on : JoinOn) (l r : JoinedRow) : matchesOn on l r = matchesOn on.flip r l :=
  sameKey_comm _ _

theorem linkedOn_flip (on : JoinOn) (l r : JoinedRow) : linkedOn on l r = linkedOn on.flip r l := by
  unfold linkedOn
  rw [← matchesOn_flip]
  cases hmatch : matchesOn on l r with
  | false => rfl
  | true =>
    obtain ⟨p, hl, hr⟩ := sameKey_eq hmatch
    unfold JoinOn.flip
    simp only [hl, hr]

def TreeLeg.flip (l : TreeLeg) : TreeLeg :=
  ⟨l.other, l.otherColumn, l.aliasName, l.column, l.reversed⟩

theorem flip_on (l : TreeLeg) : l.flip.on = l.on.flip := by
  unfold TreeLeg.on TreeLeg.flip JoinOn.flip
  split <;> rfl

theorem legSpec_flip {aliases : List String} (hd : DistinctAliases aliases) {l : TreeLeg}
    (hroot : l.other ∈ aliases) (hl : l.aliasName ∈ aliases) (hne : l.other ≠ l.aliasName)
    (contents : Contents) :
    (legSpec contents (legRows contents l.other) l).Perm
      (legSpec contents (legRows contents l.aliasName) l.flip) := by
  unfold legSpec
  rw [flip_on]
  change (if l.reversed then [] else _ : List JoinedRow).Perm (if l.reversed then [] else _)
  split
  · exact .refl _
  · exact mergePairs_swap hd hroot hl hne contents (linkedOn_flip l.on)

theorem bestStep_index (best : ℕ × Option ℚ) (card : Option ℚ × ℕ) :
    (bestStep best card).1 = best.1 ∨ (bestStep best card).1 = card.2 := by
  unfold bestStep
  split
  · exact .inl rfl
  · exact .inr rfl
  · split
    · exact .inr rfl
    · exact .inl rfl

theorem foldl_bestStep (cards : List (Option ℚ × ℕ)) (best : ℕ × Option ℚ) :
    (cards.foldl bestStep best).1 = best.1 ∨
      (cards.foldl bestStep best).1 ∈ cards.map Prod.snd := by
  induction cards generalizing best with
  | nil => exact .inl rfl
  | cons card cards ih =>
    rw [List.foldl_cons, List.map_cons, List.mem_cons]
    have hstep := bestStep_index best card
    rcases ih (bestStep best card) with h | h
    · rw [h]
      rcases hstep with h' | h'
      · exact .inl h'
      · exact .inr (.inl h')
    · exact .inr (.inr h)

theorem bestIndex_lt {cards : List (Option ℚ)} (h : 0 < cards.length) :
    bestIndex cards < cards.length := by
  unfold bestIndex
  rcases foldl_bestStep cards.zipIdx (0, cards.head?.join) with hzero | hmem
  · rw [hzero]
    exact h
  · obtain ⟨p, hp, hindex⟩ := List.mem_map.mp hmem
    rw [← hindex]
    exact List.snd_lt_of_mem_zipIdx hp

theorem drivingIndex_two (cards : Cards) (l r : LegMeta) : drivingIndex cards [l, r] ≤ 1 := by
  unfold drivingIndex
  dsimp only
  split
  · split <;> omega
  · omega

theorem drivingIndex_cases (cards : Cards) (t : JoinTree) :
    drivingIndex cards t.legs ≤ 1 ∨
      ∃ j l, drivingIndex cards t.legs = j + 2 ∧ t.rest[j]? = some l := by
  unfold JoinTree.legs
  cases hrest : t.rest with
  | nil =>
    exact .inl (drivingIndex_two cards _ _)
  | cons m rest =>
    have hlt := @bestIndex_lt ((⟨t.root, none⟩ :: (t.first :: m :: rest).map TreeLeg.meta).map
      fun lm => cards lm.aliasName) (by simp)
    simp only [List.length_map, List.length_cons] at hlt
    change bestIndex _ ≤ 1 ∨ ∃ j l, bestIndex _ = j + 2 ∧ _
    by_cases hk : bestIndex ((⟨t.root, none⟩ :: (t.first :: m :: rest).map TreeLeg.meta).map
      fun lm => cards lm.aliasName) ≤ 1
    · exact .inl hk
    · obtain ⟨j, hj⟩ := Nat.exists_eq_add_of_le' (Nat.not_le.mp hk)
      have hjlt : j < (m :: rest).length := by
        rw [List.length_cons]
        omega
      exact .inr ⟨j, (m :: rest)[j], hj, List.getElem?_eq_getElem hjlt⟩

/-- One of the first two legs has the smallest count, at least of those that are known. -/
def EarlySmallest (cards : Cards) (t : JoinTree) : Prop :=
  ∀ l ∈ t.rest, ∀ c, cards l.aliasName = some c →
    ∃ a ∈ [t.root, t.first.aliasName], ∃ d, cards a = some d ∧ d ≤ c

theorem foldl_bestStep_ge {n : ℕ} (cards : List (Option ℚ)) (i : ℕ) (best : ℕ × Option ℚ)
    (hi : n ≤ i) (hbest : n ≤ best.1) : n ≤ ((cards.zipIdx i).foldl bestStep best).1 := by
  rcases foldl_bestStep (cards.zipIdx i) best with h | h
  · omega
  · rw [List.zipIdx_map_snd] at h
    have hrange := List.mem_range'_1.mp h
    omega

theorem foldl_bestStep_le {n : ℕ} (cards : List (Option ℚ)) (i : ℕ) (best : ℕ × Option ℚ)
    (hi : n < i) (hbest : best.1 ≤ n) :
    ((cards.zipIdx i).foldl bestStep best).1 ≤ n ↔
      ∀ c, some c ∈ cards → ∃ d, best.2 = some d ∧ d ≤ c := by
  induction cards generalizing i with
  | nil => simp [hbest]
  | cons card cards ih =>
    rw [List.zipIdx_cons, List.foldl_cons]
    have hmoved : ∀ c, ¬ ((cards.zipIdx (i + 1)).foldl bestStep (i, some c)).1 ≤ n := by
      intro c
      have hge := foldl_bestStep_ge (n := i) cards (i + 1) (i, some c) (by omega) (by simp)
      omega
    cases card with
    | none =>
      have hstep : bestStep best (none, i) = best := rfl
      rw [hstep, ih (i + 1) (by omega)]
      simp
    | some c =>
      cases hmin : best.2 with
      | none =>
        have hstep : bestStep best (some c, i) = (i, some c) := by
          unfold bestStep
          rw [hmin]
        rw [hstep]
        refine iff_of_false (hmoved c) ?_
        intro h
        obtain ⟨d, hd, -⟩ := h c List.mem_cons_self
        cases hd
      | some m =>
        by_cases hlt : c < m
        · have hstep : bestStep best (some c, i) = (i, some c) := by
            unfold bestStep
            rw [hmin]
            exact if_pos hlt
          rw [hstep]
          refine iff_of_false (hmoved c) ?_
          intro h
          obtain ⟨d, hd, hle⟩ := h c List.mem_cons_self
          rw [Option.some.inj hd] at hlt
          exact absurd hlt (not_lt.mpr hle)
        · have hstep : bestStep best (some c, i) = best := by
            unfold bestStep
            rw [hmin]
            exact if_neg hlt
          rw [hstep, ih (i + 1) (by omega), hmin]
          constructor
          · intro h d hd
            rcases List.mem_cons.mp hd with hdc | hd
            · exact ⟨m, rfl, Option.some.inj hdc ▸ not_lt.mp hlt⟩
            · exact h d hd
          · intro h d hd
            exact h d (List.mem_cons_of_mem _ hd)

theorem bestStep_self (c : Option ℚ) (i : ℕ) : bestStep (i, c) (c, i) = (i, c) := by
  unfold bestStep
  cases c <;> simp

theorem bestStep_bounds (best : ℕ × Option ℚ) (card : Option ℚ × ℕ) (c : ℚ) :
    (∃ d, (bestStep best card).2 = some d ∧ d ≤ c) ↔
      (∃ d, best.2 = some d ∧ d ≤ c) ∨ ∃ d, card.1 = some d ∧ d ≤ c := by
  obtain ⟨i, m⟩ := best
  obtain ⟨n, j⟩ := card
  unfold bestStep
  cases n with
  | none => simp
  | some n =>
    cases m with
    | none => simp
    | some m =>
      by_cases h : n < m
      · simp only [h, if_true, Option.some.injEq, exists_eq_left']
        exact ⟨.inr, fun hc => hc.elim (fun hm => h.le.trans hm) id⟩
      · simp only [h, if_false, Option.some.injEq, exists_eq_left']
        exact ⟨.inl, fun hc => hc.elim id (fun hn => (not_lt.mp h).trans hn)⟩

theorem drivingIndex_le_one (cards : Cards) (t : JoinTree) :
    drivingIndex cards t.legs ≤ 1 ↔ EarlySmallest cards t := by
  unfold JoinTree.legs EarlySmallest
  cases hrest : t.rest with
  | nil =>
    exact iff_of_true (drivingIndex_two cards _ _) (by simp)
  | cons m rest =>
    change (((cards t.root :: cards t.first.aliasName ::
        ((m :: rest).map TreeLeg.meta).map fun lm => cards lm.aliasName).zipIdx.foldl bestStep
          (0, cards t.root)).1) ≤ 1 ↔ _
    rw [List.zipIdx_cons, List.zipIdx_cons, List.foldl_cons, List.foldl_cons, bestStep_self]
    have hindex := bestStep_index (0, cards t.root) (cards t.first.aliasName, 1)
    rw [foldl_bestStep_le (n := 1) _ _ _ (by omega) (by grind)]
    simp only [bestStep_bounds, List.map_map, List.mem_map]
    constructor
    · intro h l hl c hc
      rcases h c ⟨l, hl, hc⟩ with hroot | hfirst
      · exact ⟨_, List.mem_cons_self, hroot⟩
      · exact ⟨_, List.mem_cons_of_mem _ List.mem_cons_self, hfirst⟩
    · intro h c hc
      obtain ⟨l, hl, hlc⟩ := hc
      obtain ⟨a, ha, hbound⟩ := h l hl c hlc
      rcases List.mem_pair.mp ha with rfl | rfl
      · exact .inl hbound
      · exact .inr hbound

theorem JoinTree.first_other (t : JoinTree) : t.first.other = t.root :=
  List.mem_singleton.mp t.linked.1

theorem JoinTree.first_ne (t : JoinTree) : t.first.other ≠ t.first.aliasName := by
  rw [t.first_other]
  intro h
  have hnodup := t.distinct.nodup
  rw [List.map_cons, List.nodup_cons] at hnodup
  exact hnodup.1 (h ▸ List.mem_cons_self)

theorem swapDriving_zero (t : JoinTree) : swapDriving 0 t.legs = t.legs := rfl

theorem swapDriving_one (t : JoinTree) :
    swapDriving 1 t.legs =
      ⟨t.first.aliasName, none⟩ :: (t.first.flip :: t.rest).map TreeLeg.meta := by
  have hmeta : (⟨t.root, some t.first.on.flip⟩ : LegMeta) = t.first.flip.meta := by
    unfold TreeLeg.meta
    rw [flip_on]
    change _ = (⟨t.first.other, _⟩ : LegMeta)
    rw [t.first_other]
  rw [List.map_cons, ← hmeta]
  rfl

theorem swapDriving_later (t : JoinTree) {j : ℕ} {l : TreeLeg} (h : t.rest[j]? = some l) :
    swapDriving (j + 2) t.legs =
      ⟨l.aliasName, none⟩ :: t.first.meta :: (t.rest.map TreeLeg.meta).set j ⟨t.root, some l.on.flip⟩ := by
  have hget : t.legs[j + 2]? = some l.meta := by
    change (t.rest.map TreeLeg.meta)[j]? = some l.meta
    rw [List.getElem?_map, h]
    rfl
  unfold swapDriving
  rw [hget]
  rfl

def isSmall (s : JoinSettings) (cards : Cards) (a : String) : Bool :=
  match cards a with
  | some c => c ≤ s.broadcastMax
  | none => false

theorem runLegs_two (s : JoinSettings) (cards : Cards) (contents : Contents) (a b : String)
    (on : JoinOn) :
    runLegs s cards contents [⟨a, none⟩, ⟨b, some on⟩] =
      if isSmall s cards a = true ∧ isSmall s cards b = true then
        mergePairs (pairs (matchesOn on) (legRows contents a) (legRows contents b))
      else bindJoin s contents [⟨a, none⟩, ⟨b, some on⟩] := by
  unfold runLegs isSmall
  dsimp only
  cases cards a with
  | none => simp
  | some c =>
    cases cards b with
    | none => simp
    | some d =>
      simp only [decide_eq_true_eq]
      rfl

theorem DistinctAliases.perm {as bs : List String} (h : DistinctAliases as) (hp : as.Perm bs) :
    DistinctAliases bs where
  nodup := hp.nodup_iff.mp h.nodup
  separated := by
    refine SeparatedNames.separated_mono ?_ h.separated
    rintro w ⟨a, ha, hw⟩
    exact ⟨a, hp.mem_iff.mpr ha, hw⟩

theorem JoinTree.bindJoin_legs {s : JoinSettings} (hs : ReadsIn s.sourceIn) (contents : Contents)
    (t : JoinTree) : bindJoin s contents t.legs = treeJoin contents t.root (t.first :: t.rest) :=
  bindJoin_eq hs contents t.distinct t.plain

theorem JoinTree.bindJoin_swapped {s : JoinSettings} (hs : ReadsIn s.sourceIn) (contents : Contents)
    (t : JoinTree) :
    bindJoin s contents (⟨t.first.aliasName, none⟩ :: (t.first.flip :: t.rest).map TreeLeg.meta) =
      treeJoin contents t.first.aliasName (t.first.flip :: t.rest) := by
  refine bindJoin_eq hs contents ?_ ?_
  · refine t.distinct.perm ?_
    change (t.root :: t.first.aliasName :: _).Perm (t.first.aliasName :: t.first.other :: _)
    rw [t.first_other]
    exact .swap _ _ _
  · intro l hl
    rcases List.mem_cons.mp hl with rfl | hl
    · exact (t.plain t.first List.mem_cons_self).symm
    · exact t.plain l (List.mem_cons_of_mem _ hl)

theorem JoinTree.first_mem (t : JoinTree) :
    t.first.other ∈ t.root :: (t.first :: t.rest).map TreeLeg.aliasName ∧
      t.first.aliasName ∈ t.root :: (t.first :: t.rest).map TreeLeg.aliasName := by
  rw [t.first_other]
  exact ⟨List.mem_cons_self, List.mem_cons_of_mem _ List.mem_cons_self⟩

theorem JoinTree.swapped_perm {s : JoinSettings} (hs : ReadsIn s.sourceIn) (cards : Cards)
    (contents : Contents) (t : JoinTree) :
    (runLegs s cards contents (swapDriving 1 t.legs)).Perm (runLegs s cards contents t.legs) := by
  have hbind : (treeJoin contents t.first.aliasName (t.first.flip :: t.rest)).Perm
      (treeJoin contents t.root (t.first :: t.rest)) := by
    have hflip := legSpec_flip t.distinct t.first_mem.1 t.first_mem.2 t.first_ne contents
    rw [t.first_other] at hflip
    exact (foldl_legSpec_perm t.rest hflip).symm
  rw [swapDriving_one]
  cases hrest : t.rest with
  | cons m rest =>
    have hlegs : runLegs s cards contents t.legs = bindJoin s contents t.legs := by
      unfold JoinTree.legs
      rw [hrest]
      rfl
    have hswapped : runLegs s cards contents
          (⟨t.first.aliasName, none⟩ :: (t.first.flip :: m :: rest).map TreeLeg.meta) =
        bindJoin s contents
          (⟨t.first.aliasName, none⟩ :: (t.first.flip :: m :: rest).map TreeLeg.meta) := rfl
    rw [hswapped, hlegs, ← hrest, t.bindJoin_swapped hs, t.bindJoin_legs hs]
    exact hbind
  | nil =>
    have hlegs : t.legs = [⟨t.root, none⟩, ⟨t.first.aliasName, some t.first.on⟩] := by
      unfold JoinTree.legs
      rw [hrest]
      rfl
    have hswapped : (⟨t.first.aliasName, none⟩ : LegMeta) :: [t.first.flip].map TreeLeg.meta =
        [⟨t.first.aliasName, none⟩, ⟨t.root, some t.first.on.flip⟩] := by
      rw [← t.first_other, ← flip_on]
      rfl
    rw [hlegs, hswapped, runLegs_two, runLegs_two, ← hlegs, ← hswapped, ← hrest]
    by_cases hsmall : isSmall s cards t.root = true ∧ isSmall s cards t.first.aliasName = true
    · rw [if_pos hsmall, if_pos hsmall.symm]
      rw [← t.first_other]
      exact (mergePairs_swap t.distinct t.first_mem.1 t.first_mem.2 t.first_ne contents
        (matchesOn_flip t.first.on)).symm
    · rw [if_neg hsmall, if_neg fun h => hsmall h.symm, t.bindJoin_swapped hs, t.bindJoin_legs hs]
      exact hbind

theorem runLegs_many (s : JoinSettings) (cards : Cards) (contents : Contents) (a b c : LegMeta)
    (legs : List LegMeta) :
    runLegs s cards contents (a :: b :: c :: legs) = bindJoin s contents (a :: b :: c :: legs) := by
  obtain ⟨name, on⟩ := b
  cases on <;> rfl

theorem JoinTree.later_ne (t : JoinTree) {j : ℕ} {l : TreeLeg} (h : t.rest[j]? = some l) :
    l.aliasName ∈ t.root :: (t.first :: t.rest).map TreeLeg.aliasName ∧
      t.root ≠ l.aliasName ∧ t.first.aliasName ≠ l.aliasName := by
  have hl : l.aliasName ∈ t.rest.map TreeLeg.aliasName :=
    List.mem_map.mpr ⟨l, List.mem_of_getElem? h, rfl⟩
  have hnodup := t.distinct.nodup
  rw [List.map_cons, List.nodup_cons, List.nodup_cons] at hnodup
  refine ⟨List.mem_cons_of_mem _ (List.mem_cons_of_mem _ hl), ?_, ?_⟩
  · intro e
    exact hnodup.1 (e ▸ List.mem_cons_of_mem _ hl)
  · intro e
    exact hnodup.2.1 (e ▸ hl)

theorem JoinTree.swapped_later {s : JoinSettings} (cards : Cards) (contents : Contents) (t : JoinTree)
    {j : ℕ} {l : TreeLeg} (h : t.rest[j]? = some l) :
    runLegs s cards contents (swapDriving (j + 2) t.legs) = [] := by
  obtain ⟨hl, hroot, hfirst⟩ := t.later_ne h
  rw [swapDriving_later t h]
  have hmany : ∃ c legs, (t.rest.map TreeLeg.meta).set j ⟨t.root, some l.on.flip⟩ = c :: legs := by
    cases hrest : t.rest with
    | nil =>
      rw [hrest] at h
      cases h
    | cons m rest =>
      cases j with
      | zero => exact ⟨_, _, rfl⟩
      | succ j => exact ⟨_, _, rfl⟩
  obtain ⟨c, legs, hset⟩ := hmany
  rw [hset, runLegs_many]
  unfold bindJoin
  rw [List.flatMap_eq_nil_iff]
  intro w _
  have hover : ∀ row ∈ w.map (qualify l.aliasName), Over [l.aliasName] row := by
    intro row hrow
    obtain ⟨r, _, rfl⟩ := List.mem_map.mp hrow
    exact over_qualify l.aliasName r
  have hplain := t.plain t.first List.mem_cons_self
  have hsub : [l.aliasName] ⊆ t.root :: (t.first :: t.rest).map TreeLeg.aliasName :=
    List.cons_subset.mpr ⟨hl, List.nil_subset _⟩
  have hempty : joinLeg s contents (w.map (qualify l.aliasName)) t.first.meta = [] := by
    unfold TreeLeg.meta
    cases hrev : t.first.reversed with
    | true =>
      rw [on_reversed hrev]
      exact joinLeg_absent t.distinct hsub hover hplain.1 t.first_mem.2
        fun hmem => hfirst (List.mem_singleton.mp hmem)
    | false =>
      rw [on_forward hrev]
      refine joinLeg_absent t.distinct hsub hover hplain.2 t.first_mem.1 fun hmem => ?_
      exact hroot (t.first_other ▸ List.mem_singleton.mp hmem)
  unfold joinChunk
  rw [List.foldl_cons, hempty, foldl_joinLeg_nil]

theorem foldl_legSpec_reversed (contents : Contents) {legs : List TreeLeg}
    (h : ∃ l ∈ legs, l.reversed = true) (acc : List JoinedRow) :
    legs.foldl (legSpec contents) acc = [] := by
  induction legs generalizing acc with
  | nil =>
    obtain ⟨l, hl, _⟩ := h
    cases hl
  | cons m legs ih =>
    rw [List.foldl_cons]
    by_cases hm : m.reversed = true
    · have hempty : legSpec contents acc m = [] := if_pos hm
      rw [hempty, foldl_legSpec_nil]
    · obtain ⟨l, hl, hrev⟩ := h
      rcases List.mem_cons.mp hl with rfl | hl
      · exact absurd hrev hm
      · exact ih ⟨l, hl, hrev⟩ _

def onesRow (cols : List String) : SourceRow :=
  cols.foldl (fun r c => r.assign c (.num 1)) Record.empty

theorem get?_onesRow_foldl (cols : List String) (r : SourceRow) (c : String) :
    (cols.foldl (fun r c => r.assign c (.num 1)) r).get? c =
      if c ∈ cols then some (.num 1) else r.get? c := by
  induction cols generalizing r with
  | nil => simp
  | cons d cols ih =>
    rw [List.foldl_cons, ih, Record.get?_assign]
    by_cases hc : c ∈ cols
    · simp [hc]
    · by_cases hd : c = d <;> simp [hc, hd]

theorem get?_onesRow (cols : List String) (c : String) :
    (onesRow cols).get? c = if c ∈ cols then some (.num 1) else none :=
  get?_onesRow_foldl cols Record.empty c

def OnesOver (as cols : List String) (row : JoinedRow) : Prop :=
  ∀ a ∈ as, ∀ c ∈ cols, row (columnPath a c) = some (.num 1)

theorem onesOver_qualify (cols : List String) (a : String) :
    OnesOver [a] cols (qualify a (onesRow cols)) := by
  intro b hb c hc
  rw [List.mem_singleton.mp hb, qualify_path, get?_onesRow, if_pos hc]

theorem qualify_ones_or (cols : List String) (a key : String) :
    qualify a (onesRow cols) key = none ∨ qualify a (onesRow cols) key = some (.num 1) := by
  unfold qualify
  cases afterPrefix (a ++ ".") key with
  | none => exact .inl rfl
  | some c =>
    change (onesRow cols).get? c = none ∨ (onesRow cols).get? c = some (.num 1)
    rw [get?_onesRow]
    split
    · exact .inr rfl
    · exact .inl rfl

theorem onesOver_merge {as cols : List String} {row : JoinedRow} (h : OnesOver as cols row)
    (a : String) : OnesOver (a :: as) cols (mergeRow row (qualify a (onesRow cols))) := by
  intro b hb c hc
  unfold mergeRow
  rcases qualify_ones_or cols a (columnPath b c) with hnone | hone
  · rw [hnone, Option.none_or]
    rcases List.mem_cons.mp hb with rfl | hb
    · rw [qualify_path, get?_onesRow, if_pos hc] at hnone
      cases hnone
    · exact h b hb c hc
  · rw [hone]
    rfl

theorem foldl_ones (cols : List String) {legs : List TreeLeg} {as : List String}
    (hlinked : Linked as legs) (hcols : ∀ l ∈ legs, l.column ∈ cols ∧ l.otherColumn ∈ cols)
    (hfwd : ∀ l ∈ legs, l.reversed = false) {row : JoinedRow} (hrow : OnesOver as cols row) :
    ∃ row', legs.foldl (legSpec fun _ => [onesRow cols]) [row] = [row'] := by
  induction legs generalizing as row with
  | nil => exact ⟨row, rfl⟩
  | cons l legs ih =>
    obtain ⟨hother, hrest⟩ := hlinked
    obtain ⟨hcol, hocol⟩ := hcols l List.mem_cons_self
    have hl := hfwd l List.mem_cons_self
    have hleft : row.read (columnPath l.other l.otherColumn) = .num 1 := by
      unfold JoinedRow.read
      rw [hrow l.other hother l.otherColumn hocol]
      rfl
    have hright : (qualify l.aliasName (onesRow cols)).read (columnPath l.aliasName l.column) =
        .num 1 := by
      rw [read_qualify, column, get?_onesRow, if_pos hcol]
      rfl
    have hlink : linkedOn l.on row (qualify l.aliasName (onesRow cols)) = true := by
      unfold linkedOn matchesOn
      rw [on_forward hl, hleft, hright]
      decide
    have hstep : legSpec (fun _ => [onesRow cols]) [row] l =
        [mergeRow row (qualify l.aliasName (onesRow cols))] := by
      rw [legSpec_qualified _ _ hl]
      simp [hlink]
    rw [List.foldl_cons, hstep]
    exact ih hrest (fun m hm => hcols m (List.mem_cons_of_mem _ hm))
      (fun m hm => hfwd m (List.mem_cons_of_mem _ hm)) (onesOver_merge hrow l.aliasName)

def JoinTree.columns (t : JoinTree) : List String :=
  (t.first :: t.rest).flatMap fun l => [l.column, l.otherColumn]

theorem JoinTree.ones_join (t : JoinTree) (hfwd : ∀ l ∈ t.first :: t.rest, l.reversed = false) :
    ∃ row, treeJoin (fun _ => [onesRow t.columns]) t.root (t.first :: t.rest) = [row] := by
  refine foldl_ones t.columns t.linked ?_ hfwd (onesOver_qualify t.columns t.root)
  intro l hl
  exact ⟨List.mem_flatMap.mpr ⟨l, hl, List.mem_cons_self⟩,
    List.mem_flatMap.mpr ⟨l, hl, List.mem_cons_of_mem _ List.mem_cons_self⟩⟩

/-- Whatever the legs hold, the choice of the driving leg does not change the joined rows. -/
def Preserves (s : JoinSettings) (cards : Cards) (t : JoinTree) : Prop :=
  ∀ contents : Contents,
    (executeJoin s cards contents t.legs).Perm (runLegs s cards contents t.legs)

theorem JoinTree.runLegs_later {s : JoinSettings} (hs : ReadsIn s.sourceIn) (cards : Cards)
    (contents : Contents) (t : JoinTree) {j : ℕ} {l : TreeLeg} (h : t.rest[j]? = some l) :
    runLegs s cards contents t.legs = treeJoin contents t.root (t.first :: t.rest) := by
  rw [← t.bindJoin_legs hs]
  unfold JoinTree.legs
  cases hrest : t.rest with
  | nil =>
    rw [hrest] at h
    cases h
  | cons m rest => rfl

theorem sqlBindMax_pos : 0 < 1000 := by decide

def sqlSettings : JoinSettings where
  bindMax := 1000
  bindMax_pos := sqlBindMax_pos
  broadcastMax := 2000
  sourceIn v ks := !v.isNullish && decide (v ∈ ks)

theorem readsIn_sqlSettings : ReadsIn sqlSettings.sourceIn where
  primitive p ks hp := by simp [sqlSettings, hp]
  nullish v ks hv := by simp [sqlSettings, hv]

/-- Orders with their customer and their shipment, both found by the order's id. -/
def starTree : JoinTree where
  root := "o"
  first := ⟨"c", "id", "o", "id", false⟩
  rest := [⟨"s", "id", "o", "id", false⟩]
  distinct := {
    nodup := by decide
    separated := by
      refine SeparatedNames.separated_of_notMem ?_
      have hplain : ∀ a ∈ ["o", "c", "s"], '.' ∉ a.toList := by decide
      intro w hw
      obtain ⟨a, ha, hwa⟩ := hw
      rw [hwa]
      exact hplain a ha }
  linked := by simp [Linked]
  plain := by decide

/-- Three orders, two customers and one shipment, as the probes count them. -/
def starCards : Cards := fun a =>
  if a = "o" then some 3 else if a = "c" then some 2 else if a = "s" then some 1 else none

def starContents : Contents := fun a =>
  let ids := if a = "o" then [1, 2, 3] else if a = "c" then [1, 2] else if a = "s" then [1] else []
  ids.map fun n : ℚ => Record.empty.assign "id" (.num n)

end DataFabric.JoinReordering
