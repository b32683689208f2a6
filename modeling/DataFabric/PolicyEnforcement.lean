import DataFabric.FederatedReads

set_option autoImplicit false

/-! # Which read paths enforce the grants, the row policies and the masks -/
namespace DataFabric.PolicyEnforcement
open JsValues OrderedRecords KeyedJoins CanonicalFilters AccessPolicies FederatedJoins
open FederatedReads ExceptRules

def AllParts (P : Delivered → Prop) (rows : List TaggedRow) : Prop := ∀ r ∈ rows, ∀ d ∈ r.parts, P d

variable {P : Delivered → Prop}

theorem allParts_nil : AllParts P [] := fun _ h => absurd h List.not_mem_nil

theorem allParts_subset {rows rows' : List TaggedRow} (h : AllParts P rows) (hsub : rows' ⊆ rows) :
    AllParts P rows' := fun r hr => h r (hsub hr)

theorem allParts_append {rows rows' : List TaggedRow} (h : AllParts P rows) (h' : AllParts P rows') :
    AllParts P (rows ++ rows') := by
  intro r hr
  rcases List.mem_append.mp hr with hr | hr
  · exact h r hr
  · exact h' r hr

theorem allParts_qualifyAll {aliasName : String} {ds : List Delivered} (h : ∀ d ∈ ds, P d) :
    AllParts P (qualifyAll aliasName ds) := by
  intro r hr d hd
  obtain ⟨d', hd', rfl⟩ := List.mem_map.mp hr
  rw [List.mem_singleton.mp hd]
  exact h d' hd'

theorem allParts_single {ds : List Delivered} (h : ∀ d ∈ ds, P d) :
    AllParts P (ds.map singleRow) := by
  intro r hr d hd
  obtain ⟨d', hd', rfl⟩ := List.mem_map.mp hr
  rw [List.mem_singleton.mp hd]
  exact h d' hd'

theorem allParts_matchesOf {holds : JoinedRow → JoinedRow → Bool} {keep : Bool}
    {right : List TaggedRow} {l : TaggedRow} (hl : ∀ d ∈ l.parts, P d) (hright : AllParts P right) :
    AllParts P (matchesOf holds keep right l) := by
  intro r hr d hd
  unfold matchesOf at hr
  split at hr
  · split_ifs at hr
    · rw [List.mem_singleton.mp hr] at hd
      exact hl d hd
    · cases hr
  · obtain ⟨m, hm, rfl⟩ := List.mem_map.mp hr
    rcases List.mem_append.mp hd with hd | hd
    · exact hl d hd
    · exact hright m (List.mem_of_mem_filter hm) d hd

theorem allParts_mergeTaggedJoin {holds : JoinedRow → JoinedRow → Bool} {left right : List TaggedRow}
    {keep : Bool} (hleft : AllParts P left) (hright : AllParts P right) :
    AllParts P (mergeTaggedJoin holds left right keep) := by
  intro r hr
  obtain ⟨l, hl, hr⟩ := List.mem_flatMap.mp hr
  exact allParts_matchesOf (hleft l hl) hright r hr

theorem allParts_applyWhere {f : Fabric} {wheres : List AstGuard.WhereEntry} {rows : List TaggedRow}
    (h : AllParts P rows) : AllParts P (applyWhere f wheres rows) :=
  allParts_subset h (List.filter_subset_self _)

theorem allParts_applyOrderLimit {f : Fabric} {orderBy : List SortKey} {limit offset : Option ℕ}
    {rows : List TaggedRow} (h : AllParts P rows) :
    AllParts P (applyOrderLimit f orderBy limit offset rows) := by
  refine allParts_subset h ?_
  intro r hr
  exact (f.fabricSort_perm orderBy rows).subset (mem_of_mem_window hr)

theorem allParts_combineTagged {op : SetOp} {legs : List (List SelectItem × List Delivered)}
    (h : ∀ leg ∈ legs, ∀ d ∈ leg.2, P d) : AllParts P (combineTagged op legs) := by
  intro r hr d hd
  obtain ⟨v, _, rfl⟩ := List.mem_map.mp hr
  obtain ⟨leg, hleg, hd⟩ := List.mem_flatMap.mp hd
  exact h leg hleg d (List.mem_of_mem_filter hd)

theorem mapM_ok {α β : Type} {g : α → Except Failure β} {xs : List α} {ys : List β}
    (h : xs.mapM g = .ok ys) : ∀ y ∈ ys, ∃ x ∈ xs, g x = .ok y := by
  induction xs generalizing ys with
  | nil =>
    rw [List.mapM_nil] at h
    cases h
    intro y hy
    cases hy
  | cons x xs ih =>
    rw [List.mapM_cons] at h
    obtain ⟨y, hy, h⟩ := bind_ok h
    obtain ⟨zs, hzs, h⟩ := bind_ok h
    cases h
    intro z hz
    rcases List.mem_cons.mp hz with rfl | hz
    · exact ⟨x, List.mem_cons_self, hy⟩
    · obtain ⟨w, hw, hz⟩ := ih hzs z hz
      exact ⟨w, List.mem_cons_of_mem _ hw, hz⟩

theorem allParts_foldlM {α : Type} {g : List TaggedRow → α → Except Failure (List TaggedRow)}
    (hstep : ∀ acc x acc', AllParts P acc → g acc x = .ok acc' → AllParts P acc') {xs : List α}
    {acc rows : List TaggedRow} (hacc : AllParts P acc) (h : xs.foldlM g acc = .ok rows) :
    AllParts P rows := by
  induction xs generalizing acc with
  | nil =>
    rw [List.foldlM_nil] at h
    cases h
    exact hacc
  | cons x xs ih =>
    rw [List.foldlM_cons] at h
    obtain ⟨acc', hacc', h⟩ := bind_ok h
    exact ih (hstep acc x acc' hacc hacc') h

/-- The direct path has the grants, and the row policy and the masks where they resolve. -/
structure DirectlyGated (s : Setup) (f : Fabric) (d : Delivered) : Prop where
  granted : enforce s.gates s.session (keyOf f d.leg) "SELECT" = .ok ()
  restricted : ∀ pol, resolve s.gates s.session (keyOf f d.leg) = .ok pol →
    satisfies f.meets pol.filter d.raw = true ∧ d.row = applyMasks pol.masks d.fetched

structure Ungoverned (s : Setup) (f : Fabric) (d : Delivered) : Prop where
  granted : enforce s.gates s.session (keyOf f d.leg) "SELECT" = .ok ()
  open' : ∃ pol, resolve s.gates s.session (keyOf f d.leg) = .ok pol ∧ pol.filter.entries = [] ∧
    pol.masks = []
  plain : d.row = d.fetched

def Gated (s : Setup) (f : Fabric) (d : Delivered) : Prop :=
  match d.path with
  | .hub => d.leg.reachableInPg = true
  | .single | .bind | .broadcast => useLocal d.leg = true ∨ DirectlyGated s f d
  | .driving | .setOpLeg =>
    if s.testMode = true then useLocal d.leg = true ∨ DirectlyGated s f d else d.row = d.fetched
  | .colocatedSql => Ungoverned s f d
  | .colocatedMongo | .clientStream => d.row = d.fetched

variable {s : Setup} {f : Fabric}

theorem fetchLegDirect_gated {p : ReadPath} {leg : ResolvedLeg} {c : CanonicalQuery}
    {ds : List Delivered} (h : fetchLegDirect s f p leg c = .ok ds) :
    ∀ d ∈ ds, d.path = p ∧ (useLocal d.leg = true ∨ DirectlyGated s f d) := by
  intro d hd
  unfold fetchLegDirect at h
  split_ifs at h with hlocal
  · cases h
    obtain ⟨r, _, rfl⟩ := List.mem_map.mp hd
    exact ⟨rfl, .inl hlocal⟩
  · obtain ⟨_, hgrant, h⟩ := bind_ok h
    obtain ⟨rows, hrows, h⟩ := bind_ok h
    cases h
    obtain ⟨r, hr, rfl⟩ := List.mem_map.mp hd
    refine ⟨rfl, .inr ⟨?_, ?_⟩⟩
    · unfold liftGate at hgrant
      cases he : enforce s.gates s.session (keyOf f leg) "SELECT" with
      | error e =>
        rw [he] at hgrant
        cases hgrant
      | ok u => exact he
    · intro pol hpol
      have hresolve : resolve s.gates s.session (keyOf f leg) = .ok pol := hpol
      have hnone : policyOrNone s (keyOf f leg) = pol := by
        unfold policyOrNone
        rw [hresolve]
      rw [hnone] at hrows
      unfold readConnector at hrows
      split_ifs at hrows
      cases hrows
      have hmeets := (f.sourceSort_perm _ _).subset (mem_of_mem_window hr)
      refine ⟨satisfies_merge (List.mem_filter.mp hmeets).2, ?_⟩
      unfold maskedRow
      rw [hnone]

theorem fetchLegDirect_path {p : ReadPath} {leg : ResolvedLeg} {c : CanonicalQuery}
    {ds : List Delivered} (hp : p = .single ∨ p = .bind ∨ p = .broadcast)
    (h : fetchLegDirect s f p leg c = .ok ds) : ∀ d ∈ ds, Gated s f d := by
  intro d hd
  obtain ⟨hpath, hgated⟩ := fetchLegDirect_gated h d hd
  unfold Gated
  rw [hpath]
  rcases hp with rfl | rfl | rfl <;> exact hgated

theorem fetchLegStream_path {p : ReadPath} {leg : ResolvedLeg} {c : CanonicalQuery}
    {ds : List Delivered} (hp : p = .driving ∨ p = .setOpLeg)
    (h : fetchLegStream s f p leg c = .ok ds) : ∀ d ∈ ds, Gated s f d := by
  intro d hd
  unfold fetchLegStream at h
  split_ifs at h with htest hlocal
  · obtain ⟨hpath, hgated⟩ := fetchLegDirect_gated h d hd
    unfold Gated
    rw [hpath]
    rcases hp with rfl | rfl <;> exact (if_pos htest).symm ▸ hgated
  · cases h
    obtain ⟨r, _, rfl⟩ := List.mem_map.mp hd
    unfold Gated
    rcases hp with rfl | rfl <;> exact (if_neg htest).symm ▸ rfl
  · obtain ⟨rows, _, rfl⟩ := map_ok h
    obtain ⟨r, _, rfl⟩ := List.mem_map.mp hd
    unfold Gated
    rcases hp with rfl | rfl <;> exact (if_neg htest).symm ▸ rfl

theorem fetchRight_gated {wheres : List AstGuard.WhereEntry} {acc : List TaggedRow} {leg : FedLeg}
    {resolved : ResolvedLeg} {on : OnClause} {ds : List Delivered}
    (h : fetchRight s f wheres acc leg resolved on = .ok ds) : ∀ d ∈ ds, Gated s f d := by
  unfold fetchRight at h
  split_ifs at h
  · obtain ⟨batches, hbatches, rfl⟩ := map_ok h
    intro d hd
    obtain ⟨batch, hbatch, hd⟩ := List.mem_flatten.mp hd
    obtain ⟨keys, _, hfetch⟩ := mapM_ok hbatches batch hbatch
    exact fetchLegDirect_path (.inr (.inl rfl)) hfetch d hd
  · exact fetchLegDirect_path (.inr (.inl rfl)) h

theorem joinOne_gated {wheres : List AstGuard.WhereEntry} {acc : List TaggedRow} {leg : FedLeg}
    {rows : List TaggedRow} (hacc : AllParts (Gated s f) acc)
    (h : joinOne s f wheres acc leg = .ok rows) : AllParts (Gated s f) rows := by
  unfold joinOne at h
  split at h
  · cases h
    exact hacc
  · obtain ⟨resolved, _, h⟩ := bind_ok h
    obtain ⟨right, hright, h⟩ := bind_ok h
    cases h
    exact allParts_mergeTaggedJoin hacc (allParts_qualifyAll (fetchRight_gated hright))

theorem joinWindow_gated {wheres : List AstGuard.WhereEntry} {driving : FedLeg} {rest : List FedLeg}
    {ds : List Delivered} {rows : List TaggedRow} (hds : ∀ d ∈ ds, Gated s f d)
    (h : joinWindow s f wheres driving rest ds = .ok rows) : AllParts (Gated s f) rows :=
  allParts_foldlM (fun _ _ _ hacc hstep => joinOne_gated hacc hstep) (allParts_qualifyAll hds) h

theorem joinWindows_gated {wheres : List AstGuard.WhereEntry} {driving : FedLeg} {rest : List FedLeg}
    {windows : List (List Delivered)} {acc rows : List TaggedRow} (hacc : AllParts (Gated s f) acc)
    (hwindows : ∀ w ∈ windows, ∀ d ∈ w, Gated s f d)
    (h : joinWindows s f wheres driving rest acc windows = .ok rows) : AllParts (Gated s f) rows := by
  induction windows generalizing acc with
  | nil =>
    cases h
    exact hacc
  | cons w ws ih =>
    unfold joinWindows at h
    obtain ⟨joined, hjoined, h⟩ := bind_ok h
    have hw := joinWindow_gated (hwindows w List.mem_cons_self) hjoined
    have hboth := allParts_append hacc hw
    split_ifs at h
    · cases h
      exact allParts_subset hboth (List.take_subset _ _)
    · cases h
      exact hboth
    · exact ih hboth (fun w' hw' => hwindows w' (List.mem_cons_of_mem _ hw')) h

theorem bindLegs_gated {wheres : List AstGuard.WhereEntry} {driving : FedLeg} {rest : List FedLeg}
    {rows : List TaggedRow} (h : bindLegs s f wheres driving rest = .ok rows) :
    AllParts (Gated s f) rows := by
  unfold bindLegs at h
  obtain ⟨resolved, _, h⟩ := bind_ok h
  obtain ⟨ds, hds, h⟩ := bind_ok h
  refine joinWindows_gated allParts_nil ?_ h
  intro w hw d hd
  have hmem : d ∈ (chunk windowSize ds).flatten := List.mem_flatten.mpr ⟨w, hw, hd⟩
  rw [chunk_flatten (by decide)] at hmem
  exact fetchLegStream_path (.inl rfl) hds d hmem

theorem fetchWhole_gated {wheres : List AstGuard.WhereEntry} {leg : FedLeg} {rows : List TaggedRow}
    (h : fetchWhole s f wheres leg = .ok rows) : AllParts (Gated s f) rows := by
  unfold fetchWhole at h
  obtain ⟨resolved, _, h⟩ := bind_ok h
  obtain ⟨ds, hds, h⟩ := bind_ok h
  cases h
  exact allParts_qualifyAll (fetchLegDirect_path (.inr (.inr rfl)) hds)

theorem broadcastLegs_gated {wheres : List AstGuard.WhereEntry} {a0 a1 : FedLeg} {on : OnClause}
    {rows : List TaggedRow} (h : broadcastLegs s f wheres a0 a1 on = .ok rows) :
    AllParts (Gated s f) rows := by
  unfold broadcastLegs at h
  obtain ⟨r0, h0, h⟩ := bind_ok h
  obtain ⟨r1, h1, h⟩ := bind_ok h
  cases h
  exact allParts_mergeTaggedJoin (fetchWhole_gated h0) (fetchWhole_gated h1)

theorem joinLegs_gated {wheres : List AstGuard.WhereEntry} {legs : List FedLeg} {rows : List TaggedRow}
    (h : joinLegs s f wheres legs = .ok rows) : AllParts (Gated s f) rows := by
  unfold joinLegs at h
  split at h
  · dsimp only at h
    split_ifs at h
    · exact broadcastLegs_gated h
    · exact bindLegs_gated h
  · exact bindLegs_gated h
  · cases h
    exact allParts_nil

theorem executeSetOp_gated {op : SetOp} {legs : List Scan} {orderBy : List SortKey}
    {limit offset : Option ℕ} {rows : List TaggedRow}
    (h : executeSetOp s f op legs orderBy limit offset = .ok rows) : AllParts (Gated s f) rows := by
  unfold executeSetOp at h
  obtain ⟨fetched, hfetched, h⟩ := bind_ok h
  cases h
  refine allParts_applyOrderLimit (allParts_combineTagged ?_)
  intro leg hleg d hd
  obtain ⟨sc, _, hfetch⟩ := mapM_ok hfetched leg hleg
  unfold fetchSetLeg at hfetch
  obtain ⟨resolved, _, hfetch⟩ := bind_ok hfetch
  obtain ⟨ds, hds, hfetch⟩ := bind_ok hfetch
  cases hfetch
  exact fetchLegStream_path (.inr rfl) hds d (List.mem_of_mem_take hd)

theorem federate_gated {ast : Ast} {rows : List TaggedRow} (h : federate s f ast = .ok rows) :
    AllParts (Gated s f) rows := by
  cases ast with
  | scan sc =>
    unfold federate executeScan at h
    obtain ⟨resolved, _, h⟩ := bind_ok h
    obtain ⟨ds, hds, h⟩ := bind_ok h
    cases h
    exact allParts_subset (allParts_single (fetchLegDirect_path (.inl rfl) hds))
      (f.fabricSort_perm _ _).subset
  | join sc first rest =>
    obtain ⟨joined, hjoined, rfl⟩ := map_ok h
    obtain ⟨merged, hmerged, rfl⟩ := map_ok hjoined
    exact allParts_applyOrderLimit (allParts_applyWhere (joinLegs_gated hmerged))
  | setOp op legs orderBy limit offset => exact executeSetOp_gated h
  | derived inner limit => cases h

/-- A row an engine answers with, of one of the tables the statement names. -/
structure Native (f : Fabric) (p : ReadPath) (refs : List TableRef) (d : Delivered) : Prop where
  path : d.path = p
  plain : d.row = d.fetched
  named : ∃ ref ∈ refs, f.resolveLeg ref = .ok d.leg

theorem nativeScan_native {p : ReadPath} {refs : List TableRef} {ref : TableRef} (href : ref ∈ refs)
    {ds : List Delivered} (h : nativeScan f p ref = .ok ds) : ∀ d ∈ ds, Native f p refs d := by
  unfold nativeScan at h
  obtain ⟨leg, hleg, h⟩ := bind_ok h
  cases h
  intro d hd
  obtain ⟨r, _, rfl⟩ := List.mem_map.mp hd
  exact ⟨rfl, rfl, ref, href, hleg⟩

theorem nativeJoin_native {p : ReadPath} {refs : List TableRef} {leg : FedLeg} (hleg : leg.table ∈ refs)
    {acc rows : List TaggedRow} (hacc : AllParts (Native f p refs) acc)
    (h : nativeJoin f p acc leg = .ok rows) : AllParts (Native f p refs) rows := by
  unfold nativeJoin at h
  split at h
  · cases h
    exact hacc
  · obtain ⟨right, hright, h⟩ := bind_ok h
    cases h
    exact allParts_mergeTaggedJoin hacc (allParts_qualifyAll (nativeScan_native hleg hright))

theorem nativeJoins_native {p : ReadPath} {refs : List TableRef} {legs : List FedLeg}
    (hlegs : ∀ leg ∈ legs, leg.table ∈ refs) {acc rows : List TaggedRow}
    (hacc : AllParts (Native f p refs) acc) (h : legs.foldlM (nativeJoin f p) acc = .ok rows) :
    AllParts (Native f p refs) rows := by
  induction legs generalizing acc with
  | nil =>
    rw [List.foldlM_nil] at h
    cases h
    exact hacc
  | cons leg legs ih =>
    rw [List.foldlM_cons] at h
    obtain ⟨acc', hacc', h⟩ := bind_ok h
    have hhead := hlegs leg List.mem_cons_self
    exact ih (fun l hl => hlegs l (List.mem_cons_of_mem _ hl)) (nativeJoin_native hhead hacc hacc') h

theorem nativeSetOp_native {p : ReadPath} {op : SetOp} {legs : List Scan} {orderBy : List SortKey}
    {limit offset : Option ℕ} {rows : List TaggedRow}
    (h : nativeSetOp f p op legs orderBy limit offset = .ok rows) :
    AllParts (Native f p (legs.map Scan.table)) rows := by
  unfold nativeSetOp at h
  split_ifs at h
  obtain ⟨fetched, hfetched, h⟩ := bind_ok h
  cases h
  refine allParts_applyOrderLimit (allParts_combineTagged ?_)
  intro leg hleg d hd
  obtain ⟨sc, hsc, hfetch⟩ := mapM_ok hfetched leg hleg
  unfold nativeSetLeg at hfetch
  obtain ⟨ds, hds, hfetch⟩ := bind_ok hfetch
  cases hfetch
  exact nativeScan_native (List.mem_map_of_mem hsc) hds d (List.mem_of_mem_filter hd)

theorem nativeRows_native {p : ReadPath} {ast : Ast} {rows : List TaggedRow}
    (h : nativeRows f p ast = .ok rows) : AllParts (Native f p (collectRefs ast)) rows := by
  cases ast with
  | scan sc =>
    obtain ⟨ds, hds, h⟩ := bind_ok h
    cases h
    have hnative := nativeScan_native (List.mem_singleton_self sc.table) hds
    exact allParts_applyOrderLimit (allParts_applyWhere (allParts_single hnative))
  | join sc first rest =>
    obtain ⟨ds, hds, h⟩ := bind_ok h
    obtain ⟨joined, hjoined, h⟩ := bind_ok h
    cases h
    have hmem : sc.table ∈ collectRefs (.join sc first rest) := List.mem_cons_self
    have hnative := nativeScan_native hmem hds
    refine allParts_applyOrderLimit (allParts_applyWhere
      (nativeJoins_native ?_ (allParts_qualifyAll hnative) hjoined))
    intro leg hleg
    obtain ⟨j, hj, rfl⟩ := List.mem_map.mp hleg
    exact List.mem_cons_of_mem _ (List.mem_map_of_mem hj)
  | setOp op legs orderBy limit offset => exact nativeSetOp_native h
  | derived inner limit => cases h

theorem forM_ok {α : Type} {g : α → Except Failure Unit} {xs : List α} (h : xs.forM g = .ok ()) :
    ∀ x ∈ xs, g x = .ok () := by
  induction xs with
  | nil =>
    intro x hx
    cases hx
  | cons y ys ih =>
    rw [List.forM] at h
    obtain ⟨u, hu, h⟩ := bind_ok h
    intro x hx
    rcases List.mem_cons.mp hx with rfl | hx
    · exact hu
    · exact ih h x hx

theorem mem_of_mapM_ok {α β : Type} {g : α → Except Failure β} {xs : List α} {ys : List β}
    (h : xs.mapM g = .ok ys) {x : α} (hx : x ∈ xs) {y : β} (hy : g x = .ok y) : y ∈ ys := by
  induction xs generalizing ys with
  | nil => cases hx
  | cons z zs ih =>
    rw [List.mapM_cons] at h
    obtain ⟨w, hw, h⟩ := bind_ok h
    obtain ⟨ws, hws, h⟩ := bind_ok h
    cases h
    rcases List.mem_cons.mp hx with rfl | hx
    · rw [hw] at hy
      cases hy
      exact List.mem_cons_self
    · exact List.mem_cons_of_mem _ (ih hws hx)

theorem liftGate_ok {α : Type} {x : Except GateError α} {a : α} (h : liftGate x = .ok a) : x = .ok a := by
  cases x with
  | error e => cases h
  | ok b =>
    cases h
    rfl

theorem gateLeg_ok {leg : ResolvedLeg} (h : gateLeg s f leg = .ok ()) :
    enforce s.gates s.session (keyOf f leg) "SELECT" = .ok () ∧
      ∃ pol, resolve s.gates s.session (keyOf f leg) = .ok pol ∧ pol.filter.entries = [] ∧
        pol.masks = [] := by
  unfold gateLeg at h
  obtain ⟨_, hgrant, h⟩ := bind_ok h
  obtain ⟨pol, hpol, h⟩ := bind_ok h
  split_ifs at h with hopen
  exact ⟨liftGate_ok hgrant, pol, liftGate_ok hpol, hopen⟩

theorem colocated_gated {legs : List ResolvedLeg} {ast : Ast} {rows : List TaggedRow}
    (hlegs : (collectRefs ast).eraseDups.mapM f.resolveLeg = .ok legs)
    (h : colocated s f legs ast = .ok rows) : AllParts (Gated s f) rows := by
  unfold colocated at h
  split at h
  · cases h
  · split_ifs at h
    · intro r hr d hd
      have hnative := nativeRows_native h r hr d hd
      unfold Gated
      rw [hnative.path]
      exact hnative.plain
    · obtain ⟨_, hgates, h⟩ := bind_ok h
      intro r hr d hd
      have hnative := nativeRows_native h r hr d hd
      obtain ⟨ref, href, hleg⟩ := hnative.named
      have hmem := mem_of_mapM_ok hlegs (List.mem_eraseDups.mpr href) hleg
      have hgate := gateLeg_ok (forM_ok hgates d.leg hmem)
      unfold Gated
      rw [hnative.path]
      exact ⟨hgate.1, hgate.2, hnative.plain⟩

theorem executePlan_gated {legs : List ResolvedLeg} {ast : Ast} {rows : List TaggedRow}
    (hlegs : (collectRefs ast).eraseDups.mapM f.resolveLeg = .ok legs)
    (h : executePlan s f legs ast = .ok rows) : AllParts (Gated s f) rows := by
  unfold executePlan at h
  split_ifs at h with hco hlocal
  · split at h
    · cases h
      exact colocated_gated hlegs (by assumption)
    · exact federate_gated h
  · intro r hr d hd
    have hnative := nativeRows_native h r hr d hd
    obtain ⟨ref, href, hleg⟩ := hnative.named
    have hmem := mem_of_mapM_ok hlegs (List.mem_eraseDups.mpr href) hleg
    unfold singleLocal at hlocal
    rw [Bool.and_eq_true, List.all_eq_true] at hlocal
    unfold Gated
    rw [hnative.path]
    exact hlocal.1 d.leg hmem
  · exact federate_gated h

theorem executeQuery_gated {ast : Ast} {rows : List TaggedRow} (h : executeQuery s f ast = .ok rows) :
    AllParts (Gated s f) rows := by
  induction ast generalizing rows with
  | derived inner limit ih =>
    unfold executeQuery at h
    obtain ⟨inner', hinner, rfl⟩ := map_ok h
    refine allParts_subset (ih hinner) ?_
    intro r hr
    exact mem_of_mem_window hr
  | scan sc =>
    obtain ⟨legs, hlegs, h⟩ := bind_ok h
    exact executePlan_gated hlegs h
  | join sc first rest =>
    obtain ⟨legs, hlegs, h⟩ := bind_ok h
    exact executePlan_gated hlegs h
  | setOp op legs orderBy limit offset =>
    obtain ⟨legs, hlegs, h⟩ := bind_ok h
    exact executePlan_gated hlegs h

theorem tryStream_gated {ast : Ast} {stream : Except Failure (List TaggedRow)} {rows : List TaggedRow}
    (hstream : tryStream f ast = some stream) (h : stream = .ok rows) : AllParts (Gated s f) rows := by
  unfold tryStream at hstream
  split at hstream
  · split at hstream
    · cases hstream
    · split_ifs at hstream
      cases hstream
      obtain ⟨rs, _, rfl⟩ := map_ok h
      refine allParts_single ?_
      intro d hd
      obtain ⟨r, _, rfl⟩ := List.mem_map.mp hd
      exact rfl
  · cases hstream

theorem run_gated {q : Request} {rows : List TaggedRow} (h : run s f q = .ok rows) :
    AllParts (Gated s f) rows := by
  unfold run at h
  split at h
  · split_ifs at *
    exact tryStream_gated (by assumption) h
  · exact executeQuery_gated h

/-- The caller may read the row: the grants allow it, it satisfies the row policy and it carries
the masks. Rules that cannot be resolved allow nothing. -/
structure Complies (s : Setup) (f : Fabric) (d : Delivered) : Prop where
  granted : enforce s.gates s.session (keyOf f d.leg) "SELECT" = .ok ()
  restricted : ∃ pol, resolve s.gates s.session (keyOf f d.leg) = .ok pol ∧
    satisfies f.meets pol.filter d.raw = true ∧ d.row = applyMasks pol.masks d.fetched

def connectorOnly (leg : ResolvedLeg) : Bool := !leg.reachableInPg && !useLocal leg

/-- Whatever is asked and whatever the sources hold, the rows of the table that reach the caller
by the path are rows the caller may read. -/
def EnforcesPolicy (s : Setup) (p : ReadPath) (key : TableKey) : Prop :=
  ∀ f q rows, run s f q = .ok rows → AllParts (fun d =>
    d.path = p → connectorOnly d.leg = true → keyOf f d.leg = key → Complies s f d) rows

def PolicyResolves (s : Setup) (key : TableKey) : Prop :=
  enforce s.gates s.session key "SELECT" = .ok () → ∃ pol, resolve s.gates s.session key = .ok pol

/-- The caller holds the grants and no policy that concerns them filters or masks. -/
def Unrestricted (s : Setup) (key : TableKey) : Prop :=
  enforce s.gates s.session key "SELECT" = .ok () ∧
    ∃ pol, resolve s.gates s.session key = .ok pol ∧ (∀ k, operand pol.filter k = none) ∧
      ∀ r, applyMasks pol.masks r = r

def Guarded (s : Setup) (p : ReadPath) (key : TableKey) : Prop :=
  match p with
  | .hub | .colocatedSql => True
  | .single | .bind | .broadcast => PolicyResolves s key
  | .driving | .setOpLeg => if s.testMode = true then PolicyResolves s key else Unrestricted s key
  | .colocatedMongo | .clientStream => Unrestricted s key

theorem complies_of_direct {d : Delivered} (hlocal : connectorOnly d.leg = true)
    (hgated : useLocal d.leg = true ∨ DirectlyGated s f d) (hresolves : PolicyResolves s (keyOf f d.leg)) :
    Complies s f d := by
  rcases hgated with huse | hgated
  · unfold connectorOnly at hlocal
    rw [huse] at hlocal
    simp at hlocal
  · obtain ⟨pol, hpol⟩ := hresolves hgated.granted
    exact ⟨hgated.granted, pol, hpol, hgated.restricted pol hpol⟩

theorem complies_of_ungoverned {d : Delivered} (h : Ungoverned s f d) : Complies s f d := by
  obtain ⟨pol, hpol, hfilter, hmasks⟩ := h.open'
  refine ⟨h.granted, pol, hpol, ?_, ?_⟩
  · unfold satisfies
    rw [hfilter]
    rfl
  · rw [hmasks]
    exact h.plain

theorem complies_of_handedOn {d : Delivered} (hrow : d.row = d.fetched)
    (h : Unrestricted s (keyOf f d.leg)) : Complies s f d := by
  obtain ⟨hgrant, pol, hpol, hfilter, hmasks⟩ := h
  refine ⟨hgrant, pol, hpol, ?_, ?_⟩
  · exact (satisfies_every_iff pol.filter d.raw).mpr hfilter f.meets
  · rw [hmasks]
    exact hrow

theorem enforces_of_guarded {p : ReadPath} {key : TableKey} (h : Guarded s p key) :
    EnforcesPolicy s p key := by
  intro f q rows hrun r hr d hd hpath honly hkey
  have hgated := run_gated hrun r hr d hd
  unfold Gated at hgated
  rw [hpath] at hgated
  rw [← hkey] at h
  unfold Guarded at h
  cases p with
  | hub =>
    unfold connectorOnly at honly
    rw [show d.leg.reachableInPg = true from hgated] at honly
    cases honly
  | single | bind | broadcast => exact complies_of_direct honly hgated h
  | driving | setOpLeg =>
    dsimp only at h hgated
    split_ifs at h hgated
    · exact complies_of_direct honly hgated h
    · exact complies_of_handedOn hgated h
  | colocatedSql => exact complies_of_ungoverned hgated
  | colocatedMongo | clientStream => exact complies_of_handedOn hgated h

def hubLeg : ResolvedLeg where
  source := localSource
  resource := "u"
  engine := "POSTGRES"
  syncType := "VIRTUAL"
  reachableInPg := true
  physicalSchema := ""
  physicalTable := "u"

def probeLeg (engine : String) (key : TableKey) (source : String) : ResolvedLeg where
  source := source
  resource := key.table
  engine := engine
  syncType := "VIRTUAL"
  reachableInPg := false
  physicalSchema := key.schema
  physicalTable := key.table

/-- A fabric of one connector's table with one row, next to a table of the hub. -/
def probeFabric (engine : String) (key : TableKey) (meets : Meets) (row : Row) (hubRows : List Row)
    (cards : Cards) : Fabric where
  tenantSchema := key.schema
  resolveLeg t := if t.source = localSource then .ok hubLeg else .ok (probeLeg engine key t.source)
  contents leg := if leg.source = localSource then hubRows else if leg.source = "s" then [row] else []
  online _ := true
  coerce _ r := r
  meets := meets
  sourceSort _ rows := rows
  sourceSort_perm _ rows := .refl rows
  fabricSort _ rows := rows
  fabricSort_perm _ rows := .refl rows
  whereHolds _ _ := true
  evalOn _ _ _ := true
  legFilters _ _ := .empty
  legColumns _ := none
  cards := cards
  maxRowsPerLeg := 50000
  bindMax := 1000
  broadcastMax := 2000

theorem keyOf_probe (engine : String) (key : TableKey) (meets : Meets) (row : Row) (hubRows : List Row)
    (cards : Cards) (source : String) :
    keyOf (probeFabric engine key meets row hubRows cards) (probeLeg engine key source) = key := by
  unfold keyOf probeFabric probeLeg orElse
  obtain ⟨schema, table⟩ := key
  simp

def probeScan : Scan where
  table := ⟨"s", "t"⟩
  aliasName := "t"

def hubScan : Scan where
  table := ⟨localSource, "u"⟩
  aliasName := "u"

section Probes

variable {key : TableKey} {meets : Meets} {row : Row} {cards : Cards}

def probeRow (p : ReadPath) (engine : String) (key : TableKey) (row : Row) : Delivered :=
  ⟨p, probeLeg engine key "s", row, row, row⟩

def probeNe : OnClause := ⟨"t.id", .str "NE", "u.id"⟩

def drivingQuery : Request := ⟨.join probeScan ⟨⟨localSource, "u"⟩, "u", .left, probeNe⟩ [], false⟩

theorem run_executePlan {f : Fabric} {ast : Ast} {legs : List ResolvedLeg}
    (hast : ∀ inner limit, ast ≠ .derived inner limit)
    (hlegs : (collectRefs ast).eraseDups.mapM f.resolveLeg = .ok legs) :
    run s f ⟨ast, false⟩ = executePlan s f legs ast := by
  cases ast with
  | derived inner limit => exact absurd rfl (hast inner limit)
  | scan sc =>
    change (_ >>= fun legs => executePlan s f legs (.scan sc)) = _
    rw [hlegs, ok_bind]
  | join sc first rest =>
    change (_ >>= fun legs => executePlan s f legs (.join sc first rest)) = _
    rw [hlegs, ok_bind]
  | setOp op scans orderBy limit offset =>
    change (_ >>= fun legs => executePlan s f legs (.setOp op scans orderBy limit offset)) = _
    rw [hlegs, ok_bind]

theorem executePlan_federated {f : Fabric} {legs : List ResolvedLeg} {ast : Ast}
    (hco : (coLocatable legs && combines ast) = false) (hlocal : singleLocal legs = false) :
    executePlan s f legs ast = federate s f ast := by
  unfold executePlan
  rw [hco, hlocal]
  rfl

theorem resolve_local {engine : String} {hubRows : List Row} (resource : String) :
    (probeFabric engine key meets row hubRows cards).resolveLeg ⟨localSource, resource⟩ = .ok hubLeg := by
  simp [probeFabric]

theorem resolve_probe {engine : String} {hubRows : List Row} {source : String}
    (h : source ≠ localSource) (resource : String) :
    (probeFabric engine key meets row hubRows cards).resolveLeg ⟨source, resource⟩ =
      .ok (probeLeg engine key source) := if_neg h

theorem joinOne_driving (l : TaggedRow) :
    joinOne s (probeFabric "MYSQL" key meets row [] cards) [] [l]
      (entryLeg ⟨⟨localSource, "u"⟩, "u", .left, probeNe⟩) = .ok [l] := by
  have hbind : canBind (entryLeg ⟨⟨localSource, "u"⟩, "u", .left, probeNe⟩) probeNe = false := by
    decide
  have hright : fetchRight s (probeFabric "MYSQL" key meets row [] cards) [] [l]
      (entryLeg ⟨⟨localSource, "u"⟩, "u", .left, probeNe⟩) hubLeg probeNe = .ok [] := by
    unfold fetchRight
    rw [hbind]
    rfl
  have hleg : (probeFabric "MYSQL" key meets row [] cards).resolveLeg ⟨localSource, "u"⟩ = .ok hubLeg :=
    resolve_local "u"
  unfold joinOne
  change (probeFabric "MYSQL" key meets row [] cards).resolveLeg ⟨localSource, "u"⟩ >>= _ = _
  rw [hleg, ok_bind]
  change fetchRight s (probeFabric "MYSQL" key meets row [] cards) [] [l]
      (entryLeg ⟨⟨localSource, "u"⟩, "u", .left, probeNe⟩) hubLeg probeNe >>= _ = _
  rw [hright, ok_bind]
  rfl

theorem run_driving {d : Delivered}
    (h : fetchLegStream s (probeFabric "MYSQL" key meets row [] cards) .driving
      (probeLeg "MYSQL" key "s") {} = .ok [d]) :
    run s (probeFabric "MYSQL" key meets row [] cards) drivingQuery =
      .ok [⟨qualify "t" d.row, [d]⟩] := by
  have hbind : bindLegs s (probeFabric "MYSQL" key meets row [] cards) [] (fromLeg probeScan)
      [entryLeg ⟨⟨localSource, "u"⟩, "u", .left, probeNe⟩] = .ok [⟨qualify "t" d.row, [d]⟩] := by
    unfold bindLegs
    change (probeFabric "MYSQL" key meets row [] cards).resolveLeg ⟨"s", "t"⟩ >>= _ = _
    rw [resolve_probe (by decide), ok_bind]
    change (fetchLegStream s (probeFabric "MYSQL" key meets row [] cards) .driving
        (probeLeg "MYSQL" key "s") {} >>= _) = _
    rw [h, ok_bind]
    change joinWindows s (probeFabric "MYSQL" key meets row [] cards) [] (fromLeg probeScan)
        [entryLeg ⟨⟨localSource, "u"⟩, "u", .left, probeNe⟩] [] [[d]] = _
    unfold joinWindows joinWindow
    change (joinOne s (probeFabric "MYSQL" key meets row [] cards) [] [⟨qualify "t" d.row, [d]⟩]
        (entryLeg ⟨⟨localSource, "u"⟩, "u", .left, probeNe⟩) >>= _) >>= _ = _
    rw [joinOne_driving]
    rfl
  unfold drivingQuery
  rw [@run_executePlan s _ (.join probeScan ⟨⟨localSource, "u"⟩, "u", .left, probeNe⟩ [])
    [probeLeg "MYSQL" key "s", hubLeg] (by intro _ _ hd; cases hd)]
  · rw [executePlan_federated (by simp [coLocatable, hubLeg]) (by simp [singleLocal, probeLeg])]
    have hlegs : joinLegs s (probeFabric "MYSQL" key meets row [] cards) []
        (reorder (probeFabric "MYSQL" key meets row [] cards)
          [fromLeg probeScan, entryLeg ⟨⟨localSource, "u"⟩, "u", .left, probeNe⟩]) =
        .ok [⟨qualify "t" d.row, [d]⟩] := by
      unfold reorder
      rw [if_neg (by decide), ← hbind]
      rfl
    change ((joinLegs s (probeFabric "MYSQL" key meets row [] cards) []
      (reorder (probeFabric "MYSQL" key meets row [] cards)
        [fromLeg probeScan, entryLeg ⟨⟨localSource, "u"⟩, "u", .left, probeNe⟩])).map _).map _ = _
    rw [hlegs]
    rfl
  · have hrefs : (collectRefs (.join probeScan ⟨⟨localSource, "u"⟩, "u", .left, probeNe⟩ [])).eraseDups =
      [⟨"s", "t"⟩, ⟨localSource, "u"⟩] := by decide
    rw [hrefs, List.mapM_cons, resolve_probe (by decide), List.mapM_cons, resolve_local]
    rfl

def setOpQuery : Request := ⟨.setOp .union [probeScan, hubScan] [] none none, false⟩

theorem fetchSetLeg_hub :
    fetchSetLeg s (probeFabric "MYSQL" key meets row [] cards) 10000000 hubScan = .ok ([], []) := by
  unfold fetchSetLeg
  change (probeFabric "MYSQL" key meets row [] cards).resolveLeg ⟨localSource, "u"⟩ >>= _ = _
  rw [resolve_local, ok_bind]
  have hempty : fetchLegStream s (probeFabric "MYSQL" key meets row [] cards) .setOpLeg hubLeg
      (toCanonical .federated hubScan) = .ok [] := by
    unfold fetchLegStream
    split <;> rfl
  rw [hempty]
  rfl

theorem run_setOp {d : Delivered}
    (h : fetchLegStream s (probeFabric "MYSQL" key meets row [] cards) .setOpLeg
      (probeLeg "MYSQL" key "s") (toCanonical .federated probeScan) = .ok [d]) :
    ∃ v, run s (probeFabric "MYSQL" key meets row [] cards) setOpQuery = .ok [⟨v, [d]⟩] := by
  have hfetch : fetchSetLeg s (probeFabric "MYSQL" key meets row [] cards) 10000000 probeScan =
      .ok ([], [d]) := by
    unfold fetchSetLeg
    change (probeFabric "MYSQL" key meets row [] cards).resolveLeg ⟨"s", "t"⟩ >>= _ = _
    rw [resolve_probe (by decide), ok_bind, h]
    rfl
  have hset : executeSetOp s (probeFabric "MYSQL" key meets row [] cards) .union [probeScan, hubScan] []
      none none = .ok [⟨d.row.get?, [d]⟩] := by
    unfold executeSetOp
    change [probeScan, hubScan].mapM (fetchSetLeg s (probeFabric "MYSQL" key meets row [] cards)
      10000000) >>= _ = _
    rw [List.mapM_cons, hfetch, ok_bind, List.mapM_cons, fetchSetLeg_hub]
    have hcombine : combineTagged .union [(([] : List SelectItem), [d]), ([], [])] =
        [⟨d.row.get?, [d]⟩] := by
      have hvalue : projectRowToAlias [] d.row = d.row := if_pos (.inl rfl)
      have hdups : [d.row].eraseDups = [d.row] := by
        rw [List.eraseDups_cons]
        simp
      unfold combineTagged combine tagValue
      simp [hvalue, hdups]
    simp only [ok_bind, List.mapM_nil, pure, Except.pure, hcombine]
    rfl
  refine ⟨d.row.get?, ?_⟩
  have hrefs : (collectRefs setOpQuery.ast).eraseDups = [⟨"s", "t"⟩, ⟨localSource, "u"⟩] := by decide
  change run s _ ⟨setOpQuery.ast, false⟩ = _
  rw [@run_executePlan s _ setOpQuery.ast [probeLeg "MYSQL" key "s", hubLeg] (by intro _ _ hd; cases hd)]
  · rw [executePlan_federated (by simp [coLocatable, hubLeg]) (by simp [singleLocal, probeLeg])]
    exact hset
  · rw [hrefs, List.mapM_cons, resolve_probe (by decide), List.mapM_cons, resolve_local]
    rfl

theorem run_single {d : Delivered}
    (h : fetchLegDirect s (probeFabric "MYSQL" key meets row [] cards) .single
      (probeLeg "MYSQL" key "s") (toCanonical .federated probeScan) = .ok [d]) :
    run s (probeFabric "MYSQL" key meets row [] cards) ⟨.scan probeScan, false⟩ = .ok [singleRow d] := by
  have hrefs : (collectRefs (.scan probeScan)).eraseDups = [⟨"s", "t"⟩] := by decide
  rw [@run_executePlan s _ (.scan probeScan) [probeLeg "MYSQL" key "s"] (by intro _ _ hd; cases hd)]
  · rw [executePlan_federated (by simp [combines]) (by simp [singleLocal, probeLeg])]
    change (probeFabric "MYSQL" key meets row [] cards).resolveLeg ⟨"s", "t"⟩ >>= _ = _
    rw [resolve_probe (by decide), ok_bind, h]
    rfl
  · rw [hrefs, List.mapM_cons, resolve_probe (by decide)]
    rfl

theorem run_stream : run s (probeFabric "MONGODB" key meets row [] cards) ⟨.scan probeScan, true⟩ =
    .ok [singleRow (probeRow .clientStream "MONGODB" key row)] := by
  have hstream : tryStream (probeFabric "MONGODB" key meets row [] cards) (.scan probeScan) =
      some (.ok [singleRow (probeRow .clientStream "MONGODB" key row)]) := by
    unfold tryStream
    dsimp only
    rw [show probeScan.table = ⟨"s", "t"⟩ from rfl, resolve_probe (by decide)]
    rfl
  unfold run
  dsimp only
  rw [if_pos rfl, hstream]

def probeEq (left right : String) : OnClause := ⟨left, .undefined, right⟩

def mongoQuery : Request :=
  ⟨.join probeScan ⟨⟨"e", "t"⟩, "e", .left, probeEq "t.id" "e.id"⟩ [], false⟩

theorem run_mongo : run s (probeFabric "MONGODB" key meets row [] cards) mongoQuery =
    .ok [⟨qualify "t" row, [probeRow .colocatedMongo "MONGODB" key row]⟩] := by
  have hcombines : combines mongoQuery.ast = true := rfl
  have hrefs : (collectRefs mongoQuery.ast).eraseDups = [⟨"s", "t"⟩, ⟨"e", "t"⟩] := by decide
  have hco : coLocatable [probeLeg "MONGODB" key "s", probeLeg "MONGODB" key "e"] = true := by
    have hengine : normEngine "MONGODB" = "MONGODB" := by decide
    simp [coLocatable, connFingerprint, probeLeg, hengine]
  have hnative : nativeRows (probeFabric "MONGODB" key meets row [] cards) .colocatedMongo mongoQuery.ast =
      .ok [⟨qualify "t" row, [probeRow .colocatedMongo "MONGODB" key row]⟩] := by
    change nativeScan (probeFabric "MONGODB" key meets row [] cards) .colocatedMongo ⟨"s", "t"⟩ >>= _ = _
    have hdriving : nativeScan (probeFabric "MONGODB" key meets row [] cards) .colocatedMongo ⟨"s", "t"⟩ =
        .ok [probeRow .colocatedMongo "MONGODB" key row] := by
      unfold nativeScan
      rw [resolve_probe (by decide)]
      rfl
    have hright : nativeScan (probeFabric "MONGODB" key meets row [] cards) .colocatedMongo ⟨"e", "t"⟩ =
        .ok [] := by
      unfold nativeScan
      rw [resolve_probe (by decide)]
      rfl
    rw [hdriving, ok_bind]
    change (((nativeScan (probeFabric "MONGODB" key meets row [] cards) .colocatedMongo ⟨"e", "t"⟩) >>= _)
      >>= _) >>= _ = _
    rw [hright]
    rfl
  change run s _ ⟨mongoQuery.ast, false⟩ = _
  rw [@run_executePlan s _ mongoQuery.ast [probeLeg "MONGODB" key "s", probeLeg "MONGODB" key "e"] (by intro _ _ hd; cases hd)]
  · have hcolocated : colocated s (probeFabric "MONGODB" key meets row [] cards)
        [probeLeg "MONGODB" key "s", probeLeg "MONGODB" key "e"] mongoQuery.ast =
        .ok [⟨qualify "t" row, [probeRow .colocatedMongo "MONGODB" key row]⟩] := by
      rw [← hnative]
      rfl
    unfold executePlan
    rw [hco, hcombines, hcolocated]
    rfl
  · rw [hrefs, List.mapM_cons, resolve_probe (by decide), List.mapM_cons, resolve_probe (by decide)]
    rfl

def keyQuery : Request :=
  ⟨.join hubScan ⟨⟨"s", "t"⟩, "t", .inner, probeEq "u.id" "t.id"⟩ [], false⟩

def keyRow : Row := Record.empty.assign "id" (.num 1)

abbrev keyFabric (key : TableKey) (cards : Cards) : Fabric :=
  probeFabric "MYSQL" key (fun _ _ _ _ => true) keyRow [keyRow] cards

def hubRow (p : ReadPath) : Delivered := ⟨p, hubLeg, keyRow, keyRow, keyRow⟩

theorem matchesOn_key : matchesOn ⟨"u.id", "t.id"⟩ (qualify "u" keyRow) (qualify "t" keyRow) = true := by
  decide

theorem bindKeys_key : bindKeys [qualify "u" keyRow] ⟨"u.id", "t.id"⟩ = [.num 1] := by decide

theorem federate_key {rows : List TaggedRow}
    (h : joinLegs s (keyFabric key cards) [] (reorder (keyFabric key cards)
      [fromLeg hubScan, entryLeg ⟨⟨"s", "t"⟩, "t", .inner, probeEq "u.id" "t.id"⟩]) = .ok rows) :
    run s (keyFabric key cards) keyQuery = .ok rows := by
  have hrefs : (collectRefs keyQuery.ast).eraseDups = [⟨localSource, "u"⟩, ⟨"s", "t"⟩] := by decide
  change run s _ ⟨keyQuery.ast, false⟩ = _
  rw [@run_executePlan s _ keyQuery.ast [hubLeg, probeLeg "MYSQL" key "s"] (by intro _ _ hd; cases hd)]
  · rw [executePlan_federated (by simp [coLocatable, hubLeg]) (by simp [singleLocal, probeLeg])]
    change ((joinLegs s (keyFabric key cards) [] (reorder (keyFabric key cards)
      [fromLeg hubScan, entryLeg ⟨⟨"s", "t"⟩, "t", .inner, probeEq "u.id" "t.id"⟩])).map _).map _ = _
    rw [h, ok_map, ok_map]
    have hwhere : applyWhere (keyFabric key cards) hubScan.wheres rows = rows := by
      unfold applyWhere hubScan
      simp
    rw [hwhere]
    rfl
  · rw [hrefs, List.mapM_cons, resolve_local, List.mapM_cons, resolve_probe (by decide)]
    rfl

def keyResult (p q : ReadPath) (key : TableKey) : TaggedRow :=
  mergeTagged ⟨qualify "u" keyRow, [hubRow p]⟩ ⟨qualify "t" keyRow, [probeRow q "MYSQL" key keyRow]⟩

theorem mergeTaggedJoin_key (p q : ReadPath) {holds : JoinedRow → JoinedRow → Bool}
    (hholds : holds (qualify "u" keyRow) (qualify "t" keyRow) = true) :
    mergeTaggedJoin holds [⟨qualify "u" keyRow, [hubRow p]⟩]
      [⟨qualify "t" keyRow, [probeRow q "MYSQL" key keyRow]⟩] false = [keyResult p q key] := by
  unfold mergeTaggedJoin matchesOf
  simp [hholds, keyResult]

def keyLeg : FedLeg := entryLeg ⟨⟨"s", "t"⟩, "t", .inner, probeEq "u.id" "t.id"⟩

theorem fetchRight_key
    (h : fetchLegDirect s (keyFabric key fun _ => none) .bind (probeLeg "MYSQL" key "s")
      { filter := withKeys .empty "id" [.num 1] } = .ok [probeRow .bind "MYSQL" key keyRow]) :
    fetchRight s (keyFabric key fun _ => none) [] [⟨qualify "u" keyRow, [hubRow .driving]⟩] keyLeg
      (probeLeg "MYSQL" key "s") (probeEq "u.id" "t.id") =
      .ok [probeRow .bind "MYSQL" key keyRow] := by
  have hbatch : fetchBatch s (keyFabric key fun _ => none) [] keyLeg (probeLeg "MYSQL" key "s")
      (probeEq "u.id" "t.id") [.num 1] = .ok [probeRow .bind "MYSQL" key keyRow] := h
  have hchunk : chunk 1000 [JsValue.num 1] = [[.num 1]] := rfl
  unfold fetchRight
  rw [if_pos (by decide)]
  change Except.map List.flatten ((chunk 1000 (bindKeys [qualify "u" keyRow] ⟨"u.id", "t.id"⟩)).mapM
    (fetchBatch s (keyFabric key fun _ => none) [] keyLeg (probeLeg "MYSQL" key "s")
      (probeEq "u.id" "t.id"))) = _
  rw [bindKeys_key, hchunk, List.mapM_cons, hbatch]
  rfl

theorem joinOne_key
    (h : fetchLegDirect s (keyFabric key fun _ => none) .bind (probeLeg "MYSQL" key "s")
      { filter := withKeys .empty "id" [.num 1] } = .ok [probeRow .bind "MYSQL" key keyRow]) :
    joinOne s (keyFabric key fun _ => none) [] [⟨qualify "u" keyRow, [hubRow .driving]⟩] keyLeg =
      .ok [keyResult .driving .bind key] := by
  unfold joinOne
  change (keyFabric key fun _ => none).resolveLeg ⟨"s", "t"⟩ >>= _ = _
  rw [resolve_probe (by decide), ok_bind]
  change fetchRight s (keyFabric key fun _ => none) [] [⟨qualify "u" keyRow, [hubRow .driving]⟩] keyLeg
    (probeLeg "MYSQL" key "s") (probeEq "u.id" "t.id") >>= _ = _
  rw [fetchRight_key h, ok_bind]
  exact congrArg Except.ok (mergeTaggedJoin_key .driving .bind matchesOn_key)

theorem run_bind
    (h : fetchLegDirect s (keyFabric key fun _ => none) .bind (probeLeg "MYSQL" key "s")
      { filter := withKeys .empty "id" [.num 1] } = .ok [probeRow .bind "MYSQL" key keyRow]) :
    run s (keyFabric key fun _ => none) keyQuery = .ok [keyResult .driving .bind key] := by
  have hdriving : fetchLegStream s (keyFabric key fun _ => none) .driving hubLeg {} =
      .ok [hubRow .driving] := by
    unfold fetchLegStream
    split <;> rfl
  have hbind : bindLegs s (keyFabric key fun _ => none) [] (fromLeg hubScan) [keyLeg] =
      .ok [keyResult .driving .bind key] := by
    unfold bindLegs
    change (keyFabric key fun _ => none).resolveLeg ⟨localSource, "u"⟩ >>= _ = _
    rw [resolve_local, ok_bind]
    change fetchLegStream s (keyFabric key fun _ => none) .driving hubLeg {} >>= _ = _
    rw [hdriving, ok_bind]
    change joinWindows s (keyFabric key fun _ => none) [] (fromLeg hubScan) [keyLeg] []
      [[hubRow .driving]] = _
    unfold joinWindows joinWindow
    change (joinOne s (keyFabric key fun _ => none) [] [⟨qualify "u" keyRow, [hubRow .driving]⟩] keyLeg
      >>= _) >>= _ = _
    rw [joinOne_key h]
    rfl
  refine federate_key ?_
  rw [← hbind]
  rfl

theorem joinLegs_broadcast {f : Fabric} {wheres : List AstGuard.WhereEntry} {a0 : FedLeg} {name : String}
    {table : TableRef} {on : OnClause}
    (h : (isEquiJoin on && isSmallLeg f a0 && isSmallLeg f ⟨name, table, .inner, some on⟩) = true) :
    joinLegs s f wheres [a0, ⟨name, table, .inner, some on⟩] =
      broadcastLegs s f wheres a0 ⟨name, table, .inner, some on⟩ on := if_pos h

theorem run_broadcast
    (h : fetchLegDirect s (keyFabric key fun _ => some 1) .broadcast (probeLeg "MYSQL" key "s") {} =
      .ok [probeRow .broadcast "MYSQL" key keyRow]) :
    run s (keyFabric key fun _ => some 1) keyQuery = .ok [keyResult .broadcast .broadcast key] := by
  have hhub : fetchWhole s (keyFabric key fun _ => some 1) [] (fromLeg hubScan) =
      .ok [⟨qualify "u" keyRow, [hubRow .broadcast]⟩] := by
    unfold fetchWhole
    change (keyFabric key fun _ => some 1).resolveLeg ⟨localSource, "u"⟩ >>= _ = _
    rw [resolve_local]
    rfl
  have hkey : fetchWhole s (keyFabric key fun _ => some 1) [] keyLeg =
      .ok [⟨qualify "t" keyRow, [probeRow .broadcast "MYSQL" key keyRow]⟩] := by
    unfold fetchWhole
    change (keyFabric key fun _ => some 1).resolveLeg ⟨"s", "t"⟩ >>= _ = _
    rw [resolve_probe (by decide), ok_bind]
    change fetchLegDirect s (keyFabric key fun _ => some 1) .broadcast (probeLeg "MYSQL" key "s") {}
      >>= _ = _
    rw [h]
    rfl
  refine federate_key ?_
  have horder : reorder (keyFabric key fun _ => some 1) [fromLeg hubScan, keyLeg] =
      [fromLeg hubScan, keyLeg] := by
    have hindex : drivingIndex (fun _ => some 1) [⟨"u", none⟩, ⟨"t", some ⟨"u.id", "t.id"⟩⟩] = 0 := by
      decide
    unfold reorder
    rw [if_pos (by decide)]
    change swapLegs (drivingIndex (fun _ => some 1) [⟨"u", none⟩, ⟨"t", some ⟨"u.id", "t.id"⟩⟩]) _ = _
    rw [hindex]
    rfl
  change joinLegs s _ [] (reorder (keyFabric key fun _ => some 1) [fromLeg hubScan, keyLeg]) = _
  rw [horder]
  have hbroadcast : broadcastLegs s (keyFabric key fun _ => some 1) [] (fromLeg hubScan) keyLeg
      (probeEq "u.id" "t.id") = .ok [keyResult .broadcast .broadcast key] := by
    unfold broadcastLegs
    rw [hhub, ok_bind, hkey, ok_bind]
    exact congrArg Except.ok (mergeTaggedJoin_key .broadcast .broadcast matchesOn_key)
  have hsmall : (isEquiJoin (probeEq "u.id" "t.id") && isSmallLeg (keyFabric key fun _ => some 1)
      (fromLeg hubScan) && isSmallLeg (keyFabric key fun _ => some 1) keyLeg) = true := by
    have hcount : decide ((1 : ℚ) ≤ 2000) = true := by decide
    change (true && decide ((1 : ℚ) ≤ 2000) && decide ((1 : ℚ) ≤ 2000)) = true
    rw [hcount]
    rfl
  exact (joinLegs_broadcast hsmall).trans hbroadcast

end Probes

theorem fetchLegDirect_unresolved {p : ReadPath} {key : TableKey} {meets : Meets} {row : Row}
    {hubRows : List Row} {cards : Cards} {c : CanonicalQuery} {e : GateError}
    (hgrant : enforce s.gates s.session key "SELECT" = .ok ())
    (hresolve : resolve s.gates s.session key = .error e) (hmeets : satisfies meets c.filter row = true)
    (hselect : c.select = none) (hlimit : c.limit = none) (hoffset : c.offset = none) :
    fetchLegDirect s (probeFabric "MYSQL" key meets row hubRows cards) p (probeLeg "MYSQL" key "s") c =
      .ok [probeRow p "MYSQL" key row] := by
  have hnone : policyOrNone s key = ⟨.empty, []⟩ := by
    unfold policyOrNone
    rw [hresolve]
  have hrows : readConnector (probeFabric "MYSQL" key meets row hubRows cards) (probeLeg "MYSQL" key "s")
      (withPolicy .empty (bounded (probeFabric "MYSQL" key meets row hubRows cards) c)) = .ok [row] := by
    unfold readConnector sourceRows withPolicy bounded
    rw [hlimit, hoffset]
    simp [probeFabric, probeLeg, localSource, mergeIntoFilter, Record.empty, hmeets, window]
  unfold fetchLegDirect
  rw [if_neg (by simp [useLocal, probeLeg, localSource]), keyOf_probe, hgrant, hnone, hselect]
  have hopen : liftGate (.ok ()) = (.ok () : Except Failure Unit) := rfl
  rw [hopen, ok_bind, hrows]
  rfl

theorem fetchLegStream_asReturned {p : ReadPath} {key : TableKey} {meets : Meets} {row : Row}
    {cards : Cards} {c : CanonicalQuery} (htest : ¬ s.testMode = true) (hfilter : c.filter = .empty)
    (hselect : c.select = none) (hlimit : c.limit = none) (hoffset : c.offset = none) :
    fetchLegStream s (probeFabric "MYSQL" key meets row [] cards) p (probeLeg "MYSQL" key "s") c =
      .ok [probeRow p "MYSQL" key row] := by
  have hrows : readConnector (probeFabric "MYSQL" key meets row [] cards) (probeLeg "MYSQL" key "s") c =
      .ok [row] := by
    unfold readConnector sourceRows
    rw [hlimit, hoffset, hfilter]
    simp [probeFabric, probeLeg, localSource, satisfies, Record.empty, window]
  unfold fetchLegStream
  rw [if_neg htest, if_neg (by simp [useLocal, probeLeg, localSource]), hrows, hselect]
  rfl

theorem complies_of_reached {p : ReadPath} {key : TableKey} (h : EnforcesPolicy s p key)
    {engine : String} {meets : Meets} {row : Row} {hubRows : List Row} {cards : Cards} {q : Request}
    {r : TaggedRow} (hrun : run s (probeFabric engine key meets row hubRows cards) q = .ok [r])
    (hpart : probeRow p engine key row ∈ r.parts) :
    Complies s (probeFabric engine key meets row hubRows cards) (probeRow p engine key row) := by
  have honly : connectorOnly (probeLeg engine key "s") = true := by
    simp [connectorOnly, useLocal, probeLeg, localSource]
  exact h _ q [r] hrun r (List.mem_singleton_self r) _ hpart rfl honly
    (keyOf_probe engine key meets row hubRows cards "s")

theorem unrestricted_of_complies {p : ReadPath} {key : TableKey} {engine : String} {cards : Cards}
    (h : ∀ meets row, Complies s (probeFabric engine key meets row [] cards)
      (probeRow p engine key row)) : Unrestricted s key := by
  have hkey : ∀ meets row, keyOf (probeFabric engine key meets row [] cards)
      (probeRow p engine key row).leg = key := fun meets row =>
    keyOf_probe engine key meets row [] cards "s"
  have hfirst := h (fun _ _ _ _ => true) .empty
  obtain ⟨pol, hpol, -, -⟩ := hfirst.restricted
  have hgrant := hfirst.granted
  rw [hkey] at hgrant hpol
  have hrow : ∀ meets row, satisfies meets pol.filter row = true ∧ row = applyMasks pol.masks row := by
    intro meets row
    obtain ⟨pol', hpol', hsat, hmask⟩ := (h meets row).restricted
    rw [hkey, hpol] at hpol'
    cases hpol'
    exact ⟨hsat, hmask⟩
  refine ⟨hgrant, pol, hpol, ?_, ?_⟩
  · exact (satisfies_every_iff pol.filter .empty).mp fun meets => (hrow meets .empty).1
  · intro r
    exact (hrow (fun _ _ _ _ => true) r).2.symm

theorem policyResolves_of_complies {key : TableKey}
    (h : ∀ e, enforce s.gates s.session key "SELECT" = .ok () →
      resolve s.gates s.session key = .error e → ∃ f : Fabric, ∃ d : Delivered,
        keyOf f d.leg = key ∧ Complies s f d) : PolicyResolves s key := by
  intro hgrant
  cases hresolve : resolve s.gates s.session key with
  | ok pol => exact ⟨pol, rfl⟩
  | error e =>
    obtain ⟨f, d, hkey, hcomplies⟩ := h e hgrant hresolve
    obtain ⟨pol, hpol, -⟩ := hcomplies.restricted
    rw [hkey, hresolve] at hpol
    cases hpol

theorem guarded_single {key : TableKey} (h : EnforcesPolicy s .single key) : PolicyResolves s key := by
  refine policyResolves_of_complies ?_
  intro e hgrant hresolve
  have hfetch : fetchLegDirect s (probeFabric "MYSQL" key (fun _ _ _ _ => true) keyRow [] fun _ => none)
      .single (probeLeg "MYSQL" key "s") (toCanonical .federated probeScan) =
      .ok [probeRow .single "MYSQL" key keyRow] :=
    fetchLegDirect_unresolved hgrant hresolve rfl rfl rfl rfl
  exact ⟨_, _, keyOf_probe _ _ _ _ _ _ _,
    complies_of_reached h (run_single hfetch) (List.mem_singleton_self _)⟩

theorem guarded_bind {key : TableKey} (h : EnforcesPolicy s .bind key) : PolicyResolves s key := by
  refine policyResolves_of_complies ?_
  intro e hgrant hresolve
  have hrun := run_bind (fetchLegDirect_unresolved hgrant hresolve rfl rfl rfl rfl)
  have hpart : probeRow .bind "MYSQL" key keyRow ∈ (keyResult .driving .bind key).parts :=
    List.mem_append_right _ (List.mem_singleton_self _)
  exact ⟨_, _, keyOf_probe _ _ _ _ _ _ _, complies_of_reached h hrun hpart⟩

theorem guarded_broadcast {key : TableKey} (h : EnforcesPolicy s .broadcast key) :
    PolicyResolves s key := by
  refine policyResolves_of_complies ?_
  intro e hgrant hresolve
  have hrun := run_broadcast (fetchLegDirect_unresolved hgrant hresolve rfl rfl rfl rfl)
  have hpart : probeRow .broadcast "MYSQL" key keyRow ∈ (keyResult .broadcast .broadcast key).parts :=
    List.mem_append_right _ (List.mem_singleton_self _)
  exact ⟨_, _, keyOf_probe _ _ _ _ _ _ _, complies_of_reached h hrun hpart⟩

theorem fetchLegStream_test {f : Fabric} {p : ReadPath} {leg : ResolvedLeg} {c : CanonicalQuery}
    {ds : List Delivered} (htest : s.testMode = true) (h : fetchLegDirect s f p leg c = .ok ds) :
    fetchLegStream s f p leg c = .ok ds := by
  unfold fetchLegStream
  rw [if_pos htest, h]

theorem guarded_driving {key : TableKey} (h : EnforcesPolicy s .driving key) :
    Guarded s .driving key := by
  unfold Guarded
  by_cases htest : s.testMode = true
  · rw [if_pos htest]
    refine policyResolves_of_complies ?_
    intro e hgrant hresolve
    have hfetch : fetchLegDirect s (probeFabric "MYSQL" key (fun _ _ _ _ => true) keyRow [] fun _ => none)
        .driving (probeLeg "MYSQL" key "s") {} = .ok [probeRow .driving "MYSQL" key keyRow] :=
      fetchLegDirect_unresolved hgrant hresolve rfl rfl rfl rfl
    have hrun := run_driving (fetchLegStream_test htest hfetch)
    exact ⟨_, _, keyOf_probe _ _ _ _ _ _ _, complies_of_reached h hrun (List.mem_singleton_self _)⟩
  · rw [if_neg htest]
    refine @unrestricted_of_complies s .driving key "MYSQL" (fun _ => none) ?_
    intro meets row
    have hfetch : fetchLegStream s (probeFabric "MYSQL" key meets row [] fun _ => none) .driving
        (probeLeg "MYSQL" key "s") {} = .ok [probeRow .driving "MYSQL" key row] :=
      fetchLegStream_asReturned htest rfl rfl rfl rfl
    exact complies_of_reached h (run_driving hfetch) (List.mem_singleton_self _)

theorem guarded_setOpLeg {key : TableKey} (h : EnforcesPolicy s .setOpLeg key) :
    Guarded s .setOpLeg key := by
  unfold Guarded
  by_cases htest : s.testMode = true
  · rw [if_pos htest]
    refine policyResolves_of_complies ?_
    intro e hgrant hresolve
    have hfetch : fetchLegDirect s (probeFabric "MYSQL" key (fun _ _ _ _ => true) keyRow [] fun _ => none)
        .setOpLeg (probeLeg "MYSQL" key "s") (toCanonical .federated probeScan) =
        .ok [probeRow .setOpLeg "MYSQL" key keyRow] :=
      fetchLegDirect_unresolved hgrant hresolve rfl rfl rfl rfl
    obtain ⟨v, hrun⟩ := run_setOp (fetchLegStream_test htest hfetch)
    exact ⟨_, _, keyOf_probe _ _ _ _ _ _ _, complies_of_reached h hrun (List.mem_singleton_self _)⟩
  · rw [if_neg htest]
    refine @unrestricted_of_complies s .setOpLeg key "MYSQL" (fun _ => none) ?_
    intro meets row
    have hfetch : fetchLegStream s (probeFabric "MYSQL" key meets row [] fun _ => none) .setOpLeg
        (probeLeg "MYSQL" key "s") (toCanonical .federated probeScan) =
        .ok [probeRow .setOpLeg "MYSQL" key row] := fetchLegStream_asReturned htest rfl rfl rfl rfl
    obtain ⟨v, hrun⟩ := run_setOp hfetch
    exact complies_of_reached h hrun (List.mem_singleton_self _)

def paymentsSetup : Setup where
  gates := {
    accessGrants := fun _ => .ok (.arr [.obj [("role", .str "AUDITOR"), ("privileges", .arr [.str "SELECT"])]])
    accessPolicies := fun _ => .ok [] }
  session := { tenantId := "acme", role := some "VIEWER" }
  testMode := false

end DataFabric.PolicyEnforcement
