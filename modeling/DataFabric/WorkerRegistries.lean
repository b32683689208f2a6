import DataFabric.RateLimits
import DataFabric.WorkerHosts
import Mathlib.Data.List.Nodup

set_option autoImplicit false

/-!
# The registry of worker nodes

The registry is brought in step with the nodes that Citus knows. The reading of the nodes may be older than the
registry it is compared with.
-/
namespace DataFabric.WorkerRegistries
open CharText JsValues NetGuard WorkerHosts

inductive WorkerStatus
  | pending | active | inactive | draining | down | drift | failed
  deriving DecidableEq

abbrev Endpoint := String × ℕ

/-- A row of `fabric_worker_nodes`. The number stands for the UUID. -/
structure WorkerRow where
  id : ℕ
  name : String
  host : String
  port : ℕ
  status : WorkerStatus
  shouldHaveShards : Bool
  citusNodeId : Option ℕ
  deriving DecidableEq

def WorkerRow.endpoint (w : WorkerRow) : Endpoint := (w.host, w.port)

/-- A row of `pg_dist_node` with its count of shard placements. -/
structure Node where
  nodeId : ℕ
  nodeName : String
  nodePort : ℕ
  isActive : Bool
  shouldHaveShards : Bool
  shards : ℕ
  deriving DecidableEq

def Node.endpoint (n : Node) : Endpoint := (n.nodeName, n.nodePort)

/-- The keys of the table: the identifier, `uq_worker_name` and `uq_worker_endpoint`. -/
structure Keyed (rows : List WorkerRow) : Prop where
  ids : (rows.map WorkerRow.id).Nodup
  names : (rows.map WorkerRow.name).Nodup
  endpoints : (rows.map WorkerRow.endpoint).Nodup

instance (rows : List WorkerRow) : Decidable (Keyed rows) :=
  decidable_of_iff ((rows.map WorkerRow.id).Nodup ∧ (rows.map WorkerRow.name).Nodup ∧
    (rows.map WorkerRow.endpoint).Nodup) ⟨fun h => ⟨h.1, h.2.1, h.2.2⟩, fun h => ⟨h.ids, h.names, h.endpoints⟩⟩

structure Registry where
  rows : List WorkerRow
  keyed : Keyed rows

structure KnownNodes (nodes : List Node) : Prop where
  ids : (nodes.map Node.nodeId).Nodup
  endpoints : (nodes.map Node.endpoint).Nodup

instance (nodes : List Node) : Decidable (KnownNodes nodes) :=
  decidable_of_iff ((nodes.map Node.nodeId).Nodup ∧ (nodes.map Node.endpoint).Nodup)
    ⟨fun h => ⟨h.1, h.2⟩, fun h => ⟨h.ids, h.endpoints⟩⟩

structure Metadata where
  nodes : List Node
  known : KnownNodes nodes

def freshId (rows : List WorkerRow) : ℕ := (rows.map WorkerRow.id).foldr max 0 + 1

def Registry.replace (rows : List WorkerRow) : Option Registry :=
  if keyed : Keyed rows then some ⟨rows, keyed⟩ else none

def updateRow (rows : List WorkerRow) (id : ℕ) (change : WorkerRow → WorkerRow) : List WorkerRow :=
  rows.map fun w => if w.id = id then change w else w

def liveAt (live : List Node) (e : Endpoint) : Option Node := live.find? (·.endpoint = e)

def importName (n : Node) : String := "worker-" ++ toString n.nodeId

def importRow (id : ℕ) (n : Node) : WorkerRow :=
  { id, name := importName n, host := n.nodeName, port := n.nodePort,
    status := if n.shouldHaveShards then .active else .inactive,
    shouldHaveShards := n.shouldHaveShards, citusNodeId := some n.nodeId }

def importNode (rows : List WorkerRow) (n : Node) : List WorkerRow :=
  let imported := rows ++ [importRow (freshId rows) n]
  if Keyed imported then imported else rows

/-- The statement for a row that was read, on the row as it is. -/
def reconcile (live : List Node) (read current : WorkerRow) : WorkerRow :=
  match liveAt live read.endpoint with
  | none => if read.status = .pending then current else { current with status := .drift }
  | some n => { current with citusNodeId := some n.nodeId, shouldHaveShards := n.shouldHaveShards }

def unknownTo (rows : List WorkerRow) (live : List Node) : List Node :=
  live.filter fun n => !rows.any fun r => r.endpoint = n.endpoint

structure SyncResult where
  rows : List WorkerRow
  imported : ℕ
  drift : ℕ

def sync (rows : List WorkerRow) (live : List Node) : SyncResult :=
  let unknown := unknownTo rows live
  { rows := rows.foldl (fun current r => updateRow current r.id (reconcile live r)) (unknown.foldl importNode rows)
    imported := unknown.length
    drift := rows.countP fun r => liveAt live r.endpoint = none && r.status ≠ .pending }

variable {rows extra : List WorkerRow} {live : List Node} {w : WorkerRow} {n : Node} {e : Endpoint}

theorem freshId_new (rows : List WorkerRow) : freshId rows ∉ rows.map WorkerRow.id := by
  have bound : ∀ ids : List ℕ, ∀ i ∈ ids, i ≤ ids.foldr max 0 := by
    intro ids
    induction ids with
    | nil => simp
    | cons first ids ih =>
      intro i hi
      rw [List.foldr_cons]
      rcases List.mem_cons.mp hi with rfl | later
      · exact Nat.le_max_left _ _
      · exact (ih i later).trans (Nat.le_max_right _ _)
  intro inside
  have := bound _ _ inside
  unfold freshId at this
  omega

theorem keyed_snoc :
    Keyed (rows ++ [w]) ↔ Keyed rows ∧ w.id ∉ rows.map WorkerRow.id ∧ w.name ∉ rows.map WorkerRow.name ∧
      w.endpoint ∉ rows.map WorkerRow.endpoint := by
  have snoc {α : Type} [DecidableEq α] (f : WorkerRow → α) :
      ((rows ++ [w]).map f).Nodup ↔ (rows.map f).Nodup ∧ f w ∉ rows.map f := by
    rw [List.map_append, List.map_singleton, ← List.concat_eq_append, List.nodup_concat]
    exact and_comm
  constructor
  · intro h
    have ids := (snoc _).mp h.ids
    have names := (snoc _).mp h.names
    have endpoints := (snoc _).mp h.endpoints
    exact ⟨⟨ids.1, names.1, endpoints.1⟩, ids.2, names.2, endpoints.2⟩
  · intro h
    exact ⟨(snoc _).mpr ⟨h.1.ids, h.2.1⟩, (snoc _).mpr ⟨h.1.names, h.2.2.1⟩, (snoc _).mpr ⟨h.1.endpoints, h.2.2.2⟩⟩

theorem importNode_eq (keyed : Keyed rows) (free : n.endpoint ∉ rows.map WorkerRow.endpoint) :
    importNode rows n = if importName n ∈ rows.map WorkerRow.name then rows
      else rows ++ [importRow (freshId rows) n] := by
  unfold importNode
  by_cases taken : importName n ∈ rows.map WorkerRow.name
  · rw [if_pos taken, if_neg]
    exact fun h => (keyed_snoc.mp h).2.2.1 taken
  · rw [if_neg taken, if_pos]
    exact keyed_snoc.mpr ⟨keyed, freshId_new rows, taken, free⟩

theorem importName_injective {m : Node} (same : importName n = importName m) : n.nodeId = m.nodeId := by
  have chars := congrArg String.toList same
  rw [importName, importName, String.toList_append, String.toList_append] at chars
  exact RateLimits.toString_inj (List.append_cancel_left chars)

theorem foldl_importNode {nodes : List Node} (keyed : Keyed rows) (known : KnownNodes nodes)
    (free : ∀ n ∈ nodes, n.endpoint ∉ rows.map WorkerRow.endpoint) :
    ∃ extra, nodes.foldl importNode rows = rows ++ extra ∧ Keyed (rows ++ extra) ∧
      List.Forall₂ (fun w n => ∃ id, w = importRow id n) extra
        (nodes.filter fun n => importName n ∉ rows.map WorkerRow.name) := by
  induction nodes generalizing rows with
  | nil => exact ⟨[], (List.append_nil _).symm, (List.append_nil rows).symm ▸ keyed, .nil⟩
  | cons n nodes ih =>
    have ids := List.nodup_cons.mp known.ids
    have endpoints := List.nodup_cons.mp known.endpoints
    have later : KnownNodes nodes := ⟨ids.2, endpoints.2⟩
    have first := free n List.mem_cons_self
    rw [List.foldl_cons, importNode_eq keyed first]
    by_cases taken : importName n ∈ rows.map WorkerRow.name
    · rw [if_pos taken, List.filter_cons_of_neg (by simpa using taken)]
      exact ih keyed later fun m hm => free m (List.mem_cons_of_mem _ hm)
    · have grown : Keyed (rows ++ [importRow (freshId rows) n]) :=
        keyed_snoc.mpr ⟨keyed, freshId_new rows, taken, first⟩
      have apart : ∀ m ∈ nodes, m.endpoint ∉ (rows ++ [importRow (freshId rows) n]).map WorkerRow.endpoint := by
        intro m hm inside
        rw [List.map_append, List.map_singleton, List.mem_append, List.mem_singleton] at inside
        rcases inside with old | new
        · exact free m (List.mem_cons_of_mem _ hm) old
        · exact endpoints.1 (List.mem_map.mpr ⟨m, hm, new⟩)
      have names : ∀ m ∈ nodes, (importName m ∉ (rows ++ [importRow (freshId rows) n]).map WorkerRow.name ↔
          importName m ∉ rows.map WorkerRow.name) := by
        intro m hm
        have other : importName m ≠ importName n := fun same =>
          ids.1 (List.mem_map.mpr ⟨m, hm, importName_injective same⟩)
        rw [List.map_append, List.map_singleton, List.mem_append, List.mem_singleton]
        simp [importRow, other]
      obtain ⟨extra, same, kept, shape⟩ := ih grown later apart
      refine ⟨importRow (freshId rows) n :: extra, ?_, ?_, ?_⟩
      · rw [if_neg taken, same, List.append_assoc, List.singleton_append]
      · rwa [List.append_assoc, List.singleton_append] at kept
      · rw [List.filter_cons_of_pos (by simpa using taken)]
        rw [List.filter_congr fun m hm => decide_eq_decide.mpr (names m hm)] at shape
        exact .cons ⟨_, rfl⟩ shape

theorem imports_endpoints {nodes : List Node} (shape : List.Forall₂ (fun w n => ∃ id, w = importRow id n) extra nodes) :
    extra.map WorkerRow.endpoint = nodes.map Node.endpoint := by
  induction shape with
  | nil => rfl
  | cons own _ ih =>
    obtain ⟨id, rfl⟩ := own
    rw [List.map_cons, List.map_cons, ih]
    rfl

theorem imports_mem {nodes : List Node} (shape : List.Forall₂ (fun w n => ∃ id, w = importRow id n) extra nodes)
    (inside : w ∈ extra) : ∃ n ∈ nodes, ∃ id, w = importRow id n := by
  induction shape with
  | nil => cases inside
  | cons own _ ih =>
    rcases List.mem_cons.mp inside with rfl | later
    · exact ⟨_, List.mem_cons_self, own⟩
    · obtain ⟨n, hn, same⟩ := ih later
      exact ⟨n, List.mem_cons_of_mem _ hn, same⟩

theorem updateRow_at {before after : List WorkerRow} {r : WorkerRow} {change : WorkerRow → WorkerRow}
    (ids : ((before ++ r :: after).map WorkerRow.id).Nodup) :
    updateRow (before ++ r :: after) r.id change = before ++ change r :: after := by
  rw [List.map_append, List.map_cons] at ids
  have split := List.nodup_append.mp ids
  have others : ∀ w ∈ before ++ after, w.id ≠ r.id := by
    intro w hw same
    rcases List.mem_append.mp hw with early | late
    · exact split.2.2 w.id (List.mem_map_of_mem early) r.id List.mem_cons_self same
    · exact (List.nodup_cons.mp split.2.1).1 (same ▸ List.mem_map_of_mem late)
  have still : ∀ part : List WorkerRow, (∀ w ∈ part, w.id ≠ r.id) →
      part.map (fun w => if w.id = r.id then change w else w) = part := by
    intro part away
    exact (List.map_congr_left fun w hw => if_neg (away w hw)).trans (List.map_id _)
  rw [updateRow, List.map_append, List.map_cons, if_pos rfl,
    still before fun w hw => others w (List.mem_append_left _ hw),
    still after fun w hw => others w (List.mem_append_right _ hw)]

theorem foldl_updateRow {change : WorkerRow → WorkerRow → WorkerRow} (keeps : ∀ r w, (change r w).id = w.id)
    (before : List WorkerRow) (ids : ((before ++ (rows ++ extra)).map WorkerRow.id).Nodup) :
    rows.foldl (fun current r => updateRow current r.id (change r)) (before ++ (rows ++ extra)) =
      before ++ (rows.map (fun r => change r r) ++ extra) := by
  induction rows generalizing before with
  | nil => rfl
  | cons r rows ih =>
    have moved : before ++ change r r :: (rows ++ extra) = (before ++ [change r r]) ++ (rows ++ extra) := by
      rw [List.append_assoc, List.singleton_append]
    rw [List.cons_append] at ids ⊢
    rw [List.foldl_cons, updateRow_at ids, moved, ih _ _, List.append_assoc, List.singleton_append, List.map_cons,
      List.cons_append]
    rw [← moved, List.map_append, List.map_cons, keeps, ← List.map_cons, ← List.map_append]
    exact ids

theorem reconcile_lost {r : WorkerRow} (lost : liveAt live r.endpoint = none) :
    reconcile live r w = if r.status = .pending then w else { w with status := .drift } := by
  unfold reconcile
  rw [lost]

theorem reconcile_found {r : WorkerRow} (found : liveAt live r.endpoint = some n) :
    reconcile live r w = { w with citusNodeId := some n.nodeId, shouldHaveShards := n.shouldHaveShards } := by
  unfold reconcile
  rw [found]

theorem reconcile_keys (r : WorkerRow) :
    (reconcile live r w).id = w.id ∧ (reconcile live r w).name = w.name ∧
      (reconcile live r w).endpoint = w.endpoint := by
  cases found : liveAt live r.endpoint with
  | none =>
    rw [reconcile_lost found]
    by_cases pending : r.status = .pending
    · simp only [pending, if_true, and_self]
    · simp only [pending, if_false, WorkerRow.endpoint, and_self]
  | some n =>
    rw [reconcile_found found]
    exact ⟨rfl, rfl, rfl⟩

theorem reconcile_twice (r : WorkerRow) :
    reconcile live (reconcile live r r) (reconcile live r r) = reconcile live r r := by
  have endpoint : (reconcile live r r).endpoint = r.endpoint := (reconcile_keys r).2.2
  cases found : liveAt live r.endpoint with
  | none =>
    rw [reconcile_lost (endpoint.symm ▸ found), reconcile_lost found]
    by_cases pending : r.status = .pending <;> simp [pending]
  | some n =>
    rw [reconcile_found (endpoint.symm ▸ found), reconcile_found found]

theorem mem_unknownTo :
    n ∈ unknownTo rows live ↔ n ∈ live ∧ n.endpoint ∉ rows.map WorkerRow.endpoint := by
  simp [unknownTo]

theorem sync_eq (keyed : Keyed rows) (known : KnownNodes live) :
    ∃ extra, (sync rows live).rows = rows.map (fun r => reconcile live r r) ++ extra ∧ Keyed (sync rows live).rows ∧
      List.Forall₂ (fun w n => ∃ id, w = importRow id n) extra
        ((unknownTo rows live).filter fun n => importName n ∉ rows.map WorkerRow.name) := by
  have sub : (unknownTo rows live).Sublist live := List.filter_sublist
  have part : KnownNodes (unknownTo rows live) :=
    ⟨known.ids.sublist (sub.map _), known.endpoints.sublist (sub.map _)⟩
  obtain ⟨extra, imported, kept, shape⟩ :=
    foldl_importNode keyed part fun n hn => (mem_unknownTo.mp hn).2
  have loops : (sync rows live).rows = rows.map (fun r => reconcile live r r) ++ extra := by
    change rows.foldl _ ((unknownTo rows live).foldl importNode rows) = _
    rw [imported]
    exact foldl_updateRow (fun r w => (reconcile_keys r).1) [] kept.ids
  refine ⟨extra, loops, ?_, shape⟩
  have same {α : Type} (f : WorkerRow → α) (keeps : ∀ r, f (reconcile live r r) = f r) :
      ((sync rows live).rows).map f = (rows ++ extra).map f := by
    rw [loops, List.map_append, List.map_append, List.map_map]
    exact congrArg (· ++ extra.map f) (List.map_congr_left fun r _ => keeps r)
  exact ⟨same WorkerRow.id (fun r => (reconcile_keys r).1) ▸ kept.ids,
    same WorkerRow.name (fun r => (reconcile_keys r).2.1) ▸ kept.names,
    same WorkerRow.endpoint (fun r => (reconcile_keys r).2.2) ▸ kept.endpoints⟩

theorem liveAt_mem (known : KnownNodes live) (inside : n ∈ live) : liveAt live n.endpoint = some n := by
  unfold liveAt
  cases found : live.find? (·.endpoint = n.endpoint) with
  | none =>
    have absent := List.find?_eq_none.mp found n inside
    simp at absent
  | some m =>
    have same : m.endpoint = n.endpoint := by simpa using List.find?_some found
    rw [List.inj_on_of_nodup_map known.endpoints (List.mem_of_find?_eq_some found) inside same]

theorem liveAt_none : liveAt live e = none ↔ e ∉ live.map Node.endpoint := by
  simp [liveAt]

theorem sync_registers (keyed : Keyed rows) (known : KnownNodes live) (inside : n ∈ live) :
    n.endpoint ∈ (sync rows live).rows.map WorkerRow.endpoint ↔
      n.endpoint ∈ rows.map WorkerRow.endpoint ∨ importName n ∉ rows.map WorkerRow.name := by
  obtain ⟨extra, same, _, shape⟩ := sync_eq keyed known
  have old : (rows.map fun r => reconcile live r r).map WorkerRow.endpoint = rows.map WorkerRow.endpoint := by
    rw [List.map_map]
    exact List.map_congr_left fun r _ => (reconcile_keys r).2.2
  rw [same, List.map_append, List.mem_append, old]
  rw [imports_endpoints shape]
  by_cases registered : n.endpoint ∈ rows.map WorkerRow.endpoint
  · simp only [registered, true_or]
  · simp only [registered, false_or]
    constructor
    · intro added
      obtain ⟨m, hm, own⟩ := List.mem_map.mp added
      have chosen := List.mem_filter.mp hm
      have node : m = n := List.inj_on_of_nodup_map known.endpoints (mem_unknownTo.mp chosen.1).1 inside own
      simpa [node] using chosen.2
    · intro free
      exact List.mem_map_of_mem (List.mem_filter.mpr ⟨mem_unknownTo.mpr ⟨inside, registered⟩, by simpa using free⟩)

theorem sync_drifts (keyed : Keyed rows) (known : KnownNodes live) (inside : w ∈ (sync rows live).rows)
    (lost : w.endpoint ∉ live.map Node.endpoint) : w.status = .drift ∨ w.status = .pending := by
  obtain ⟨extra, same, _, shape⟩ := sync_eq keyed known
  rw [same] at inside
  rcases List.mem_append.mp inside with old | new
  · obtain ⟨r, _, rfl⟩ := List.mem_map.mp old
    rw [(reconcile_keys r).2.2] at lost
    rw [reconcile_lost (liveAt_none.mpr lost)]
    by_cases pending : r.status = .pending
    · simp [pending]
    · simp [pending]
  · obtain ⟨m, hm, id, rfl⟩ := imports_mem shape new
    exact absurd (List.mem_map_of_mem (mem_unknownTo.mp (List.mem_of_mem_filter hm)).1) lost

theorem sync_twice (keyed : Keyed rows) (known : KnownNodes live) :
    (sync (sync rows live).rows live).rows = (sync rows live).rows := by
  obtain ⟨extra, same, kept, shape⟩ := sync_eq keyed known
  obtain ⟨more, again, _, late⟩ := sync_eq kept known
  have none : (unknownTo (sync rows live).rows live).filter
      (fun n => importName n ∉ (sync rows live).rows.map WorkerRow.name) = [] := by
    rw [List.filter_eq_nil_iff]
    intro n hn
    have unknown := mem_unknownTo.mp hn
    have refused := mt (sync_registers keyed known unknown.1).mpr unknown.2
    rw [not_or, not_not] at refused
    obtain ⟨r, hr, name⟩ := List.mem_map.mp refused.2
    have still : importName n ∈ (sync rows live).rows.map WorkerRow.name := by
      have kept_name : (reconcile live r r).name = r.name := (reconcile_keys r).2.1
      rw [same, ← name, ← kept_name]
      exact List.mem_map_of_mem (List.mem_append_left _ (List.mem_map_of_mem hr))
    simpa using still
  rw [none, List.forall₂_nil_right_iff] at late
  rw [again, late, List.append_nil]
  calc (sync rows live).rows.map (fun r => reconcile live r r)
      = (sync rows live).rows.map id := List.map_congr_left fun w hw => by
        rw [same] at hw
        rcases List.mem_append.mp hw with old | new
        · obtain ⟨r, _, rfl⟩ := List.mem_map.mp old
          exact reconcile_twice r
        · obtain ⟨m, hm, id, rfl⟩ := imports_mem shape new
          have node := liveAt_mem known (mem_unknownTo.mp (List.mem_of_mem_filter hm)).1
          change liveAt live (importRow id m).endpoint = some m at node
          rw [reconcile_found node]
          rfl
    _ = (sync rows live).rows := List.map_id _

theorem sync_counts (keyed : Keyed rows) (known : KnownNodes live) :
    (sync rows live).rows.length + (unknownTo rows live).countP (fun n => importName n ∈ rows.map WorkerRow.name) =
      rows.length + (sync rows live).imported := by
  obtain ⟨extra, same, _, shape⟩ := sync_eq keyed known
  have parts := List.length_eq_countP_add_countP (fun n => decide (importName n ∈ rows.map WorkerRow.name))
    (l := unknownTo rows live)
  have added : extra.length = (unknownTo rows live).countP fun n => ¬ importName n ∈ rows.map WorkerRow.name := by
    rw [shape.length_eq, List.countP_eq_length_filter]
  have count : (sync rows live).imported = (unknownTo rows live).length := rfl
  rw [same, List.length_append, List.length_map, added, count, parts]
  simp only [decide_eq_true_eq]
  omega

def isWorkerName (p : List Char) : Bool :=
  3 ≤ p.length && p.length ≤ 63 && p.head?.any Char.isLower &&
    p.all (fun c => c.isLower || c.isDigit || c = '-') && p.getLast?.any fun c => c.isLower || c.isDigit

def validateName : JsValue → Except WorkerError String
  | .str raw =>
    let name := lower (trim raw)
    if isWorkerName name then .ok (String.ofList name)
    else .error (invalidWorker
      "name must be 3-63 chars: lowercase letters, digits and hyphens, starting with a letter")
  | _ => .error (invalidWorker
      "name must be 3-63 chars: lowercase letters, digits and hyphens, starting with a letter")

def validatePort (raw : JsValue) : Except WorkerError ℕ :=
  let n : Option ℚ := match raw with
    | .str s => if s ≠ "" && s.toList.all Char.isDigit then some (positional 10 s.toList) else none
    | .num q => some q
    | _ => none
  match n with
  | some q =>
    if q.den = 1 ∧ 1 ≤ q ∧ q ≤ 65535 then .ok q.num.toNat
    else .error (invalidWorker "port must be an integer between 1 and 65535")
  | none => .error (invalidWorker "port must be an integer between 1 and 65535")

structure Cluster where
  registry : Registry
  metadata : Metadata

/-- `ALLOW_LOOPBACK_WORKERS`, and `COORDINATOR_HOST` in small letters with `COORDINATOR_PORT`. -/
structure Settings where
  loopback : Bool
  coordinator : Option Endpoint

structure AddInput where
  name : JsValue
  host : JsValue
  port : JsValue
  shouldHaveShards : JsValue

structure Checked where
  name : String
  host : String
  port : ℕ
  shouldHaveShards : Bool

def checkInput (s : Settings) (input : AddInput) : Except WorkerError Checked := do
  let name ← validateName input.name
  let host ← validateHost s.loopback input.host
  let port ← validatePort (match input.port with | .undefined | .null => .num 5432 | port => port)
  let shouldHaveShards ← match input.shouldHaveShards with
    | .undefined => .ok true
    | .bool b => .ok b
    | _ => .error (invalidWorker "shouldHaveShards must be boolean")
  if s.coordinator = some (String.ofList host, port) then
    .error (invalidWorker "the coordinator cannot be registered as a worker")
  else .ok { name, host := String.ofList host, port, shouldHaveShards }

def Registry.delete (g : Registry) (id : ℕ) : Registry where
  rows := g.rows.filter (·.id ≠ id)
  keyed :=
    have part : (g.rows.filter (·.id ≠ id)).Sublist g.rows := List.filter_sublist
    ⟨g.keyed.ids.sublist (part.map _), g.keyed.names.sublist (part.map _), g.keyed.endpoints.sublist (part.map _)⟩

def WorkerRow.setState (w : WorkerRow) (status : WorkerStatus) (shouldHaveShards : Bool) (citusNodeId : Option ℕ) :
    WorkerRow :=
  { w with status, shouldHaveShards, citusNodeId }

def Registry.setState (g : Registry) (id : ℕ) (status : WorkerStatus) (shouldHaveShards : Bool)
    (citusNodeId : Option ℕ → Option ℕ) : Registry where
  rows := updateRow g.rows id fun w => w.setState status shouldHaveShards (citusNodeId w.citusNodeId)
  keyed := by
    have same {α : Type} (f : WorkerRow → α) (keeps : ∀ w p b n, f (WorkerRow.setState w p b n) = f w) :
        (updateRow g.rows id fun w => w.setState status shouldHaveShards (citusNodeId w.citusNodeId)).map f =
          g.rows.map f := by
      rw [updateRow, List.map_map]
      refine List.map_congr_left fun w _ => ?_
      by_cases own : w.id = id <;> simp [own, keeps]
    exact ⟨same WorkerRow.id (fun _ _ _ _ => rfl) ▸ g.keyed.ids,
      same WorkerRow.name (fun _ _ _ _ => rfl) ▸ g.keyed.names,
      same WorkerRow.endpoint (fun _ _ _ _ => rfl) ▸ g.keyed.endpoints⟩

/-- `citus_add_node`: a node that is known is left as it is. -/
def Metadata.addNode (m : Metadata) (n : Node) : Metadata :=
  if known : KnownNodes (m.nodes ++ [n]) then ⟨m.nodes ++ [n], known⟩ else m

def Metadata.removeNode (m : Metadata) (e : Endpoint) : Metadata where
  nodes := m.nodes.filter (·.endpoint ≠ e)
  known :=
    have part : (m.nodes.filter (·.endpoint ≠ e)).Sublist m.nodes := List.filter_sublist
    ⟨m.known.ids.sublist (part.map _), m.known.endpoints.sublist (part.map _)⟩

def Metadata.change (m : Metadata) (f : Node → Bool × Bool × ℕ) : Metadata where
  nodes := m.nodes.map fun n => { n with isActive := (f n).1, shouldHaveShards := (f n).2.1, shards := (f n).2.2 }
  known := by
    refine ⟨?_, ?_⟩ <;> rw [List.map_map]
    · exact m.known.ids
    · exact m.known.endpoints

/-- What Citus does for an addition: it fails, before or after the node is added. -/
inductive CitusAdd
  | refused (message : String)
  | halfway (node : ℕ) (shouldHaveShards : Bool) (message : String)
  | done (node : ℕ)

abbrev Outcome := Cluster × Except WorkerError Unit

def duplicateWorker (message : String) : WorkerError := ⟨409, "DUPLICATE_WORKER", message⟩

def unreachable (w : Checked) (message : String) : WorkerError :=
  ⟨502, "WORKER_UNREACHABLE", s!"Citus could not add {w.host}:{w.port}: {message}"⟩

def newNode (node : ℕ) (w : Checked) (shouldHaveShards : Bool) : Node :=
  { nodeId := node, nodeName := w.host, nodePort := w.port, isActive := true, shouldHaveShards, shards := 0 }

def pendingRow (id : ℕ) (w : Checked) : WorkerRow :=
  { id, name := w.name, host := w.host, port := w.port, status := .pending,
    shouldHaveShards := w.shouldHaveShards, citusNodeId := none }

def add (s : Settings) (c : Cluster) (input : AddInput) (gate : Except WorkerError Unit) (citus : CitusAdd) :
    Outcome :=
  match checkInput s input with
  | .error e => (c, .error e)
  | .ok w =>
    match gate with
    | .error e => (c, .error e)
    | .ok _ =>
      let id := freshId c.registry.rows
      match Registry.replace (c.registry.rows ++ [pendingRow id w]) with
      | none => (c, .error (duplicateWorker "a worker with this name or host:port is already registered"))
      | some registry =>
        match citus with
        | .refused message => (⟨registry.delete id, c.metadata⟩, .error (unreachable w message))
        | .halfway node shouldHaveShards message =>
          (⟨registry.delete id, c.metadata.addNode (newNode node w shouldHaveShards)⟩, .error (unreachable w message))
        | .done node =>
          (⟨registry.setState id (if w.shouldHaveShards then .active else .inactive) w.shouldHaveShards
              fun _ => some node,
            c.metadata.addNode (newNode node w w.shouldHaveShards)⟩, .ok ())

def workerNotFound : WorkerError := ⟨404, "WORKER_NOT_FOUND", "worker not found"⟩

def getRow (c : Cluster) (id : ℕ) : Except WorkerError WorkerRow :=
  match c.registry.rows.find? (·.id = id) with
  | some row => .ok row
  | none => .error workerNotFound

def liveNodes (c : Cluster) (answered : Bool) : List Node := if answered then c.metadata.nodes else []

def setShards (c : Cluster) (row : WorkerRow) (value answered : Bool) (gate : Except WorkerError Unit) : Outcome :=
  match gate with
  | .error e => (c, .error e)
  | .ok _ =>
    match liveAt (liveNodes c answered) row.endpoint with
    | none => (c, .error ⟨409, "WORKER_DRIFT", "worker is not in Citus metadata; run sync first"⟩)
    | some n =>
      let status := if value then .active else if 0 < n.shards then .draining else .inactive
      (⟨c.registry.setState row.id status value id, c.metadata.change fun m =>
        (m.isActive, if m.endpoint = row.endpoint then value else m.shouldHaveShards, m.shards)⟩, .ok ())

def placeShards (c : Cluster) (id : ℕ) (value answered : Bool) (gate : Except WorkerError Unit) : Outcome :=
  match getRow c id with
  | .error e => (c, .error e)
  | .ok row => setShards c row value answered gate

def rename (c : Cluster) (id : ℕ) (name : String) : Outcome :=
  match Registry.replace (updateRow c.registry.rows id fun w => { w with name }) with
  | some registry => (⟨registry, c.metadata⟩, .ok ())
  | none => (c, .error (duplicateWorker "name already in use"))

def patchShards (c : Cluster) (row : WorkerRow) (shouldHaveShards : JsValue) (answered : Bool)
    (gate : Except WorkerError Unit) : Outcome :=
  match shouldHaveShards with
  | .undefined => (c, .ok ())
  | .bool value => setShards c row value answered gate
  | _ => (c, .error (invalidWorker "shouldHaveShards must be boolean"))

def update (c : Cluster) (id : ℕ) (name shouldHaveShards : JsValue) (answered : Bool)
    (gate : Except WorkerError Unit) : Outcome :=
  match getRow c id with
  | .error e => (c, .error e)
  | .ok row =>
    let named : Except WorkerError (Option String) :=
      if name = .undefined then .ok none else (validateName name).map some
    match named with
    | .error e => (c, .error e)
    | .ok named =>
      let placed := patchShards c row shouldHaveShards answered gate
      match placed.2, named with
      | .error e, _ => (placed.1, .error e)
      | .ok _, some name => rename placed.1 id name
      | .ok _, none =>
        if shouldHaveShards = .undefined then (c, .error (invalidWorker "nothing to update")) else placed

/-- `distributed` is the number of distributed tables, `removed` the answer of `citus_remove_node`. -/
def remove (c : Cluster) (id : ℕ) (answered : Bool) (distributed : ℕ) (gate removed : Except WorkerError Unit) :
    Outcome :=
  match getRow c id with
  | .error e => (c, .error e)
  | .ok row =>
    match liveAt (liveNodes c answered) row.endpoint with
    | none => (⟨c.registry.delete id, c.metadata⟩, .ok ())
    | some n =>
      let others := (liveNodes c answered).filter (·.endpoint ≠ row.endpoint)
      if 0 < n.shards then
        (c, .error ⟨409, "WORKER_HAS_SHARDS", s!"worker still holds {n.shards} shard placements; " ++
          "drain it and wait for the rebalance to finish first"⟩)
      else if others = [] && 0 < distributed then
        (c, .error ⟨409, "LAST_WORKER", "cannot remove the last worker while distributed tables exist"⟩)
      else match gate, removed with
        | .error e, _ | .ok _, .error e => (c, .error e)
        | .ok _, .ok _ => (⟨c.registry.delete id, c.metadata.removeNode row.endpoint⟩, .ok ())

def Registry.sync (g : Registry) (reading : Metadata) : Registry where
  rows := (WorkerRegistries.sync g.rows reading.nodes).rows
  keyed := by
    obtain ⟨_, _, kept, _⟩ := sync_eq g.keyed reading.known
    exact kept

inductive Event
  | add (input : AddInput) (gate : Except WorkerError Unit) (citus : CitusAdd)
  | update (id : ℕ) (name shouldHaveShards : JsValue) (answered : Bool) (gate : Except WorkerError Unit)
  | placeShards (id : ℕ) (value answered : Bool) (gate : Except WorkerError Unit)
  | remove (id : ℕ) (answered : Bool) (distributed : ℕ) (gate removed : Except WorkerError Unit)
  /-- The nodes may have changed since they were read. -/
  | sync (gate : Except WorkerError Unit) (reading : Metadata)
  /-- The rebalance that a drain or an administrator has started moves shards. -/
  | moved (shards : Node → ℕ)
  /-- Citus is changed past the service. -/
  | attached (n : Node)
  | detached (e : Endpoint)
  | changed (f : Node → Bool × Bool × ℕ)

def step (s : Settings) (c : Cluster) : Event → Cluster
  | .add input gate citus => (add s c input gate citus).1
  | .update id name shouldHaveShards answered gate => (update c id name shouldHaveShards answered gate).1
  | .placeShards id value answered gate => (placeShards c id value answered gate).1
  | .remove id answered distributed gate removed => (remove c id answered distributed gate removed).1
  | .sync (.error _) _ => c
  | .sync (.ok _) reading => ⟨c.registry.sync reading, c.metadata⟩
  | .moved shards => ⟨c.registry, c.metadata.change fun n => (n.isActive, n.shouldHaveShards, shards n)⟩
  | .attached n => ⟨c.registry, c.metadata.addNode n⟩
  | .detached e => ⟨c.registry, c.metadata.removeNode e⟩
  | .changed f => ⟨c.registry, c.metadata.change f⟩

def run (s : Settings) : Cluster → List Event → Cluster
  | c, [] => c
  | c, ev :: es => run s (step s c ev) es

def Event.blind : Event → Bool
  | .remove _ answered _ _ _ => !answered
  | _ => false

/-- The event is not a request to the service. -/
def Event.foreign : Event → Bool
  | .moved _ | .attached _ | .detached _ | .changed _ => true
  | _ => false

/-- It is neither a removal that cannot read the nodes nor takes the node from Citus past the service. -/
def Event.spares (e : Endpoint) : Event → Bool
  | .remove _ answered _ _ _ => answered
  | .detached d => d ≠ e
  | _ => true

/-- The endpoint that an event may leave without a row: an addition that failed when Citus had the node, a removal
that could not read the nodes, or a node that was added past the service. -/
def stray (s : Settings) (c : Cluster) : Event → Option Endpoint
  | .add input _ (.halfway _ _ _) => match checkInput s input with
    | .ok w => some (w.host, w.port)
    | .error _ => none
  | .remove id false _ _ _ => match getRow c id with
    | .ok row => some row.endpoint
    | .error _ => none
  | .attached n => some n.endpoint
  | _ => none

def strays (s : Settings) : Cluster → List Event → List Endpoint
  | _, [] => []
  | c, ev :: es => (stray s c ev).toList ++ strays s (step s c ev) es

def Registry.endpoints (g : Registry) : List Endpoint := g.rows.map WorkerRow.endpoint

def Metadata.places (m : Metadata) : List (Endpoint × ℕ) := m.nodes.map fun n => (n.endpoint, n.shards)

def unknown (c : Cluster) : Set Endpoint :=
  {e | e ∈ c.metadata.places.map Prod.fst ∧ e ∉ c.registry.endpoints}

/-- A synchronisation gives a row to each node that had none, unless a row has the name it would get; what it counts
as imported includes those. A row without a node is in drift or still being added. A second synchronisation with the
same reading changes nothing. -/
theorem registry_synced (g : Registry) (reading : Metadata) :
    (∀ n ∈ reading.nodes, n.endpoint ∈ (g.sync reading).endpoints ↔
      n.endpoint ∈ g.endpoints ∨ importName n ∉ g.rows.map WorkerRow.name) ∧
    (g.sync reading).rows.length +
        (unknownTo g.rows reading.nodes).countP (fun n => importName n ∈ g.rows.map WorkerRow.name) =
      g.rows.length + (sync g.rows reading.nodes).imported ∧
    (∀ w ∈ (g.sync reading).rows, w.endpoint ∉ reading.nodes.map Node.endpoint →
      w.status = .drift ∨ w.status = .pending) ∧
    ((g.sync reading).sync reading).rows = (g.sync reading).rows :=
  ⟨fun _ inside => sync_registers g.keyed reading.known inside, sync_counts g.keyed reading.known,
    fun _ inside lost => sync_drifts g.keyed reading.known inside lost, sync_twice g.keyed reading.known⟩

variable {c c' : Cluster} {g g' : Registry} {m : Metadata} {s : Settings} {ev : Event} {id : ℕ}

/-- All that an operation of the service does to the endpoints. -/
inductive Effect (c c' : Cluster) (stray : Option Endpoint) (blind : Bool) : Prop
  | kept : c'.registry.endpoints = c.registry.endpoints → c'.metadata.places = c.metadata.places →
      Effect c c' stray blind
  | registered (e : Endpoint) : c'.registry.endpoints = c.registry.endpoints ++ [e] →
      c'.metadata.places = c.metadata.places ∨ c'.metadata.places = c.metadata.places ++ [(e, 0)] →
      Effect c c' stray blind
  | strayed (e : Endpoint) : stray = some e → c'.registry.endpoints = c.registry.endpoints →
      c'.metadata.places = c.metadata.places ∨ c'.metadata.places = c.metadata.places ++ [(e, 0)] →
      Effect c c' stray blind
  | unregistered (e : Endpoint) : e ∉ c.metadata.places.map Prod.fst →
      c'.registry.endpoints = c.registry.endpoints.filter (· ≠ e) → c'.metadata.places = c.metadata.places →
      Effect c c' stray blind
  | forgotten (e : Endpoint) : blind = true → stray = some e →
      c'.registry.endpoints = c.registry.endpoints.filter (· ≠ e) → c'.metadata.places = c.metadata.places →
      Effect c c' stray blind
  | removed (e : Endpoint) : (∀ k, (e, k) ∈ c.metadata.places → k = 0) →
      c'.registry.endpoints = c.registry.endpoints.filter (· ≠ e) →
      c'.metadata.places = c.metadata.places.filter (·.1 ≠ e) → Effect c c' stray blind
  | synced : (∀ e ∈ c.registry.endpoints, e ∈ c'.registry.endpoints) →
      c'.metadata.places = c.metadata.places → Effect c c' stray blind

theorem replace_rows (replaced : Registry.replace rows = some g) : g.rows = rows := by
  unfold Registry.replace at replaced
  by_cases keyed : Keyed rows
  · rw [dif_pos keyed, Option.some.injEq] at replaced
    rw [← replaced]
  · rw [dif_neg keyed] at replaced
    cases replaced

theorem updateRow_endpoints {change : WorkerRow → WorkerRow} (keeps : ∀ w, (change w).endpoint = w.endpoint) :
    (updateRow rows id change).map WorkerRow.endpoint = rows.map WorkerRow.endpoint := by
  rw [updateRow, List.map_map]
  refine List.map_congr_left fun w _ => ?_
  by_cases own : w.id = id <;> simp [own, keeps]

theorem setState_endpoints (status : WorkerStatus) (shards : Bool) (node : Option ℕ → Option ℕ) :
    (g.setState id status shards node).endpoints = g.endpoints :=
  updateRow_endpoints fun _ => rfl

theorem delete_added {row : WorkerRow} (replaced : Registry.replace (g.rows ++ [row]) = some g')
    (fresh : row.id = freshId g.rows) : (g'.delete (freshId g.rows)).endpoints = g.endpoints := by
  have others : ∀ w ∈ g.rows, decide (w.id ≠ freshId g.rows) = true := by
    intro w hw
    rw [decide_eq_true_eq]
    exact fun same => freshId_new g.rows (same ▸ List.mem_map_of_mem hw)
  change (g'.rows.filter fun w => w.id ≠ freshId g.rows).map WorkerRow.endpoint = g.rows.map WorkerRow.endpoint
  rw [replace_rows replaced, List.filter_append, List.filter_eq_self.mpr others,
    List.filter_cons_of_neg (by simpa using fresh), List.filter_nil, List.append_nil]

theorem delete_endpoints {row : WorkerRow} (found : getRow c id = .ok row) :
    (c.registry.delete id).endpoints = c.registry.endpoints.filter (· ≠ row.endpoint) := by
  have inside : row ∈ c.registry.rows ∧ row.id = id := by
    unfold getRow at found
    cases search : c.registry.rows.find? (·.id = id) with
    | none =>
      rw [search] at found
      cases found
    | some w =>
      rw [search, Except.ok.injEq] at found
      subst found
      exact ⟨List.mem_of_find?_eq_some search, by simpa using List.find?_some search⟩
  unfold Registry.endpoints Registry.delete
  rw [List.filter_map]
  refine congrArg _ (List.filter_congr fun w hw => ?_)
  rw [Function.comp_apply, decide_eq_decide]
  constructor
  · exact fun other same => other (inside.2 ▸ congrArg WorkerRow.id
      (List.inj_on_of_nodup_map c.registry.keyed.endpoints hw inside.1 same))
  · exact fun other same => other (congrArg WorkerRow.endpoint
      (List.inj_on_of_nodup_map c.registry.keyed.ids hw inside.1 (same.trans inside.2.symm)))

theorem addNode_places (n : Node) :
    (m.addNode n).places = m.places ∨ (m.addNode n).places = m.places ++ [(n.endpoint, n.shards)] := by
  unfold Metadata.addNode
  by_cases known : KnownNodes (m.nodes ++ [n])
  · rw [dif_pos known]
    exact .inr (List.map_append ..)
  · rw [dif_neg known]
    exact .inl rfl

theorem removeNode_places : (m.removeNode e).places = m.places.filter (·.1 ≠ e) := by
  unfold Metadata.places Metadata.removeNode
  rw [List.filter_map]
  rfl

theorem add_effect {input : AddInput} {gate : Except WorkerError Unit} {citus : CitusAdd} :
    Effect c (add s c input gate citus).1 (stray s c (.add input gate citus)) false := by
  unfold add
  cases checked : checkInput s input with
  | error _ => exact .kept rfl rfl
  | ok w =>
    cases gate with
    | error _ => exact .kept rfl rfl
    | ok _ =>
      simp only []
      cases replaced : Registry.replace (c.registry.rows ++ [pendingRow (freshId c.registry.rows) w]) with
      | none => exact .kept rfl rfl
      | some registry =>
        cases citus with
        | refused message => exact .kept (delete_added replaced rfl) rfl
        | halfway node shards message =>
          exact .strayed (w.host, w.port) (by simp only [stray, checked]) (delete_added replaced rfl)
            (addNode_places (newNode node w shards))
        | done node =>
          refine .registered (w.host, w.port) ?_ (addNode_places (newNode node w w.shouldHaveShards))
          rw [setState_endpoints]
          unfold Registry.endpoints
          rw [replace_rows replaced, List.map_append]
          rfl

theorem setShards_effect {row : WorkerRow} {value answered : Bool} {gate : Except WorkerError Unit} :
    (setShards c row value answered gate).1.registry.endpoints = c.registry.endpoints ∧
      (setShards c row value answered gate).1.metadata.places = c.metadata.places := by
  unfold setShards
  cases gate with
  | error _ => exact ⟨rfl, rfl⟩
  | ok _ =>
    cases liveAt (liveNodes c answered) row.endpoint with
    | none => exact ⟨rfl, rfl⟩
    | some n =>
      refine ⟨setState_endpoints _ _ _, ?_⟩
      unfold Metadata.places Metadata.change
      rw [List.map_map]
      rfl

theorem placeShards_effect {value answered blind : Bool} {gate : Except WorkerError Unit} {lost : Option Endpoint} :
    Effect c (placeShards c id value answered gate).1 lost blind := by
  unfold placeShards
  cases getRow c id with
  | error _ => exact .kept rfl rfl
  | ok row => exact .kept setShards_effect.1 setShards_effect.2

theorem rename_effect {name : String} :
    (rename c id name).1.registry.endpoints = c.registry.endpoints ∧
      (rename c id name).1.metadata.places = c.metadata.places := by
  unfold rename
  cases replaced : Registry.replace (updateRow c.registry.rows id fun w => { w with name }) with
  | none => exact ⟨rfl, rfl⟩
  | some registry =>
    refine ⟨?_, rfl⟩
    unfold Registry.endpoints
    rw [replace_rows replaced]
    exact updateRow_endpoints fun _ => rfl

theorem remove_effect {answered : Bool} {distributed : ℕ} {gate removed : Except WorkerError Unit} :
    Effect c (remove c id answered distributed gate removed).1
      (stray s c (.remove id answered distributed gate removed)) (!answered) := by
  unfold remove
  cases found : getRow c id with
  | error _ => exact .kept rfl rfl
  | ok row =>
    simp only []
    cases seen : liveAt (liveNodes c answered) row.endpoint with
    | none =>
      cases answered with
      | false => exact .forgotten row.endpoint rfl (by simp only [stray, found]) (delete_endpoints found) rfl
      | true =>
        refine .unregistered row.endpoint ?_ (delete_endpoints found) rfl
        have absent := liveAt_none.mp seen
        unfold Metadata.places
        rwa [List.map_map]
    | some n =>
      by_cases full : 0 < n.shards
      · simp only [full, if_true]
        exact .kept rfl rfl
      · by_cases last : ((liveNodes c answered).filter (·.endpoint ≠ row.endpoint) = [] && 0 < distributed) = true
        · simp only [full, if_false, last, if_true]
          exact .kept rfl rfl
        · simp only [full, if_false, last]
          cases gate with
          | error _ => exact .kept rfl rfl
          | ok _ =>
            cases removed with
            | error _ => exact .kept rfl rfl
            | ok _ =>
              refine .removed row.endpoint ?_ (delete_endpoints found) removeNode_places
              intro k inside
              obtain ⟨m, hm, pair⟩ := List.mem_map.mp inside
              rw [Prod.mk.injEq] at pair
              have read : n ∈ c.metadata.nodes ∧ n.endpoint = row.endpoint := by
                cases answered with
                | false => cases seen
                | true => exact ⟨List.mem_of_find?_eq_some seen, by simpa using List.find?_some seen⟩
              have same := List.inj_on_of_nodup_map c.metadata.known.endpoints hm read.1 (pair.1.trans read.2.symm)
              rw [← pair.2, same]
              omega

theorem patchShards_effect {row : WorkerRow} {shouldHaveShards : JsValue} {answered : Bool}
    {gate : Except WorkerError Unit} :
    (patchShards c row shouldHaveShards answered gate).1.registry.endpoints = c.registry.endpoints ∧
      (patchShards c row shouldHaveShards answered gate).1.metadata.places = c.metadata.places := by
  unfold patchShards
  split
  · exact ⟨rfl, rfl⟩
  · exact setShards_effect
  · exact ⟨rfl, rfl⟩

theorem update_effect {name shouldHaveShards : JsValue} {answered blind : Bool} {gate : Except WorkerError Unit}
    {lost : Option Endpoint} : Effect c (update c id name shouldHaveShards answered gate).1 lost blind := by
  unfold update
  cases getRow c id with
  | error _ => exact .kept rfl rfl
  | ok row =>
    have placed : (patchShards c row shouldHaveShards answered gate).1.registry.endpoints = c.registry.endpoints ∧
        (patchShards c row shouldHaveShards answered gate).1.metadata.places = c.metadata.places := patchShards_effect
    simp only []
    split
    · exact .kept rfl rfl
    · split
      · exact .kept placed.1 placed.2
      · exact .kept (rename_effect.1.trans placed.1) (rename_effect.2.trans placed.2)
      · by_cases absent : shouldHaveShards = .undefined
        · rw [if_pos absent]
          exact .kept rfl rfl
        · rw [if_neg absent]
          exact .kept placed.1 placed.2

theorem step_effect (own : ev.foreign = false) : Effect c (step s c ev) (stray s c ev) ev.blind := by
  cases ev with
  | add input gate citus => exact add_effect
  | update id name shouldHaveShards answered gate => exact update_effect
  | placeShards id value answered gate => exact placeShards_effect
  | remove id answered distributed gate removed => exact remove_effect
  | sync gate reading =>
    cases gate with
    | error _ => exact .kept rfl rfl
    | ok _ =>
      refine .synced (fun e inside => ?_) rfl
      obtain ⟨extra, same, _⟩ := sync_eq c.registry.keyed reading.known
      obtain ⟨w, hw, rfl⟩ := List.mem_map.mp inside
      change w.endpoint ∈ (sync c.registry.rows reading.nodes).rows.map WorkerRow.endpoint
      rw [same, ← (reconcile_keys w).2.2]
      exact List.mem_map_of_mem (List.mem_append_left _ (List.mem_map_of_mem hw))
  | moved _ | attached _ | detached _ | changed _ => cases own

theorem change_endpoints (f : Node → Bool × Bool × ℕ) :
    (m.change f).places.map Prod.fst = m.places.map Prod.fst := by
  unfold Metadata.places Metadata.change
  rw [List.map_map, List.map_map, List.map_map]
  rfl

theorem mem_unknown : e ∈ unknown c ↔ e ∈ c.metadata.places.map Prod.fst ∧ e ∉ c.registry.endpoints := Iff.rfl

theorem grown_places {p q : List (Endpoint × ℕ)} {d : Endpoint} {k : ℕ} (grown : q = p ∨ q = p ++ [(d, k)])
    (inside : e ∈ q.map Prod.fst) : e ∈ p.map Prod.fst ∨ e = d := by
  rcases grown with rfl | rfl
  · exact .inl inside
  · rwa [List.map_append, List.mem_append, List.map_singleton, List.mem_singleton] at inside

theorem step_unknown : unknown (step s c ev) ⊆ unknown c ∪ {e | stray s c ev = some e} := by
  intro e lost
  rw [mem_unknown] at lost
  change e ∈ unknown c ∨ stray s c ev = some e
  rw [mem_unknown]
  by_cases foreign : ev.foreign = false
  · cases step_effect (s := s) (c := c) foreign with
    | kept rows nodes => exact .inl ⟨nodes ▸ lost.1, rows ▸ lost.2⟩
    | registered d rows nodes =>
      rw [rows, List.mem_append, List.mem_singleton, not_or] at lost
      exact .inl ⟨(grown_places nodes lost.1).resolve_right lost.2.2, lost.2.1⟩
    | strayed d own rows nodes =>
      rcases grown_places nodes lost.1 with old | rfl
      · exact .inl ⟨old, rows ▸ lost.2⟩
      · exact .inr own
    | unregistered d absent rows nodes =>
      rw [rows, nodes] at lost
      have other : e ≠ d := fun same => absent (same ▸ lost.1)
      exact .inl ⟨lost.1, fun inside => lost.2 (List.mem_filter.mpr ⟨inside, by simpa using other⟩)⟩
    | forgotten d _ own rows nodes =>
      rw [rows, nodes] at lost
      by_cases same : e = d
      · exact .inr (same ▸ own)
      · exact .inl ⟨lost.1, fun inside => lost.2 (List.mem_filter.mpr ⟨inside, by simpa using same⟩)⟩
    | removed d _ rows nodes =>
      rw [rows, nodes] at lost
      obtain ⟨place, hplace, rfl⟩ := List.mem_map.mp lost.1
      have kept := List.mem_filter.mp hplace
      exact .inl ⟨List.mem_map_of_mem kept.1, fun inside => lost.2 (List.mem_filter.mpr ⟨inside, kept.2⟩)⟩
    | synced rows nodes => exact .inl ⟨nodes ▸ lost.1, fun inside => lost.2 (rows e inside)⟩
  · cases ev with
    | add _ _ _ | update _ _ _ _ _ | placeShards _ _ _ _ | remove _ _ _ _ _ | sync _ _ => exact absurd rfl foreign
    | attached n =>
      rcases grown_places (addNode_places n) lost.1 with old | rfl
      · exact .inl ⟨old, lost.2⟩
      · exact .inr rfl
    | detached d =>
      obtain ⟨place, hplace, rfl⟩ := List.mem_map.mp lost.1
      change place ∈ (c.metadata.removeNode d).places at hplace
      rw [removeNode_places] at hplace
      exact .inl ⟨List.mem_map_of_mem (List.mem_of_mem_filter hplace), lost.2⟩
    | moved shards => exact .inl ⟨change_endpoints _ ▸ lost.1, lost.2⟩
    | changed f => exact .inl ⟨change_endpoints f ▸ lost.1, lost.2⟩

/-- After any run, the nodes of Citus without a row are among those that had none before it and the endpoints that its
events left behind: of additions that failed when Citus had the node already, of removals that could not read the
nodes, and of nodes added past the service. -/
theorem unknown_strays (s : Settings) (c : Cluster) (es : List Event) :
    unknown (run s c es) ⊆ unknown c ∪ {e | e ∈ strays s c es} := by
  induction es generalizing c with
  | nil => exact Set.subset_union_left
  | cons ev es ih =>
    intro e lost
    rcases ih (step s c ev) lost with before | later
    · rcases step_unknown before with old | own
      · exact .inl old
      · exact .inr (List.mem_append_left _ (Option.mem_toList.mpr own))
    · exact .inr (List.mem_append_right _ later)

theorem step_holds (spares : ev.spares e = true) (present : e ∈ c.metadata.places.map Prod.fst)
    (full : (e, 0) ∉ c.metadata.places) :
    e ∈ (step s c ev).metadata.places.map Prod.fst ∧
      (e ∈ c.registry.endpoints → e ∈ (step s c ev).registry.endpoints) := by
  have grown {p q : List (Endpoint × ℕ)} {x : Endpoint × ℕ} (wide : q = p ∨ q = p ++ [x]) (inside : e ∈ p.map Prod.fst) :
      e ∈ q.map Prod.fst := by
    rcases wide with rfl | rfl
    · exact inside
    · rw [List.map_append]
      exact List.mem_append_left _ inside
  have others {d : Endpoint} (other : e ≠ d) {l : List Endpoint} (inside : e ∈ l) : e ∈ l.filter (· ≠ d) :=
    List.mem_filter.mpr ⟨inside, by simpa using other⟩
  have placed {d : Endpoint} (other : e ≠ d) {p : List (Endpoint × ℕ)} (inside : e ∈ p.map Prod.fst) :
      e ∈ (p.filter (·.1 ≠ d)).map Prod.fst := by
    obtain ⟨place, hplace, rfl⟩ := List.mem_map.mp inside
    exact List.mem_map_of_mem (List.mem_filter.mpr ⟨hplace, by simpa using other⟩)
  by_cases foreign : ev.foreign = false
  · cases step_effect (s := s) (c := c) foreign with
    | kept rows nodes => exact ⟨nodes ▸ present, fun inside => rows ▸ inside⟩
    | registered d rows nodes => exact ⟨grown nodes present, fun inside => rows ▸ List.mem_append_left _ inside⟩
    | strayed d _ rows nodes => exact ⟨grown nodes present, fun inside => rows ▸ inside⟩
    | unregistered d absent rows nodes =>
      exact ⟨nodes ▸ present, fun inside => rows ▸ others (d := d) (fun same => absent (same ▸ present)) inside⟩
    | forgotten d unread _ _ _ =>
      cases ev with
      | remove id answered distributed gate removed =>
        change answered = true at spares
        subst spares
        cases unread
      | _ => cases unread
    | removed d empty rows nodes =>
      have other : e ≠ d := by
        rintro rfl
        obtain ⟨⟨_, k⟩, holds, rfl⟩ := List.mem_map.mp present
        exact full (empty k holds ▸ holds)
      exact ⟨nodes ▸ placed other present, fun inside => rows ▸ others other inside⟩
    | synced rows nodes => exact ⟨nodes ▸ present, rows e⟩
  · cases ev with
    | add _ _ _ | update _ _ _ _ _ | placeShards _ _ _ _ | remove _ _ _ _ _ | sync _ _ => exact absurd rfl foreign
    | moved shards => exact ⟨(change_endpoints _).symm ▸ present, id⟩
    | changed f => exact ⟨(change_endpoints f).symm ▸ present, id⟩
    | attached n => exact ⟨grown (addNode_places n) present, id⟩
    | detached d =>
      have other : e ≠ d := Ne.symm (of_decide_eq_true spares)
      refine ⟨?_, id⟩
      change e ∈ (c.metadata.removeNode d).places.map Prod.fst
      rw [removeNode_places]
      exact placed other present

/-- A registered node that never holds no shards is neither taken from Citus nor loses its row, in whatever order the
service's requests and the moves of drains and rebalances come, unless a removal cannot read the nodes or the node is
taken away past the service. -/
theorem holders_kept (s : Settings) (c : Cluster) (es : List Event) (e : Endpoint)
    (spares : ∀ ev ∈ es, ev.spares e = true) (never : ∀ pre, pre <+: es → (e, 0) ∉ (run s c pre).metadata.places)
    (present : e ∈ c.metadata.places.map Prod.fst) (registered : e ∈ c.registry.endpoints) :
    e ∈ (run s c es).metadata.places.map Prod.fst ∧ e ∈ (run s c es).registry.endpoints := by
  induction es generalizing c with
  | nil => exact ⟨present, registered⟩
  | cons ev es ih =>
    have kept := step_holds (s := s) (spares ev List.mem_cons_self) present (never [] (List.nil_prefix ..))
    exact ih (step s c ev) (fun ev hev => spares ev (List.mem_cons_of_mem _ hev))
      (fun pre part => never (ev :: pre) (List.cons_prefix_cons.mpr ⟨rfl, part⟩)) kept.1 (kept.2 registered)

def twoWorkers : Cluster where
  registry := ⟨[⟨1, "first", "db1", 5432, .active, true, some 1⟩, ⟨2, "second", "db2", 5432, .active, true, some 2⟩],
    by decide⟩
  metadata := ⟨[⟨1, "db1", 5432, true, true, 3⟩, ⟨2, "db2", 5432, true, true, 1⟩], by decide⟩

/-- Both are drained, but the shards of the second have all moved to the first when both are to be removed. -/
def drains : List Event :=
  [.placeShards 1 false true (.ok ()), .placeShards 2 false true (.ok ()),
    .moved fun n => if n.endpoint = ("db2", 5432) then 0 else 4, .remove 1 true 4 (.ok ()) (.ok ()),
    .remove 2 true 4 (.ok ()) (.ok ()), .sync (.ok ()) ⟨[], by decide⟩]

theorem holders_kept_first :
    ("db1", 5432) ∈ (run ⟨false, none⟩ twoWorkers drains).metadata.places.map Prod.fst ∧
      ("db1", 5432) ∈ (run ⟨false, none⟩ twoWorkers drains).registry.endpoints := by
  have never : ∀ pre ∈ drains.inits, (("db1", 5432), 0) ∉ (run ⟨false, none⟩ twoWorkers pre).metadata.places := by
    decide +kernel
  exact holders_kept _ _ _ _ (by simp [drains, Event.spares]) (fun pre part => never pre ((List.mem_inits ..).mpr part))
    (by decide) (by decide)

end DataFabric.WorkerRegistries
