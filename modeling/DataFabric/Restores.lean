import DataFabric.ExceptRules
import DataFabric.FullCopies
import Mathlib.Data.List.Pairwise

set_option autoImplicit false

/-!
# Restoring a source from its replica

A restore is a run of the job with both ends exchanged. It keeps its watermarks and log positions
under the id of the job, as the forward runs do.
-/
namespace DataFabric.Restores
open CharText CursorPages FullCopies ReplicaTables

inductive Strategy | FULL | INCREMENTAL | CDC
deriving DecidableEq

def destKindOf (engine : String) : Option DestKind :=
  let e := upperCase engine
  if e ∈ ["POSTGRES", "POSTGRESQL"] then some .pg
  else if e = "MYSQL" then some .mysql
  else if e ∈ ["ORACLE", "ORACLEDB"] then some .oracle
  else if e ∈ ["MONGODB", "MONGO"] then some .mongo
  else if e ∈ ["ELASTICSEARCH", "ELASTIC", "ES"] then some .es
  else if e = "SNOWFLAKE" then some .snowflake
  else none

structure Job where
  strategy : Strategy
  /-- `dest_schema`, absent or empty without one. -/
  destSchema : Option String
  /-- `initial_load` is `NONE`. -/
  initialNone : Bool

/-- Where a run writes the tables of a schema of its reader. -/
def targetSchema (job : Job) (multiSchema : Bool) (schema : String) : String :=
  match job.destSchema with
  | none => schema
  | some dest => if multiSchema || dest = "" then schema else dest

/-- `toLowerCase`, exact for the characters that become ASCII letters. -/
def lowerChar (c : Char) : List Char :=
  if c.toNat = 0x212A then ['k'] else if c.toNat = 0x130 then ['i', Char.ofNat 0x307] else [c.toLower]

def esIndex (schema table : String) : String :=
  let lower := (schema ++ "_" ++ table).toList.flatMap lowerChar
  let plain := lower.flatMap fun c =>
    if c.isLower || c.isDigit || c == '_' then [c] else if c.toNat < 0x10000 then ['_'] else ['_', '_']
  String.ofList (plain.dropWhile (· == '_'))

def wmKey (kind : DestKind) (schema table : String) : String :=
  match kind with
  | .pg | .snowflake => table
  | .mysql | .mongo => schema ++ "." ++ table
  | .oracle => "ORACLE:" ++ schema ++ "." ++ table
  | .es => esIndex schema table

def kindName : DestKind → String
  | .pg => "PG"
  | .mysql => "MYSQL"
  | .oracle => "ORACLE"
  | .mongo => "MONGO"
  | .es => "ES"
  | .snowflake => "SNOWFLAKE"

def posKey (kind : DestKind) (schema table : String) : String :=
  "cdcpos:" ++ kindName kind ++ ":" ++ match kind with
    | .es => esIndex schema table
    | _ => table

def stripChar (c : Char) (s : String) : String := keepOnly (· ≠ c) s

/-- The table a run writes, as its engine names it; the statements drop quoting characters. -/
def landing (byCdc : Bool) (kind : DestKind) (schema table : String) : List String :=
  match kind with
  | .pg | .snowflake => [stripChar '"' schema, stripChar '"' table]
  | .mysql =>
    [if byCdc then stripChar '`' schema
      else String.ofList (schema.toList.flatMap fun c =>
        if isWord c then [c] else if c.toNat < 0x10000 then ['_'] else ['_', '_']),
      stripChar '`' table]
  | .mongo => [schema, table]
  | .oracle => [upperCase (stripChar '"' table)]
  | .es => [esIndex schema table]

def named (kind : DestKind) (schema table : String) : List String :=
  match kind with
  | .oracle | .es => [table]
  | _ => [schema, table]

inductive RunError
  | unsupported
  | noColumns
  | noKey
  | copy (e : CopyError)
deriving DecidableEq

structure Progress (κ : Type*) where
  watermark : String → Option κ
  position : String → Option ℕ

def noProgress {κ : Type*} : Progress κ := ⟨fun _ => none, fun _ => none⟩

/-- What a run of a table does, decided by the job and what is recorded. -/
inductive Course (κ : Type*)
  /-- drop, create and load by `copyTable` and its siblings -/
  | reload
  /-- the first run by CDC: drop, create and load by upserts -/
  | snapshot
  /-- the rows above a watermark -/
  | delta (watermark : κ) (column : String)
  /-- the first incremental run without initial load -/
  | baseline
  /-- the entries above a log position -/
  | drain (position : ℕ)
deriving DecidableEq

section Runs

variable {κ : Type*} [LinearOrder κ] (engines : Engines κ)

/-- `job.cdc_column || analyzeTracking(cols).watermarkCol`, when the table has it. -/
def trackedCol (cols : List Column) (tracked : Option String) : Option String :=
  tracked.filter fun c => cols.any (·.name == c)

def course (job : Job) (forceFull : Bool) (kind : DestKind) (schema table : String)
    (cols : List Column) (tracked : Option String) (progress : Progress κ) :
    Except RunError (Course κ) :=
  if cols = [] ∧ kind ≠ .mongo then .error .noColumns
  else match job.strategy, forceFull with
  | .FULL, _ | .CDC, true | .INCREMENTAL, true => .ok .reload
  | .CDC, false =>
    if pkCols cols = [] then .error .noKey
    else match progress.position (posKey kind schema table) with
    | none => .ok .snapshot
    | some position => .ok (.drain position)
  | .INCREMENTAL, false =>
    match trackedCol cols tracked with
    | none => .ok .reload
    | some c =>
      match progress.watermark (wmKey kind schema table) with
      | some watermark => .ok (.delta watermark c)
      | none => if job.initialNone then .ok .baseline else .ok .reload

def putKeyed (key : Record κ → Option (MergeKey κ)) (dest : List (Record κ)) (r : Record κ) :
    List (Record κ) :=
  match key r with
  | none => dest ++ [r]
  | some k =>
    if dest.any fun s => key s = some k then dest.map fun s => if key s = some k then r else s
    else dest ++ [r]

/-- By what a delta run replaces rows: `pkCols[0] || wmCol`, or as a full run does. -/
def deltaKey (kind : DestKind) (cols : List Column) (column : String) (r : Record κ) :
    Option (MergeKey κ) :=
  match kind with
  | .pg | .snowflake | .oracle =>
    (value cols ((pkCols cols).head?.getD column) r).map fun v => .values [some v]
  | kind => mergeKey engines kind cols r

def refuses (kind : DestKind) (cols : List Column) (column : String) (dest rows : List (Record κ)) :
    Bool :=
  match kind with
  -- `ON CONFLICT (pk)` asks for a unique constraint on exactly that column
  | .pg => rows ≠ [] && (pkCols cols).length ≠ 1
  -- Snowflake has no `ON CONFLICT`
  | .snowflake => rows ≠ []
  -- without a column to update a known key is an error
  | .mysql => cols.all Column.primaryKey && rows.any fun r => dest.any fun s =>
      deltaKey engines .mysql cols column s = deltaKey engines .mysql cols column r
  | _ => false

def upsertDelta (kind : DestKind) (cols : List Column) (column : String)
    (dest rows : List (Record κ)) : Except RunError (List (Record κ)) :=
  if refuses engines kind cols column dest rows then .error (.copy .refused)
  else .ok (rows.foldl (putKeyed (deltaKey engines kind cols column)) dest)

/-- `MERGE` and upserts by the first key column, as Oracle's statement makes them. -/
def changeKind : DestKind → DestKind
  | .pg | .snowflake => .oracle
  | kind => kind

/-- A page of a snapshot; in PostgreSQL the conflict clause needs a key of one column. -/
def onChangeBatch (kind : DestKind) (cols : List Column) (dest rows : List (Record κ)) :
    Option (List (Record κ)) :=
  if kind = .pg ∧ (pkCols cols).length ≠ 1 then none else onBatch engines (changeKind kind) cols dest rows

variable {t : SourceTable κ} {batchSize cap : ℕ+}

def snapshotTable (kind : DestKind) (reader : Reader t batchSize) (maxRows fuel : ℕ) :
    Except CopyError (List (Record κ)) :=
  pagedRead engines reader (pkCols t.columns).head? (onChangeBatch engines kind t.columns) maxRows fuel none 0 0 []

/-- `ORDER BY .. DESC LIMIT 1`, nothing when a NULL comes first. -/
def maxWatermark (nullsFirst : Bool) (column : String) (t : SourceTable κ) : Option κ :=
  if !nullsFirst && t.rows.any fun r => value t.columns column r = none then none
  else (t.rows.filterMap (value t.columns column)).foldl (fun m v => some (m.elim v (max v))) none

structure Answer (t : SourceTable κ) (batchSize cap : ℕ+) where
  pages : Reader t batchSize
  /-- the read of a delta run, at most `cap` rows -/
  deltas : Reader t cap
  /-- the log position -/
  maxSeq : ℕ
  /-- what the entries above a position make of the destination, and the position behind them -/
  drain : ℕ → List (Record κ) → Except RunError (List (Record κ) × ℕ)

structure Target where
  kind : DestKind
  schema : String
  table : String

def deltaRows (deltas : Reader t cap) (c : String) (watermark : κ) : List (Record κ) :=
  (deltas.behind c (some watermark)).map engines.read

/-- One table of a run: what it makes of the destination and of the progress of the job. -/
def runTable (job : Job) (forceFull : Bool) (target : Target) (tracked : Option String)
    (answer : Answer t batchSize cap) (maxRows fuel : ℕ) (progress : Progress κ)
    (dest : List (Record κ)) : Except RunError (List (Record κ) × Progress κ) := do
  let key := wmKey target.kind target.schema target.table
  let record (v : Option κ) : Progress κ :=
    v.elim progress fun v => { progress with watermark := Function.update progress.watermark key v }
  let note (position : ℕ) : Progress κ :=
    { progress with
      position := Function.update progress.position (posKey target.kind target.schema target.table) position }
  let highest (c : String) := maxWatermark answer.pages.nullsFirst c t
  match ← course job forceFull target.kind target.schema target.table t.columns tracked progress with
  | .reload =>
    let rows ← (copyTable engines target.kind answer.pages maxRows fuel).mapError .copy
    .ok (rows, match job.strategy, trackedCol t.columns tracked with
      | .INCREMENTAL, some c => record (highest c)
      | _, _ => progress)
  | .snapshot =>
    let rows ← (snapshotTable engines target.kind answer.pages maxRows fuel).mapError .copy
    .ok (rows, note answer.maxSeq)
  | .delta watermark c =>
    let rows := deltaRows engines answer.deltas c watermark
    let dest ← upsertDelta engines target.kind t.columns c dest rows
    .ok (dest, record ((rows.filterMap (value t.columns c)).foldl (fun m v => some (m.elim v (max v))) none))
  | .baseline => .ok (dest, match trackedCol t.columns tracked with
      | some c => record (highest c)
      | none => progress)
  | .drain position =>
    let (dest, position) ← answer.drain position dest
    .ok (dest, note position)

/-- The table of the job in the original source, and the replica as its connector shows it. -/
structure Restore where
  job : Job
  forceFull : Bool
  engine : String
  homeSchema : String
  homeTable : String
  multiSchema : Bool
  schema : String
  table : String
  tracked : Option String

def Restore.target (s : Restore) (kind : DestKind) : Target :=
  ⟨kind, targetSchema s.job s.multiSchema s.schema, s.table⟩

def Restore.AtHome (s : Restore) (kind : DestKind) : Prop :=
  landing (s.job.strategy = .CDC && !s.forceFull) kind (s.target kind).schema s.table =
    named kind s.homeSchema s.homeTable

instance (s : Restore) (kind : DestKind) : Decidable (s.AtHome kind) := by
  unfold Restore.AtHome
  infer_instance

def Restore.course (s : Restore) (kind : DestKind) (cols : List Column) (progress : Progress κ) :
    Except RunError (Course κ) :=
  Restores.course s.job s.forceFull kind (s.target kind).schema s.table cols s.tracked progress

/-- The restore has just created the outbox of the replica, so nothing is drained. -/
def untouched (pages : Reader t batchSize) (deltas : Reader t cap) (maxSeq : ℕ) :
    Answer t batchSize cap := ⟨pages, deltas, maxSeq, fun position dest => .ok (dest, position)⟩

/-- What a restore leaves of the table of the job: `remains` is what it finds there, `elsewhere`
what it finds where it writes when that is another table. -/
def restoreTable (s : Restore) (answer : Answer t batchSize cap) (maxRows fuel : ℕ)
    (progress : Progress κ) (elsewhere remains : List (Record κ)) :
    Except RunError (List (Record κ)) :=
  match destKindOf s.engine with
  | none => .error .unsupported
  | some kind =>
    (runTable engines s.job s.forceFull (s.target kind) s.tracked answer maxRows fuel progress
      (if s.AtHome kind then remains else elsewhere)).map
      fun out => if s.AtHome kind then out.1 else remains

/-- Whatever rows the source has lost since it equalled the replica, the restore ends without an
error and the source holds every row of the replica. -/
def Recovers (s : Restore) (answer : Answer t batchSize cap) (maxRows fuel : ℕ)
    (progress : Progress κ) (elsewhere : List (Record κ)) : Prop :=
  ∀ remains : List (Record κ), remains.Subperm t.rows → ∃ after,
    restoreTable engines s answer maxRows fuel progress elsewhere remains = .ok after ∧
      t.rows.Subperm after

def UncutBy (pages : Reader t batchSize) (column : Option String) : Prop :=
  ∀ c ∈ column, Uncut batchSize (sortedKeys (value t.columns c) pages.nullsFirst t.rows)

/-- A delta run reads every row as it is and its statements are accepted. -/
structure DeltaWhole (t : SourceTable κ) (cap : ℕ+) (kind : DestKind) (watermark : κ) (column : String) :
    Prop where
  exact : Exact engines t
  above : ∀ r ∈ t.rows, above (value t.columns column) (some watermark) r = true
  below_cap : t.rows.length ≤ cap
  unmerged : (t.rows.filterMap (deltaKey engines kind t.columns column)).Nodup
  accepted : t.rows ≠ [] → kind ≠ .snowflake ∧ (kind = .pg → (pkCols t.columns).length = 1) ∧
    (kind = .mysql → t.columns.all Column.primaryKey = false)

def Brings (pages : Reader t batchSize) (cap : ℕ+) (kind : DestKind) : Course κ → Prop
  | .reload => Exact engines t ∧ UncutBy pages (pagingCol kind t.columns) ∧ Unmerged engines kind t
  | .snapshot => Exact engines t ∧ UncutBy pages (pkCols t.columns).head? ∧ Unmerged engines (changeKind kind) t ∧
      (t.rows ≠ [] → kind = .pg → (pkCols t.columns).length = 1)
  | .delta watermark column => DeltaWhole engines t cap kind watermark column
  | .baseline | .drain _ => t.rows = []

def Recoverable (s : Restore) (pages : Reader t batchSize) (cap : ℕ+) (progress : Progress κ) : Prop :=
  ∃ kind c, destKindOf s.engine = some kind ∧ s.course kind t.columns progress = .ok c ∧
    if s.AtHome kind then Brings engines pages cap kind c else t.rows = []

end Runs

section Keyed

variable {κ : Type*} [LinearOrder κ] {key : Record κ → Option (MergeKey κ)}
variable {dest rows all : List (Record κ)}

theorem putKeyed_length_le (r : Record κ) : (putKeyed key dest r).length ≤ dest.length + 1 := by
  unfold putKeyed
  split
  · simp
  · split <;> simp

theorem foldl_putKeyed_length_le : (rows.foldl (putKeyed key) dest).length ≤ dest.length + rows.length := by
  induction rows generalizing dest with
  | nil => exact le_rfl
  | cons r rows ih =>
    have hstep := @putKeyed_length_le _ _ key dest r
    have hrest := @ih (putKeyed key dest r)
    rw [List.foldl_cons, List.length_cons]
    omega

theorem putKeyed_grown {r : Record κ} (h : dest.length < (putKeyed key dest r).length) :
    putKeyed key dest r = dest ++ [r] ∧ ∀ k, key r = some k → k ∉ dest.filterMap key := by
  unfold putKeyed at h ⊢
  cases hk : key r with
  | none => exact ⟨rfl, fun k hk' => by cases hk'⟩
  | some k =>
    simp only [hk] at h ⊢
    by_cases hany : (dest.any fun s => decide (key s = some k)) = true
    · rw [if_pos hany, List.length_map] at h
      omega
    · rw [if_neg hany]
      refine ⟨rfl, fun k' hk' hmem => hany ?_⟩
      obtain ⟨s, hs, hsame⟩ := List.mem_filterMap.mp hmem
      exact List.any_eq_true.mpr ⟨s, hs, decide_eq_true (hsame.trans hk'.symm)⟩

theorem nodup_of_grown (hdest : (dest.filterMap key).Nodup)
    (hlength : (rows.foldl (putKeyed key) dest).length = dest.length + rows.length) :
    ((dest ++ rows).filterMap key).Nodup := by
  induction rows generalizing dest with
  | nil => rwa [List.append_nil]
  | cons r rows ih =>
    rw [List.foldl_cons, List.length_cons] at hlength
    have hrest := @foldl_putKeyed_length_le _ _ key (putKeyed key dest r) rows
    obtain ⟨hput, hnew⟩ := @putKeyed_grown _ _ key dest r (by omega)
    rw [hput] at hlength
    rw [← List.singleton_append, ← List.append_assoc]
    refine ih ?_ (by rw [hlength, List.length_append, List.length_singleton]; omega)
    rw [List.filterMap_append, List.nodup_append]
    refine ⟨hdest, ?_, fun a ha b hb heq => ?_⟩
    · cases hk : key r <;> simp [hk]
    · obtain ⟨s, hs, hk⟩ := List.mem_filterMap.mp hb
      rw [List.mem_singleton.mp hs] at hk
      exact hnew b hk (heq ▸ ha)

def adds (key : Record κ → Option (MergeKey κ)) (dest : List (Record κ)) (r : Record κ) : Bool :=
  decide (key r = none ∨ r ∉ dest)

theorem foldl_putKeyed (hnodup : (rows.filterMap key).Nodup)
    (hsame : ∀ r ∈ rows, ∀ s ∈ dest, ∀ k, key r = some k → key s = some k → s = r) :
    rows.foldl (putKeyed key) dest = dest ++ rows.filter (adds key dest) := by
  induction rows generalizing dest with
  | nil => simp
  | cons r rows ih =>
    have hrest : (rows.filterMap key).Nodup := by
      cases hk : key r with
      | none => rwa [List.filterMap_cons_none hk] at hnodup
      | some k =>
        rw [List.filterMap_cons_some hk] at hnodup
        exact hnodup.of_cons
    -- a later row with a key is not the row just added
    have hother : ∀ x ∈ rows, ∀ k, key x = some k → x ≠ r := by
      rintro x hx k hk rfl
      rw [List.filterMap_cons_some hk, List.nodup_cons] at hnodup
      exact hnodup.1 (List.mem_filterMap.mpr ⟨x, hx, hk⟩)
    have hadded : putKeyed key dest r = dest ++ [r] → (key r = none ∨ r ∉ dest) →
        (r :: rows).foldl (putKeyed key) dest = dest ++ (r :: rows).filter (adds key dest) := by
      intro hput hpass
      have hfilter : rows.filter (adds key (dest ++ [r])) = rows.filter (adds key dest) := by
        refine List.filter_congr fun x hx => ?_
        unfold adds
        rw [decide_eq_decide]
        cases hk : key x with
        | none => simp
        | some k => simp [hother x hx k hk]
      have hadds : adds key dest r = true := decide_eq_true hpass
      rw [List.foldl_cons, hput, ih hrest, hfilter, List.filter_cons_of_pos hadds]
      · simp
      · intro x hx s hs k hxk hsk
        rcases List.mem_append.mp hs with hs | hs
        · exact hsame x (List.mem_cons_of_mem r hx) s hs k hxk hsk
        · rw [List.mem_singleton] at hs
          subst hs
          rw [List.filterMap_cons_some hsk, List.nodup_cons] at hnodup
          exact absurd (List.mem_filterMap.mpr ⟨x, hx, hxk⟩) hnodup.1
    cases hk : key r with
    | none =>
      refine hadded ?_ (.inl hk)
      unfold putKeyed
      rw [hk]
    | some k =>
      by_cases hany : (dest.any fun s => decide (key s = some k)) = true
      · obtain ⟨s, hs, hsk⟩ := List.any_eq_true.mp hany
        have hrs : s = r := hsame r List.mem_cons_self s hs k hk (of_decide_eq_true hsk)
        have hput : putKeyed key dest r = dest := by
          unfold putKeyed
          simp only [hk]
          rw [if_pos hany]
          refine (List.map_congr_left fun x hx => ?_).trans (List.map_id dest)
          by_cases hxk : key x = some k
          · rw [if_pos hxk]
            exact (hsame r List.mem_cons_self x hx k hk hxk).symm
          · exact if_neg hxk
        rw [List.foldl_cons, hput, ih hrest fun x hx => hsame x (List.mem_cons_of_mem r hx),
          List.filter_cons_of_neg]
        simp [adds, hk, hrs ▸ hs]
      · refine hadded ?_ (.inr fun hr => hany (List.any_eq_true.mpr ⟨r, hr, decide_eq_true hk⟩))
        unfold putKeyed
        simp only [hk]
        rw [if_neg hany]

theorem subperm_putKeyed (hnodup : (all.filterMap key).Nodup) (hdest : dest.Subperm all)
    (hrows : rows.Perm all) : all.Subperm (rows.foldl (putKeyed key) dest) := by
  have hkeys : ∀ r ∈ all, ∀ s ∈ all, ∀ k, key r = some k → key s = some k → s = r := by
    intro r hr s hs k hrk hsk
    by_contra hne
    have hpairs := List.pairwise_filterMap.mp hnodup
    have hsymm : Std.Symm fun a b : Record κ => ∀ x, key a = some x → ∀ y, key b = some y → x ≠ y :=
      ⟨fun a b h x hx y hy heq => h y hy x hx heq.symm⟩
    exact hpairs.forall hs hr hne k hsk k hrk rfl
  rw [foldl_putKeyed ((hrows.filterMap key).nodup_iff.mpr hnodup) fun r hr s hs k =>
    hkeys r (hrows.subset hr) s (hdest.subset hs) k]
  rw [List.subperm_ext_iff]
  intro x hx
  rw [List.count_append]
  by_cases hadds : adds key dest x = true
  · rw [List.count_filter hadds, hrows.count_eq]
    omega
  · unfold adds at hadds
    rw [decide_eq_true_eq, not_or, not_not] at hadds
    obtain ⟨k, hk⟩ := Option.ne_none_iff_exists'.mp hadds.1
    have hone : all.count x ≤ 1 := by
      by_contra hmore
      have hsub := (List.replicate_sublist_iff.mpr (not_le.mp hmore)).filterMap key
      have hboth : (List.replicate 2 x).filterMap key = [k, k] := by simp [List.replicate, hk]
      exact absurd (hnodup.sublist (hboth ▸ hsub)) (by simp)
    have hpos := List.count_pos_iff.mpr hadds.2
    omega

end Keyed

section Courses

variable {κ : Type*} [LinearOrder κ] {engines : Engines κ} {t : SourceTable κ}
variable {batchSize cap : ℕ+} {kind : DestKind} {column : String} {watermark : κ}

theorem behind_parts (deltas : Reader t cap) (column : String) (watermark : κ) :
    ∃ l : List (Record κ), l.Perm (t.rows.filter (above (value t.columns column) (some watermark))) ∧
      deltas.behind column (some watermark) = l.take cap := by
  obtain ⟨l, hl, -, hread⟩ := deltas.behind_answers column (some watermark)
  exact ⟨l, hl, hread⟩

theorem putKeyed_fixed {key : Record κ → Option (MergeKey κ)} {dest : List (Record κ)} {r : Record κ}
    (hdest : ∀ s ∈ dest, engines.read s = s) (hr : engines.read r = r) :
    ∀ s ∈ putKeyed key dest r, engines.read s = s := by
  unfold putKeyed
  split
  · exact fixed_append hdest hr
  · split
    · exact fixed_replace hdest hr
    · exact fixed_append hdest hr

theorem foldl_putKeyed_fixed {key : Record κ → Option (MergeKey κ)} {dest rows : List (Record κ)}
    (hdest : ∀ s ∈ dest, engines.read s = s) (hrows : ∀ r ∈ rows, engines.read r = r) :
    ∀ s ∈ rows.foldl (putKeyed key) dest, engines.read s = s := by
  induction rows generalizing dest with
  | nil => exact hdest
  | cons r rows ih =>
    rw [List.foldl_cons]
    exact ih (putKeyed_fixed hdest (hrows r List.mem_cons_self)) fun s hs => hrows s (List.mem_cons_of_mem r hs)

theorem deltaRows_exact (hexact : Exact engines t) (deltas : Reader t cap) :
    deltaRows engines deltas column watermark = deltas.behind column (some watermark) := by
  change (fetch deltas (some column) (some watermark) 0).map engines.read = _
  exact fetch_exact hexact _

theorem delta_iff (deltas : Reader t cap) :
    (∀ remains : List (Record κ), remains.Subperm t.rows → ∃ after,
      upsertDelta engines kind t.columns column remains (deltaRows engines deltas column watermark) =
        .ok after ∧ t.rows.Subperm after) ↔ DeltaWhole engines t cap kind watermark column := by
  obtain ⟨l, hl, hread⟩ := behind_parts deltas column watermark
  have hok : ∀ {remains rows after : List (Record κ)},
      upsertDelta engines kind t.columns column remains rows = .ok after ↔
        refuses engines kind t.columns column remains rows = false ∧
          rows.foldl (putKeyed (deltaKey engines kind t.columns column)) remains = after := by
    intro remains rows after
    unfold upsertDelta
    by_cases hrefuses : refuses engines kind t.columns column remains rows = true <;> simp [hrefuses]
  constructor
  · intro h
    obtain ⟨after, hafter, hsub⟩ := h [] List.nil_subperm
    obtain ⟨hrefuses, hfold⟩ := hok.mp hafter
    have hexact : Exact engines t := by
      intro r hr
      have hmem := hsub.subset hr
      rw [← hfold] at hmem
      refine foldl_putKeyed_fixed (fun s hs => absurd hs List.not_mem_nil) (fun s hs => ?_) r hmem
      obtain ⟨x, -, rfl⟩ := List.mem_map.mp hs
      exact engines.read_again x
    rw [deltaRows_exact hexact, hread] at h hrefuses hfold
    have hgrown := @foldl_putKeyed_length_le _ _ (deltaKey engines kind t.columns column) [] (l.take cap)
    rw [hfold, List.length_nil, Nat.zero_add] at hgrown
    have hpart : (l.take cap).Subperm t.rows :=
      ((List.take_sublist cap l).subperm.trans hl.subperm).trans List.filter_sublist.subperm
    have hlength := hsub.length_le
    have hall : (l.take cap).Perm t.rows := hpart.perm_of_length_le (hlength.trans hgrown)
    have hnonempty : t.rows ≠ [] → l.take cap ≠ [] := fun hne hnil => hne (List.nil_perm.mp (hnil ▸ hall))
    refine ⟨hexact, fun r hr => ?_, ?_, ?_, fun hne => ⟨?_, ?_, ?_⟩⟩
    · exact (List.mem_filter.mp (hl.subset (List.mem_of_mem_take (hall.symm.subset hr)))).2
    · rw [← hall.length_eq, List.length_take]
      exact min_le_left _ _
    · refine (hall.filterMap _).nodup_iff.mp ?_
      refine @nodup_of_grown _ _ _ [] _ List.nodup_nil ?_
      rw [hfold, List.length_nil, Nat.zero_add]
      have := hall.length_eq
      omega
    · rintro rfl
      simp [refuses, hnonempty hne] at hrefuses
    · rintro rfl
      simpa [refuses, hnonempty hne] using hrefuses
    · rintro rfl
      obtain ⟨after', hafter', -⟩ := h t.rows (List.Subperm.refl _)
      obtain ⟨hrefuses', -⟩ := hok.mp hafter'
      obtain ⟨r, hr⟩ := List.exists_mem_of_ne_nil _ (hnonempty hne)
      by_contra hbare
      rw [Bool.not_eq_false] at hbare
      refine Bool.eq_false_iff.mp hrefuses' ?_
      unfold refuses
      rw [Bool.and_eq_true, List.any_eq_true]
      refine ⟨hbare, r, hr, List.any_eq_true.mpr ⟨r, hall.subset hr, decide_eq_true rfl⟩⟩
  · intro h remains hremains
    rw [deltaRows_exact h.exact, hread]
    have hfilter : t.rows.filter (above (value t.columns column) (some watermark)) = t.rows :=
      List.filter_eq_self.mpr h.above
    rw [hfilter] at hl
    have htake : l.take cap = l := List.take_of_length_le (hl.length_eq.trans_le h.below_cap)
    rw [htake]
    refine ⟨_, hok.mpr ⟨?_, rfl⟩, subperm_putKeyed h.unmerged hremains hl⟩
    by_cases hne : t.rows = []
    · have hnil : l = [] := List.perm_nil.mp (hne ▸ hl)
      subst hnil
      cases kind <;> simp [refuses]
    · obtain ⟨hsnowflake, hpg, hmysql⟩ := h.accepted hne
      cases kind with
      | pg => simp [refuses, hpg rfl]
      | snowflake => exact absurd rfl hsnowflake
      | mysql => simp only [refuses, hmysql rfl, Bool.false_and]
      | oracle => rfl
      | mongo => rfl
      | es => rfl

omit [LinearOrder κ] in
theorem pagingCol_changeKind (hkey : pkCols t.columns ≠ []) :
    pagingCol (changeKind kind) t.columns = (pkCols t.columns).head? := by
  obtain ⟨c, hc⟩ := Option.ne_none_iff_exists'.mp fun h => hkey (List.head?_eq_none_iff.mp h)
  cases kind with
  | es =>
    change keyCol t.columns = _
    unfold keyCol
    rw [hc]
    rfl
  | pg => rfl
  | mysql => rfl
  | oracle => rfl
  | mongo => rfl
  | snowflake => rfl

theorem firstPage_nil_iff (pages : Reader t batchSize) (c : String) :
    pages.behind c none = [] ↔ t.rows = [] := by
  obtain ⟨l, hl, -, hread⟩ := pages.behind_answers c none
  rw [filter_above_none] at hl
  have hpos : 0 < (batchSize : ℕ) := batchSize.2
  rw [hread, List.take_eq_nil_iff, or_iff_right (ne_of_gt hpos)]
  exact ⟨fun h => List.nil_perm.mp (h ▸ hl), fun h => List.perm_nil.mp (h ▸ hl)⟩

theorem snapshot_iff (hkey : pkCols t.columns ≠ []) (pages : Reader t batchSize) {maxRows fuel : ℕ}
    (hcap : t.rows.length < maxRows) (hfuel : t.rows.length < fuel) :
    (∃ dest, snapshotTable engines kind pages maxRows fuel = .ok dest ∧ t.rows.Subperm dest) ↔
      Exact engines t ∧ UncutBy pages (pkCols t.columns).head? ∧ Unmerged engines (changeKind kind) t ∧
        (t.rows ≠ [] → kind = .pg → (pkCols t.columns).length = 1) := by
  by_cases hrefused : kind = .pg ∧ (pkCols t.columns).length ≠ 1
  · obtain ⟨n, hn⟩ : ∃ n, fuel = n + 1 := ⟨fuel - 1, by omega⟩
    obtain ⟨c, hc⟩ := Option.ne_none_iff_exists'.mp fun h => hkey (List.head?_eq_none_iff.mp h)
    have hbatch : ∀ dest rows, onChangeBatch engines kind t.columns dest rows = none :=
      fun _ _ => if_pos hrefused
    unfold snapshotTable
    rw [hn, hc]
    simp only [pagedRead, fetch, hbatch]
    by_cases hempty : t.rows = []
    · rw [(firstPage_nil_iff pages c).mpr hempty]
      refine iff_of_true ⟨[], rfl, hempty ▸ List.nil_subperm⟩
        ⟨fun r hr => absurd (hempty ▸ hr) List.not_mem_nil, fun c' _ => ?_, ?_, fun hne => absurd hempty hne⟩
      · refine uncut_short ?_
        rw [length_sortedKeys, hempty]
        exact batchSize.2
      · unfold Unmerged
        rw [hempty]
        exact List.nodup_nil
    · have hpage := mt (firstPage_nil_iff pages c).mp hempty
      refine iff_of_false ?_ fun h => hrefused.2 (h.2.2.2 hempty hrefused.1)
      rintro ⟨dest, hdest, -⟩
      cases hlast : ((pages.behind c none).map engines.read).getLast? with
      | none => exact hpage (List.map_eq_nil_iff.mp (List.getLast?_eq_none_iff.mp hlast))
      | some last =>
        rw [hlast] at hdest
        cases hdest
  · have hbatch : onChangeBatch engines kind t.columns = onBatch engines (changeKind kind) t.columns := by
      funext dest rows
      exact if_neg hrefused
    have hsame : snapshotTable engines kind pages maxRows fuel =
        copyTable engines (changeKind kind) pages maxRows fuel := by
      unfold snapshotTable copyTable
      rw [hbatch, pagingCol_changeKind hkey]
    rw [hsame, holds_iff engines (changeKind kind) pages maxRows fuel hcap hfuel, pagingCol_changeKind hkey,
      ← and_assoc, ← and_assoc, ← and_assoc]
    refine (and_iff_left fun _ hpg => ?_).symm
    by_contra hlength
    exact hrefused ⟨hpg, hlength⟩

variable {maxRows fuel : ℕ} {progress : Progress κ} {pages : Reader t batchSize} {deltas : Reader t cap}

def follow (engines : Engines κ) (kind : DestKind) (answer : Answer t batchSize cap)
    (maxRows fuel : ℕ) (dest : List (Record κ)) : Course κ → Except RunError (List (Record κ))
  | .reload => (copyTable engines kind answer.pages maxRows fuel).mapError .copy
  | .snapshot => (snapshotTable engines kind answer.pages maxRows fuel).mapError .copy
  | .delta watermark c =>
    upsertDelta engines kind t.columns c dest (deltaRows engines answer.deltas c watermark)
  | .baseline => .ok dest
  | .drain position => (answer.drain position dest).map Prod.fst

theorem runTable_rows (job : Job) (forceFull : Bool) (target : Target) (tracked : Option String)
    (answer : Answer t batchSize cap) (dest : List (Record κ)) :
    (runTable engines job forceFull target tracked answer maxRows fuel progress dest).map Prod.fst =
      (course job forceFull target.kind target.schema target.table t.columns tracked progress).bind
        (follow engines target.kind answer maxRows fuel dest) := by
  unfold runTable
  cases course job forceFull target.kind target.schema target.table t.columns tracked progress with
  | error e => rfl
  | ok c =>
    cases c with
    | reload =>
      change Except.map Prod.fst (Except.bind ((copyTable engines target.kind answer.pages maxRows fuel).mapError RunError.copy) _) =
        (copyTable engines target.kind answer.pages maxRows fuel).mapError RunError.copy
      cases copyTable engines target.kind answer.pages maxRows fuel <;> rfl
    | snapshot =>
      change Except.map Prod.fst (Except.bind ((snapshotTable engines target.kind answer.pages maxRows fuel).mapError RunError.copy) _) =
        (snapshotTable engines target.kind answer.pages maxRows fuel).mapError RunError.copy
      cases snapshotTable engines target.kind answer.pages maxRows fuel <;> rfl
    | delta watermark c =>
      change Except.map Prod.fst (Except.bind (upsertDelta engines target.kind t.columns c dest _) _) =
        upsertDelta engines target.kind t.columns c dest _
      cases upsertDelta engines target.kind t.columns c dest (deltaRows engines answer.deltas c watermark) <;> rfl
    | baseline => rfl
    | drain position =>
      change Except.map Prod.fst (Except.bind (answer.drain position dest) _) =
        (answer.drain position dest).map Prod.fst
      cases answer.drain position dest <;> rfl

theorem follow_iff (maxSeq : ℕ) (hcap : t.rows.length < maxRows) (hfuel : t.rows.length < fuel)
    (c : Course κ) (hsnapshot : c = .snapshot → pkCols t.columns ≠ []) :
    (∀ remains : List (Record κ), remains.Subperm t.rows → ∃ after,
      follow engines kind (untouched pages deltas maxSeq) maxRows fuel remains c = .ok after ∧
        t.rows.Subperm after) ↔ Brings engines pages cap kind c := by
  have hmap : ∀ {x : Except CopyError (List (Record κ))} {after : List (Record κ)},
      x.mapError RunError.copy = .ok after ↔ x = .ok after := by
    intro x after
    cases x with
    | error e =>
      refine iff_of_false (fun h => ?_) fun h => ?_ <;> cases h
    | ok rows => exact ⟨fun h => congrArg Except.ok (Except.ok.inj h), fun h => congrArg Except.ok (Except.ok.inj h)⟩
  -- what does not look at the table is the same for every remainder
  have hconst : ∀ p : Prop, (∀ remains : List (Record κ), remains.Subperm t.rows → p) ↔ p :=
    fun p => ⟨fun h => h [] List.nil_subperm, fun hp _ _ => hp⟩
  have hkept : (∀ remains : List (Record κ), remains.Subperm t.rows → ∃ after : List (Record κ),
      (.ok remains : Except RunError (List (Record κ))) = .ok after ∧ t.rows.Subperm after) ↔
        t.rows = [] := by
    constructor
    · intro h
      obtain ⟨after, hafter, hsub⟩ := h [] List.nil_subperm
      cases hafter
      exact List.subperm_nil.mp hsub
    · intro hempty remains _
      exact ⟨remains, rfl, hempty ▸ List.nil_subperm⟩
  cases c with
  | reload =>
    refine (hconst _).trans ((exists_congr fun after => and_congr_left fun _ => hmap).trans ?_)
    exact holds_iff engines kind pages maxRows fuel hcap hfuel
  | snapshot =>
    refine (hconst _).trans ((exists_congr fun after => and_congr_left fun _ => hmap).trans ?_)
    exact snapshot_iff (hsnapshot rfl) pages hcap hfuel
  | delta watermark column => exact delta_iff deltas
  | baseline => exact hkept
  | drain position => exact hkept

omit [LinearOrder κ] in
theorem course_snapshot {job : Job} {forceFull : Bool} {schema table : String} {cols : List Column}
    {tracked : Option String}
    (h : course job forceFull kind schema table cols tracked progress = .ok .snapshot) :
    pkCols cols ≠ [] := by
  intro hkey
  unfold course at h
  by_cases hcols : cols = [] ∧ kind ≠ .mongo
  · rw [if_pos hcols] at h
    cases h
  · rw [if_neg hcols] at h
    cases hs : job.strategy <;> cases forceFull <;> simp only [hs] at h
    case INCREMENTAL.false =>
      cases hc : trackedCol cols tracked <;> simp only [hc] at h
      · cases h
      · cases hw : progress.watermark (wmKey kind schema table) <;> simp only [hw] at h
        · cases hn : job.initialNone <;> simp [hn] at h
        · cases h
    case CDC.false =>
      rw [if_pos hkey] at h
      cases h
    all_goals cases h

theorem follow_empty (maxSeq : ℕ) (hempty : t.rows = []) (hcap : t.rows.length < maxRows)
    (hfuel : t.rows.length < fuel) (dest : List (Record κ)) (c : Course κ)
    (hsnapshot : c = .snapshot → pkCols t.columns ≠ []) :
    ∃ after, follow engines kind (untouched pages deltas maxSeq) maxRows fuel dest c = .ok after := by
  have hbrings : Brings engines pages cap kind c → ∃ after,
      follow engines kind (untouched pages deltas maxSeq) maxRows fuel [] c = .ok after := by
    intro h
    obtain ⟨after, hafter, -⟩ := (follow_iff maxSeq hcap hfuel c hsnapshot).mpr h [] List.nil_subperm
    exact ⟨after, hafter⟩
  have hexact : Exact engines t := fun r hr => absurd (hempty ▸ hr) List.not_mem_nil
  have huncut : ∀ column, UncutBy pages column := by
    intro column c _
    refine uncut_short ?_
    rw [length_sortedKeys, hempty]
    exact batchSize.2
  have hunmerged : ∀ kind, Unmerged engines kind t := by
    intro kind
    unfold Unmerged
    rw [hempty]
    exact List.nodup_nil
  cases c with
  | reload => exact hbrings ⟨hexact, huncut _, hunmerged _⟩
  | snapshot => exact hbrings ⟨hexact, huncut _, hunmerged _, fun hne => absurd hempty hne⟩
  | delta watermark column =>
    obtain ⟨l, hl, hread⟩ := behind_parts deltas column watermark
    rw [hempty, List.filter_nil, List.perm_nil] at hl
    rw [hl, List.take_nil] at hread
    refine ⟨dest, ?_⟩
    change upsertDelta engines kind t.columns column dest (deltaRows engines deltas column watermark) = _
    rw [deltaRows_exact hexact, hread]
    cases kind <;> simp [upsertDelta, refuses]
  | baseline => exact ⟨dest, rfl⟩
  | drain position => exact ⟨dest, rfl⟩

end Courses

section Recovery

variable {κ : Type*} [LinearOrder κ] {engines : Engines κ} {t : SourceTable κ}
variable {batchSize cap : ℕ+} {kind : DestKind}

theorem restoreTable_eq (s : Restore) (answer : Answer t batchSize cap) (maxRows fuel : ℕ)
    (progress : Progress κ) (elsewhere remains : List (Record κ))
    (hkind : destKindOf s.engine = some kind) :
    restoreTable engines s answer maxRows fuel progress elsewhere remains =
      ((s.course kind t.columns progress).bind
        (follow engines kind answer maxRows fuel (if s.AtHome kind then remains else elsewhere))).map
          fun rows => if s.AtHome kind then rows else remains := by
  have hrows := @runTable_rows _ _ engines t _ _ maxRows fuel progress s.job s.forceFull (s.target kind)
    s.tracked answer (if s.AtHome kind then remains else elsewhere)
  have hfst : ∀ out : Except RunError (List (Record κ) × Progress κ),
      (out.map fun out => if s.AtHome kind then out.1 else remains) =
        (out.map Prod.fst).map fun rows => if s.AtHome kind then rows else remains := by
    intro out
    cases out <;> rfl
  unfold restoreTable
  rw [hkind]
  exact (hfst _).trans (congrArg (Except.map _) hrows)

/-- The progress differs under the keys of the target at most. -/
structure KeepsOthers (target : Target) (progress progress' : Progress κ) : Prop where
  watermark : ∀ key, key ≠ wmKey target.kind target.schema target.table →
    progress'.watermark key = progress.watermark key
  position : ∀ key, key ≠ posKey target.kind target.schema target.table →
    progress'.position key = progress.position key

omit [LinearOrder κ] in
theorem keepsOthers_refl (target : Target) (progress : Progress κ) :
    KeepsOthers target progress progress := ⟨fun _ _ => rfl, fun _ _ => rfl⟩

omit [LinearOrder κ] in
theorem keepsOthers_record (target : Target) (progress : Progress κ) (v : Option κ) :
    KeepsOthers target progress (v.elim progress fun v => { progress with
      watermark := Function.update progress.watermark
        (wmKey target.kind target.schema target.table) v }) := by
  cases v with
  | none => exact keepsOthers_refl target progress
  | some v => exact ⟨fun _ hkey => Function.update_of_ne hkey _ _, fun _ _ => rfl⟩

omit [LinearOrder κ] in
theorem keepsOthers_note (target : Target) (progress : Progress κ) (position : ℕ) :
    KeepsOthers target progress { progress with
      position := Function.update progress.position
        (posKey target.kind target.schema target.table) position } :=
  ⟨fun _ _ => rfl, fun _ hkey => Function.update_of_ne hkey _ _⟩

theorem runTable_progress {job : Job} {forceFull : Bool} {target : Target} {tracked : Option String}
    {answer : Answer t batchSize cap} {maxRows fuel : ℕ} {progress progress' : Progress κ}
    {dest dest' : List (Record κ)}
    (h : runTable engines job forceFull target tracked answer maxRows fuel progress dest =
      .ok (dest', progress')) : KeepsOthers target progress progress' := by
  unfold runTable at h
  obtain ⟨c, -, h⟩ := ExceptRules.bind_ok h
  cases c with
  | reload =>
    obtain ⟨rows, -, h⟩ := ExceptRules.bind_ok h
    cases h
    split
    · exact keepsOthers_record target progress _
    · exact keepsOthers_refl target progress
  | snapshot =>
    obtain ⟨rows, -, h⟩ := ExceptRules.bind_ok h
    cases h
    exact keepsOthers_note target progress _
  | delta watermark c =>
    obtain ⟨rows, -, h⟩ := ExceptRules.bind_ok h
    cases h
    exact keepsOthers_record target progress _
  | baseline =>
    cases h
    split
    · exact keepsOthers_record target progress _
    · exact keepsOthers_refl target progress
  | drain position =>
    obtain ⟨out, -, h⟩ := ExceptRules.bind_ok h
    cases h
    exact keepsOthers_note target progress _

/-- The progress a job has after any number of runs that write some targets. -/
inductive Recorded (engines : Engines κ) (job : Job) (targets : Set Target) : Progress κ → Prop
  | start : Recorded engines job targets noProgress
  | run {t : SourceTable κ} {batchSize cap : ℕ+} {progress progress' : Progress κ} (target : Target)
      (forceFull : Bool) (tracked : Option String) (answer : Answer t batchSize cap) (maxRows fuel : ℕ)
      (dest dest' : List (Record κ)) : Recorded engines job targets progress → target ∈ targets →
      runTable engines job forceFull target tracked answer maxRows fuel progress dest =
        .ok (dest', progress') → Recorded engines job targets progress'

theorem recorded_none {job : Job} {targets : Set Target} {progress : Progress κ}
    (h : Recorded engines job targets progress) :
    (∀ key, (∀ target ∈ targets, key ≠ wmKey target.kind target.schema target.table) →
      progress.watermark key = none) ∧
    ∀ key, (∀ target ∈ targets, key ≠ posKey target.kind target.schema target.table) →
      progress.position key = none := by
  induction h with
  | start => exact ⟨fun _ _ => rfl, fun _ _ => rfl⟩
  | run target forceFull tracked answer maxRows fuel dest dest' _ hmem hrun ih =>
    have hkeeps := runTable_progress hrun
    constructor
    · intro key hkey
      exact (hkeeps.watermark key (hkey target hmem)).trans (ih.1 key hkey)
    · intro key hkey
      exact (hkeeps.position key (hkey target hmem)).trans (ih.2 key hkey)

theorem course_unshared (s : Restore) {targets : Set Target} {progress : Progress κ}
    (h : Recorded engines s.job targets progress)
    (hwatermark : ∀ target ∈ targets,
      wmKey kind (s.target kind).schema s.table ≠ wmKey target.kind target.schema target.table)
    (hposition : ∀ target ∈ targets,
      posKey kind (s.target kind).schema s.table ≠ posKey target.kind target.schema target.table)
    (cols : List Column) : s.course kind cols progress = s.course kind cols noProgress := by
  obtain ⟨hwm, hpos⟩ := recorded_none h
  unfold Restore.course course
  rw [hwm _ hwatermark, hpos _ hposition]
  rfl

end Recovery

def accounts : SourceTable ℕ where
  columns := [⟨"id", true⟩, ⟨"updated_at", false⟩]
  rows := [[some 1, some 10], [some 2, some 20]]
  key_unique := by decide

def nightly (strategy : Strategy) : Restore where
  job := ⟨strategy, none, false⟩
  forceFull := false
  engine := "POSTGRES"
  homeSchema := "public"
  homeTable := "accounts"
  multiSchema := false
  schema := "public"
  table := "accounts"
  tracked := some "updated_at"

end DataFabric.Restores
