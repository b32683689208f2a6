import DataFabric.SyncedTables
import DataFabric.TransitionRuns

set_option autoImplicit false

/-!
# Incremental runs behind a watermark

The first run copies the table page by page and notes a watermark; each later run reads the rows
above it, lowest first and at most a cap of them, writes them and raises it. The source is written
between any two steps, and a run may die between any two.
-/
namespace DataFabric.IncrementalRuns

open ReplicaTables CdcCapture KeysetPages SyncedTables TransitionRuns

/-- Where the watermark behind a snapshot is read: replication jobs ask the source, the hub asks its
own table. -/
inductive Keeper | source | hub
deriving DecidableEq

structure Job (κ ν ω : Type*) where
  keeper : Keeper
  kind : DestKind
  table : TableInfo
  batchSize : ℕ+
  cap : ℕ+
  /-- The watermark column. -/
  mark : Row κ ν → ω

/-- `CAP` and `COPY_CAP`, the rows of one incremental run unless the environment says otherwise. -/
def copyCap : ℕ+ := ⟨200000, by decide⟩

inductive Stage (κ ν ω : Type*)
  | fresh
  | copying (cursor : Option κ)
  | copied
  /-- Between runs; the hub notes no watermark for an empty table. -/
  | idle (watermark : Option ω)
  | applying (watermark : Option ω) (rest : List (Row κ ν)) (upTo : ω)
deriving DecidableEq

structure World (κ ν ω : Type*) where
  source : List (Row κ ν)
  /-- The last watermark that the source has given out. -/
  clock : ω
  dest : List (Row κ ν)
  stage : Stage κ ν ω

inductive Event (κ ν : Type*)
  | statement (writes : List (Write κ ν))
  | prepare
  | page
  | record
  | read
  | apply
  | setWatermark
  | crash

def written {κ ν : Type*} : Write κ ν → List (Row κ ν)
  | .insert row => [row]
  | .update _ new => [new]
  | .delete _ => []

section Marks

variable {κ ν ω : Type*} [LinearOrder ω] {mark : Row κ ν → ω} {rows : List (Row κ ν)}

/-- `rows.reduce` over the watermarks, and `MAX` over a table. -/
def maxMark (mark : Row κ ν → ω) : List (Row κ ν) → Option ω
  | [] => none
  | r :: rows => some (rows.foldl (fun m x => if m < mark x then mark x else m) (mark r))

def raise (mark : Row κ ν → ω) (clock : ω) (rows : List (Row κ ν)) : ω :=
  rows.foldl (fun c r => max c (mark r)) clock

theorem le_raise (c : ω) : c ≤ raise mark c rows ∧ ∀ r ∈ rows, mark r ≤ raise mark c rows := by
  induction rows generalizing c with
  | nil => exact ⟨le_rfl, nofun⟩
  | cons x rows ih =>
    obtain ⟨hstart, hall⟩ := ih (max c (mark x))
    refine ⟨le_trans (le_max_left _ _) hstart, fun r hr => ?_⟩
    rcases List.mem_cons.mp hr with rfl | hr
    · exact le_trans (le_max_right _ _) hstart
    · exact hall r hr

theorem raise_mem (c : ω) : raise mark c rows = c ∨ ∃ r ∈ rows, mark r = raise mark c rows := by
  induction rows generalizing c with
  | nil => exact .inl rfl
  | cons x rows ih =>
    change raise mark (max c (mark x)) rows = c ∨ ∃ r ∈ x :: rows, mark r = raise mark (max c (mark x)) rows
    rcases ih (max c (mark x)) with heq | ⟨r, hr, heq⟩
    · rw [heq]
      rcases le_total c (mark x) with hle | hle
      · exact .inr ⟨x, List.mem_cons_self, (max_eq_right hle).symm⟩
      · exact .inl (max_eq_left hle)
    · exact .inr ⟨r, List.mem_cons_of_mem x hr, heq⟩

theorem maxMark_eq_raise (r : Row κ ν) : maxMark mark (r :: rows) = some (raise mark (mark r) rows) := by
  have hstep : (fun m x => if m < mark x then mark x else m) = fun (c : ω) (x : Row κ ν) => max c (mark x) := by
    funext c x
    exact (max_def_lt c (mark x)).symm
  unfold raise
  rw [← hstep]
  rfl

theorem maxMark_spec {m : ω} (h : maxMark mark rows = some m) :
    (∃ r ∈ rows, mark r = m) ∧ ∀ r ∈ rows, mark r ≤ m := by
  cases rows with
  | nil => cases h
  | cons x rows =>
    rw [maxMark_eq_raise, Option.some.injEq] at h
    have hle := @le_raise _ _ _ _ mark rows (mark x)
    rw [h] at hle
    refine ⟨?_, fun r hr => (List.mem_cons.mp hr).elim (fun heq => heq ▸ hle.1) (hle.2 r)⟩
    rcases @raise_mem _ _ _ _ mark rows (mark x) with heq | ⟨r, hr, heq⟩
    · exact ⟨x, List.mem_cons_self, heq.symm.trans h⟩
    · exact ⟨r, List.mem_cons_of_mem x hr, heq.trans h⟩

end Marks

variable {κ ν ω : Type*} [LinearOrder κ] [DecidableEq ν] [LinearOrder ω]

def applyWrites (t : TableInfo) (rows : List (Row κ ν)) (writes : List (Write κ ν)) :
    Option (List (Row κ ν)) := writes.foldlM (applyWrite t) rows

def readPage (job : Job κ ν ω) (w : World κ ν ω) (cursor : Option κ) : List (Row κ ν) :=
  page Row.lead cursor job.batchSize w.source

def afterPage (job : Job κ ν ω) (cursor : Option κ) (rows : List (Row κ ν)) : Stage κ ν ω :=
  if rows.length < job.batchSize then .copied else .copying (lastKey Row.lead cursor rows)

def writePage (kind : DestKind) (t : TableInfo) (rows page : List (Row κ ν)) :
    Option (List (Row κ ν)) :=
  match kind with
  | .pg => bulkInsert rows page
  | _ => upsertAll kind t rows page

/-- A job without a watermark copies the table again; the hub reads it from its start. -/
def afterRecord (job : Job κ ν ω) (w : World κ ν ω) : Stage κ ν ω :=
  match job.keeper with
  | .hub => .idle (maxMark job.mark w.dest)
  | .source => match maxMark job.mark w.source with
    | none => .fresh
    | some m => .idle (some m)

def readDelta (job : Job κ ν ω) (w : World κ ν ω) (watermark : Option ω) : List (Row κ ν) :=
  page job.mark watermark job.cap w.source

def afterRead (job : Job κ ν ω) (watermark : Option ω) (rows : List (Row κ ν)) : Stage κ ν ω :=
  match maxMark job.mark rows with
  | none => .idle watermark
  | some m => .applying watermark rows m

def step (job : Job κ ν ω) (w : World κ ν ω) : Event κ ν → Option (World κ ν ω)
  -- every row written has a watermark above all the earlier ones
  | .statement writes =>
    if ∀ r ∈ writes.flatMap written, w.clock < job.mark r then
      (applyWrites job.table w.source writes).map fun source => { w with
        source, clock := raise job.mark w.clock (writes.flatMap written) }
    else none
  | .prepare => match w.stage with
    | .fresh => some { w with dest := [], stage := .copying none }
    | _ => none
  | .page => match w.stage with
    | .copying cursor =>
      (writePage job.kind job.table w.dest (readPage job w cursor)).map fun dest =>
        { w with dest, stage := afterPage job cursor (readPage job w cursor) }
    | _ => none
  | .record => match w.stage with
    | .copied => some { w with stage := afterRecord job w }
    | _ => none
  | .read => match w.stage with
    | .idle watermark => some { w with stage := afterRead job watermark (readDelta job w watermark) }
    | _ => none
  | .apply => match w.stage with
    | .applying watermark (r :: rest) upTo =>
      (upsert job.kind job.table w.dest r).map fun dest =>
        { w with dest, stage := .applying watermark rest upTo }
    | _ => none
  | .setWatermark => match w.stage with
    | .applying _ [] upTo => some { w with stage := .idle (some upTo) }
    | _ => none
  | .crash => some { w with stage := match w.stage with
    | .idle watermark | .applying watermark _ _ => .idle watermark
    | _ => .fresh }

def start (job : Job κ ν ω) : Set (World κ ν ω) :=
  {w | (∀ r ∈ w.source, r.others.length = job.table.width) ∧
    (w.source.map fun r => (r.lead, r.others)).Nodup ∧ (∀ r ∈ w.source, job.mark r ≤ w.clock) ∧
    match w.stage with | .fresh => True | _ => False}

/-- No row is written behind the cursor of a snapshot whose watermark the source will give, the
hub's snapshot reads no row above one that it has missed, and no incremental run ends between two
rows of one watermark. -/
def Harmless (job : Job κ ν ω) (w : World κ ν ω) : Event κ ν → Prop
  | .statement writes => match w.stage with
    | .copying cursor => job.keeper = .source →
        ∀ r ∈ writes.flatMap written, ∀ c ∈ cursor, c < r.lead
    | .copied => job.keeper = .source → writes.flatMap written = []
    | _ => True
  | .page => match w.stage with
    | .copying cursor => job.keeper = .hub → ∀ r ∈ w.source, (∃ c ∈ cursor, r.lead ≤ c) →
        r ∉ w.dest → ∀ x ∈ readPage job w cursor, job.mark x < job.mark r
    | _ => True
  | .read => match w.stage with
    | .idle watermark => ∀ r ∈ w.source, r ∉ readDelta job w watermark →
        ∀ x ∈ readDelta job w watermark, job.mark r ≠ job.mark x
    | _ => True
  | _ => True

instance (job : Job κ ν ω) (w : World κ ν ω) (e : Event κ ν) : Decidable (Harmless job w e) := by
  unfold Harmless
  cases e <;> dsimp only <;> first | infer_instance | (split <;> infer_instance)

def deltaRun (job : Job κ ν ω) (w : World κ ν ω) : Option (World κ ν ω) :=
  (step job w .read).bind fun v => match v.stage with
    | .applying _ rest _ => run (step job) v (List.replicate rest.length .apply ++ [.setWatermark])
    | _ => some v

def deltaRuns (job : Job κ ν ω) : ℕ → World κ ν ω → Option (World κ ν ω)
  | 0, w => some w
  | n + 1, w => (deltaRun job w).bind (deltaRuns job n)

/-- When writing stops, as many runs as the source has rows complete, and if none of them cuts rows
of one watermark, the destination then has every row of the source. -/
def Converges (job : Job κ ν ω) (w : World κ ν ω) : Prop :=
  (∃ watermark, w.stage = .idle watermark) → ∀ n, w.source.length ≤ n →
    ∃ w', deltaRuns job n w = some w' ∧
      ((∀ m < n, ∀ v, deltaRuns job m w = some v → Harmless job v .read) →
        ∀ r ∈ w.source, r ∈ w'.dest)

def Follows (job : Job κ ν ω) (w : World κ ν ω) : Prop :=
  match w.stage with
  | .fresh => True
  | .copying cursor => Flat w.dest ∧ (∀ x ∈ w.dest, UpTo cursor x.lead ∧ job.mark x ≤ w.clock) ∧
      ∀ r ∈ w.source, UpTo cursor r.lead →
        r ∈ w.dest ∨ job.keeper = .hub ∧ ∀ x ∈ w.dest, job.mark x < job.mark r
  | .copied => Flat w.dest ∧ (∀ x ∈ w.dest, job.mark x ≤ w.clock) ∧
      ∀ r ∈ w.source, r ∈ w.dest ∨ job.keeper = .hub ∧ ∀ x ∈ w.dest, job.mark x < job.mark r
  | .idle watermark => Flat w.dest ∧ (∀ m ∈ watermark, m ≤ w.clock) ∧
      ∀ r ∈ w.source, UpTo watermark (job.mark r) → r ∈ w.dest
  | .applying watermark rest upTo => Flat w.dest ∧ (∀ x ∈ rest, x.others = []) ∧
      (∀ m ∈ watermark, m ≤ upTo) ∧ upTo ≤ w.clock ∧
      (∀ r ∈ w.source, UpTo watermark (job.mark r) → r ∈ w.dest) ∧
      ∀ r ∈ w.source, job.mark r ≤ upTo →
        (r ∈ w.dest ∨ r ∈ rest) ∧ ∀ x ∈ rest, x.lead = r.lead → x = r

structure Incremental (job : Job κ ν ω) (w : World κ ν ω) : Prop where
  flat : Flat w.source
  clock : ∀ r ∈ w.source, job.mark r ≤ w.clock
  follows : Follows job w

section Parts

variable {t : TableInfo} {kind : DestKind} {source source' : List (Row κ ν)}

omit [LinearOrder ω] in
theorem mem_applyWrite {w : Write κ ν} {r : Row κ ν} (h : applyWrite t source w = some source')
    (hr : r ∈ source') : r ∈ source ∨ r ∈ written w := by
  cases w with
  | insert row =>
    simp only [applyWrite, Option.ite_none_right_eq_some, Option.some.injEq] at h
    obtain ⟨-, rfl⟩ := h
    exact List.mem_append.mp hr
  | update old new =>
    simp only [applyWrite, Option.ite_none_right_eq_some, Option.some.injEq] at h
    obtain ⟨-, rfl⟩ := h
    obtain ⟨s, hs, rfl⟩ := List.mem_map.mp hr
    by_cases heq : s = old
    · rw [if_pos heq]
      exact .inr (List.mem_singleton_self new)
    · rw [if_neg heq]
      exact .inl hs
  | delete old =>
    simp only [applyWrite, Option.ite_none_right_eq_some, Option.some.injEq] at h
    obtain ⟨-, rfl⟩ := h
    exact .inl (List.mem_of_mem_filter hr)

theorem applyWrites_plain {writes : List (Write κ ν)} (ht : t.width = 0) (hflat : Flat source)
    (h : applyWrites t source writes = some source') :
    Flat source' ∧ ∀ r ∈ source', r ∈ source ∨ r ∈ writes.flatMap written := by
  induction writes generalizing source with
  | nil =>
    cases h
    exact ⟨hflat, fun r hr => .inl hr⟩
  | cons w writes ih =>
    unfold applyWrites at h
    rw [List.foldlM_cons] at h
    obtain ⟨mid, hmid, hrest⟩ := Option.bind_eq_some_iff.mp h
    obtain ⟨hflat', hmem⟩ := ih (flat_write ht hflat hmid) hrest
    refine ⟨hflat', fun r hr => ?_⟩
    rw [List.flatMap_cons, List.mem_append]
    rcases hmem r hr with hold | hnew
    · exact (mem_applyWrite hmid hold).imp_right .inl
    · exact .inr (.inr hnew)

omit [DecidableEq ν] [LinearOrder ω] in
theorem writePage_plain (hplain : Plain kind t) {rows page : List (Row κ ν)} (hflat : Flat rows)
    (hpage : Flat page) (hnew : ∀ x ∈ page, ∀ y ∈ rows, y.lead ≠ x.lead) :
    ∃ rows', writePage kind t rows page = some rows' ∧ Flat rows' ∧
      ∀ x, x ∈ rows' ↔ x ∈ rows ∨ x ∈ page := by
  unfold writePage
  split
  · obtain ⟨hinsert, hflat'⟩ := bulkInsert_plain hflat hpage hnew
    exact ⟨_, hinsert, hflat', fun x => List.mem_append⟩
  · exact upsertAll_plain hplain hflat hpage hnew

omit [DecidableEq ν] [LinearOrder ω] in
theorem upsert_row (hplain : Plain kind t) {rows : List (Row κ ν)} {r : Row κ ν} (hflat : Flat rows)
    (hr : r.others = []) : ∃ rows', upsert kind t rows r = some rows' ∧ Flat rows' ∧
      ∀ x, x ∈ rows' ↔ x = r ∨ x ∈ rows ∧ x.lead ≠ r.lead := by
  have hmem : ∀ x, x ∈ putRow (sameLead r) rows r ↔ x = r ∨ x ∈ rows ∧ x.lead ≠ r.lead :=
    fun x => mem_upsert_lead
  refine ⟨_, upsert_plain hplain hflat.1 fun s hs => (hflat.2 s hs).trans hr.symm,
    ⟨keyed_putRow hflat.1, fun s hs => ?_⟩, hmem⟩
  rcases (hmem s).mp hs with rfl | ⟨hs, -⟩
  · exact hr
  · exact hflat.2 s hs

end Parts

section Steps

variable {job : Job κ ν ω} {w w' : World κ ν ω} (hplain : Plain job.kind job.table)

omit [DecidableEq ν] in
include hplain in
theorem incremental_start (h : w ∈ start job) : Incremental job w := by
  obtain ⟨hwidth, hnodup, hclock, hstage⟩ := h
  refine ⟨flat_of_width hplain.1 hwidth hnodup, hclock, ?_⟩
  unfold Follows
  cases hs : w.stage with
  | fresh => trivial
  | _ => simp [hs] at hstage

include hplain in
theorem incremental_statement (h : Incremental job w) (writes : List (Write κ ν))
    (hharmless : Harmless job w (.statement writes))
    (hstep : step job w (.statement writes) = some w') : Incremental job w' := by
  simp only [step, Option.ite_none_right_eq_some, Option.map_eq_some_iff] at hstep
  obtain ⟨habove, source, hsource, rfl⟩ := hstep
  obtain ⟨hflat, hmem⟩ := applyWrites_plain hplain.1 h.flat hsource
  have hclock := @le_raise _ _ _ _ job.mark (writes.flatMap written) w.clock
  -- a row with an old watermark was there before
  have hold : ∀ r ∈ source, job.mark r ≤ w.clock → r ∈ w.source := by
    intro r hr hle
    exact (hmem r hr).resolve_right fun hnew => absurd hle (not_le.mpr (habove r hnew))
  refine ⟨hflat, fun r hr => ?_, ?_⟩
  · rcases hmem r hr with hr | hr
    · exact le_trans (h.clock r hr) hclock.1
    · exact hclock.2 r hr
  have hfollows := h.follows
  unfold Follows at hfollows ⊢
  unfold Harmless at hharmless
  cases hstage : w.stage with
  | fresh => trivial
  | copying cursor =>
    simp only [hstage] at hfollows hharmless
    obtain ⟨hdest, hinside, hagree⟩ := hfollows
    refine ⟨hdest, fun x hx => ⟨(hinside x hx).1, le_trans (hinside x hx).2 hclock.1⟩, ?_⟩
    intro r hr hreached
    rcases hmem r hr with hr | hr
    · exact hagree r hr hreached
    · cases hkeeper : job.keeper with
      | source =>
        obtain ⟨c, hc, hle⟩ := hreached
        exact absurd (hharmless hkeeper r hr c hc) (not_lt.mpr hle)
      | hub => exact .inr ⟨rfl, fun x hx => lt_of_le_of_lt (hinside x hx).2 (habove r hr)⟩
  | copied =>
    simp only [hstage] at hfollows hharmless
    obtain ⟨hdest, hinside, hagree⟩ := hfollows
    refine ⟨hdest, fun x hx => le_trans (hinside x hx) hclock.1, fun r hr => ?_⟩
    rcases hmem r hr with hr | hr
    · exact hagree r hr
    · cases hkeeper : job.keeper with
      | source =>
        rw [hharmless hkeeper] at hr
        cases hr
      | hub => exact .inr ⟨rfl, fun x hx => lt_of_le_of_lt (hinside x hx) (habove r hr)⟩
  | idle watermark =>
    simp only [hstage] at hfollows
    obtain ⟨hdest, hmark, hagree⟩ := hfollows
    refine ⟨hdest, fun m hm => le_trans (hmark m hm) hclock.1, fun r hr hnoted => ?_⟩
    obtain ⟨m, hm, hle⟩ := hnoted
    exact hagree r (hold r hr (le_trans hle (hmark m hm))) ⟨m, hm, hle⟩
  | applying watermark rest upTo =>
    simp only [hstage] at hfollows
    obtain ⟨hdest, hothers, hmark, hupTo, hagree, hread⟩ := hfollows
    refine ⟨hdest, hothers, hmark, le_trans hupTo hclock.1, fun r hr hnoted => ?_, fun r hr hle => ?_⟩
    · obtain ⟨m, hm, hle⟩ := hnoted
      exact hagree r (hold r hr (le_trans hle (le_trans (hmark m hm) hupTo))) ⟨m, hm, hle⟩
    · exact hread r (hold r hr (le_trans hle hupTo)) hle

theorem incremental_prepare (h : Incremental job w) (hstep : step job w .prepare = some w') :
    Incremental job w' := by
  cases hstage : w.stage with
  | fresh =>
    simp only [step, hstage, Option.some.injEq] at hstep
    subst hstep
    refine ⟨h.flat, h.clock, ⟨List.nodup_nil, nofun⟩, nofun, ?_⟩
    rintro r - ⟨c, hc, -⟩
    cases hc
  | _ => simp [step, hstage] at hstep

include hplain in
theorem incremental_page (h : Incremental job w) (hharmless : Harmless job w .page)
    (hstep : step job w .page = some w') : Incremental job w' := by
  have hfollows := h.follows
  have hsource := h.flat
  unfold Follows at hfollows
  unfold Harmless at hharmless
  cases hstage : w.stage with
  | copying cursor =>
    simp only [hstage] at hfollows hharmless
    simp only [step, hstage, Option.map_eq_some_iff] at hstep
    obtain ⟨dest, hwrite, rfl⟩ := hstep
    obtain ⟨hdest, hinside, hagree⟩ := hfollows
    have hin : ∀ x ∈ readPage job w cursor, x ∈ w.source := fun x hx => (mem_page hx).1
    obtain ⟨rows, hrows, hflat, hmem⟩ := writePage_plain hplain hdest
      ⟨page_keyed hsource.1, fun x hx => hsource.2 x (hin x hx)⟩
      fun x hx y hy heq => page_above hx (heq ▸ (hinside y hy).1)
    have heq := Option.some.inj (hrows.symm.trans hwrite)
    subst heq
    have hmarks : ∀ x ∈ rows, job.mark x ≤ w.clock := fun x hx =>
      ((hmem x).mp hx).elim (fun hold => (hinside x hold).2) fun hread => h.clock x (hin x hread)
    have hpage : ∀ r ∈ w.source, Reached cursor job.batchSize (readPage job w cursor) r.lead →
        r ∈ rows ∨ job.keeper = .hub ∧ ∀ x ∈ rows, job.mark x < job.mark r := by
      intro r hr hreached
      rcases reached_page hsource.1 hreached with hold | hread
      · by_cases hmissing : r ∈ w.dest
        · exact .inl ((hmem r).mpr (.inl hmissing))
        · obtain ⟨hkeeper, hless⟩ := (hagree r hr hold).resolve_left hmissing
          refine .inr ⟨hkeeper, fun x hx => ((hmem x).mp hx).elim (hless x) ?_⟩
          exact hharmless hkeeper r hr hold hmissing x
      · exact .inl ((hmem r).mpr (.inr (hread r hr rfl)))
    refine ⟨hsource, h.clock, ?_⟩
    unfold Follows afterPage
    by_cases hshort : (readPage job w cursor).length < job.batchSize
    · simp only [if_pos hshort]
      exact ⟨hflat, hmarks, fun r hr => hpage r hr (.inl hshort)⟩
    · simp only [if_neg hshort]
      refine ⟨hflat, fun x hx => ⟨?_, hmarks x hx⟩, fun r hr hupTo => hpage r hr (.inr hupTo)⟩
      rcases (hmem x).mp hx with hold | hread
      · exact upTo_next (hinside x hold).1
      · exact upTo_page hread
  | _ => simp [step, hstage] at hstep

theorem incremental_record (h : Incremental job w) (hstep : step job w .record = some w') :
    Incremental job w' := by
  have hfollows := h.follows
  unfold Follows at hfollows
  cases hstage : w.stage with
  | copied =>
    simp only [hstage] at hfollows
    simp only [step, hstage, Option.some.injEq] at hstep
    subst hstep
    obtain ⟨hdest, hmarks, hagree⟩ := hfollows
    refine ⟨h.flat, h.clock, ?_⟩
    unfold Follows afterRecord
    cases hkeeper : job.keeper with
    | hub =>
      dsimp only
      refine ⟨hdest, fun m hm => ?_, fun r hr hnoted => ?_⟩
      · obtain ⟨x, hx, rfl⟩ := (maxMark_spec hm).1
        exact hmarks x hx
      · obtain ⟨m, hm, hle⟩ := hnoted
        obtain ⟨x, hx, rfl⟩ := (maxMark_spec hm).1
        exact (hagree r hr).resolve_right fun hless => absurd (hless.2 x hx) (not_lt.mpr hle)
    | source =>
      have hall : ∀ r ∈ w.source, r ∈ w.dest := fun r hr =>
        (hagree r hr).resolve_right fun hless => absurd (hkeeper.symm.trans hless.1) nofun
      cases hm : maxMark job.mark w.source with
      | none => trivial
      | some m =>
        dsimp only
        refine ⟨hdest, fun m' hm' => ?_, fun r hr _ => hall r hr⟩
        obtain ⟨x, hx, rfl⟩ := (maxMark_spec hm).1
        cases hm'
        exact h.clock x hx
  | _ => simp [step, hstage] at hstep

theorem incremental_read (h : Incremental job w) (hharmless : Harmless job w .read)
    (hstep : step job w .read = some w') : Incremental job w' := by
  have hfollows := h.follows
  unfold Follows at hfollows
  unfold Harmless at hharmless
  cases hstage : w.stage with
  | idle watermark =>
    simp only [hstage] at hfollows hharmless
    simp only [step, hstage, Option.some.injEq] at hstep
    subst hstep
    obtain ⟨hdest, hmark, hagree⟩ := hfollows
    refine ⟨h.flat, h.clock, ?_⟩
    have hin : ∀ x ∈ readDelta job w watermark, x ∈ w.source := fun x hx => (mem_page hx).1
    unfold Follows afterRead
    cases hm : maxMark job.mark (readDelta job w watermark) with
    | none => exact ⟨hdest, hmark, hagree⟩
    | some m =>
      obtain ⟨⟨x, hx, rfl⟩, -⟩ := maxMark_spec hm
      refine ⟨hdest, fun y hy => h.flat.2 y (hin y hy), fun c hc => ?_, h.clock x (hin x hx), hagree,
        fun r hr hle => ⟨?_, fun y hy heq => keyed_inj h.flat.1 hr (hin y hy) heq⟩⟩
      · exact le_of_lt ((mem_page hx).2 c hc)
      · by_cases hnoted : UpTo watermark (job.mark r)
        · exact .inl (hagree r hr hnoted)
        · refine .inr ?_
          by_contra hout
          have habove : ∀ c ∈ watermark, c < job.mark r := fun c hc =>
            not_le.mp fun hle => hnoted ⟨c, hc, hle⟩
          have hge := page_rest_le hr habove hout x hx
          exact hharmless r hr hout x hx (le_antisymm hle hge)
  | _ => simp [step, hstage] at hstep

include hplain in
theorem incremental_apply (h : Incremental job w) (hstep : step job w .apply = some w') :
    Incremental job w' := by
  have hfollows := h.follows
  unfold Follows at hfollows
  cases hstage : w.stage with
  | applying watermark rest upTo =>
    cases rest with
    | nil => simp [step, hstage] at hstep
    | cons r rest =>
      simp only [hstage] at hfollows
      simp only [step, hstage, Option.map_eq_some_iff] at hstep
      obtain ⟨dest, hput, rfl⟩ := hstep
      obtain ⟨hdest, hothers, hmark, hupTo, hagree, hread⟩ := hfollows
      obtain ⟨rows, hrows, hflat, hmem⟩ := upsert_row hplain hdest (hothers r List.mem_cons_self)
      have heq := Option.some.inj (hrows.symm.trans hput)
      subst heq
      -- a row that was there stays: the batch has no other version of it
      have hkeep : ∀ s ∈ w.source, job.mark s ≤ upTo → s ∈ w.dest → s ∈ rows := by
        intro s hs hle hsd
        rw [hmem s]
        by_cases hlead : s.lead = r.lead
        · exact .inl ((hread s hs hle).2 r List.mem_cons_self hlead.symm).symm
        · exact .inr ⟨hsd, hlead⟩
      refine ⟨h.flat, h.clock, hflat, fun x hx => hothers x (List.mem_cons_of_mem r hx), hmark, hupTo,
        fun s hs hnoted => ?_, fun s hs hle => ⟨?_, fun x hx => ?_⟩⟩
      · obtain ⟨c, hc, hle⟩ := hnoted
        exact hkeep s hs (le_trans hle (hmark c hc)) (hagree s hs ⟨c, hc, hle⟩)
      · rcases (hread s hs hle).1 with hsd | hsr
        · exact .inl (hkeep s hs hle hsd)
        · rcases List.mem_cons.mp hsr with rfl | hsr
          · exact .inl ((hmem s).mpr (.inl rfl))
          · exact .inr hsr
      · exact (hread s hs hle).2 x (List.mem_cons_of_mem r hx)
  | _ => simp [step, hstage] at hstep

theorem incremental_setWatermark (h : Incremental job w)
    (hstep : step job w .setWatermark = some w') : Incremental job w' := by
  have hfollows := h.follows
  unfold Follows at hfollows
  cases hstage : w.stage with
  | applying watermark rest upTo =>
    cases rest with
    | nil =>
      simp only [hstage] at hfollows
      simp only [step, hstage, Option.some.injEq] at hstep
      subst hstep
      obtain ⟨hdest, -, -, hupTo, -, hread⟩ := hfollows
      refine ⟨h.flat, h.clock, hdest, fun m hm => ?_, fun r hr hnoted => ?_⟩
      · cases hm
        exact hupTo
      · obtain ⟨c, hc, hle⟩ := hnoted
        cases hc
        exact (hread r hr hle).1.resolve_right List.not_mem_nil
    | cons r rest => simp [step, hstage] at hstep
  | _ => simp [step, hstage] at hstep

theorem incremental_crash (h : Incremental job w) (hstep : step job w .crash = some w') :
    Incremental job w' := by
  cases hstep
  have hfollows := h.follows
  unfold Follows at hfollows
  refine ⟨h.flat, h.clock, ?_⟩
  unfold Follows
  cases hstage : w.stage with
  | idle watermark =>
    simp only [hstage] at hfollows
    exact hfollows
  | applying watermark rest upTo =>
    simp only [hstage] at hfollows
    obtain ⟨hdest, -, hmark, hupTo, hagree, -⟩ := hfollows
    exact ⟨hdest, fun m hm => le_trans (hmark m hm) hupTo, hagree⟩
  | _ => trivial

include hplain in
theorem incremental_step (e : Event κ ν) (h : Incremental job w)
    (hstep : restrict (Harmless job) (step job) w e = some w') : Incremental job w' := by
  obtain ⟨hharmless, hstep⟩ := restrict_some hstep
  cases e with
  | statement writes => exact incremental_statement hplain h writes hharmless hstep
  | prepare => exact incremental_prepare h hstep
  | page => exact incremental_page hplain h hharmless hstep
  | record => exact incremental_record h hstep
  | read => exact incremental_read h hharmless hstep
  | apply => exact incremental_apply hplain h hstep
  | setWatermark => exact incremental_setWatermark h hstep
  | crash => exact incremental_crash h hstep

def Ready (w : World κ ν ω) : Prop :=
  Flat w.source ∧ Flat w.dest ∧ ∃ watermark, w.stage = .idle watermark

def unread (job : Job κ ν ω) (w : World κ ν ω) : List (Row κ ν) :=
  match w.stage with
  | .idle watermark => beyond job.mark watermark w.source
  | _ => []

include hplain in
theorem applies_complete {watermark : Option ω} {rest : List (Row κ ν)} {upTo : ω}
    (hstage : w.stage = .applying watermark rest upTo) (hdest : Flat w.dest)
    (hrest : ∀ x ∈ rest, x.others = []) :
    ∃ w', run (step job) w (List.replicate rest.length .apply ++ [.setWatermark]) = some w' ∧
      w'.source = w.source ∧ Flat w'.dest ∧ w'.stage = .idle (some upTo) ∧
      (Incremental job w → Incremental job w') := by
  induction rest generalizing w with
  | nil =>
    have hset : step job w .setWatermark = some { w with stage := .idle (some upTo) } := by
      simp [step, hstage]
    refine ⟨{ w with stage := .idle (some upTo) }, ?_, rfl, hdest, rfl,
      fun h => incremental_setWatermark h hset⟩
    change run (step job) w [.setWatermark] = _
    rw [run_cons, hset]
    rfl
  | cons r rest ih =>
    obtain ⟨rows, hrows, hflat, -⟩ := upsert_row hplain hdest (hrest r List.mem_cons_self)
    have happly : step job w .apply =
        some { w with dest := rows, stage := .applying watermark rest upTo } := by
      simp [step, hstage, hrows]
    obtain ⟨w', hrun, hsource, hdest', hstage', hinv⟩ :=
      @ih { w with dest := rows, stage := .applying watermark rest upTo } rfl hflat
        fun x hx => hrest x (List.mem_cons_of_mem r hx)
    refine ⟨w', ?_, hsource, hdest', hstage', fun h => hinv (incremental_apply hplain h happly)⟩
    change run (step job) w (.apply :: (List.replicate rest.length .apply ++ [.setWatermark])) = _
    rw [run_cons, happly]
    exact hrun

include hplain in
theorem deltaRun_complete (hready : Ready w) : ∃ w', deltaRun job w = some w' ∧ Ready w' ∧
    w'.source = w.source ∧ (unread job w').length ≤ (unread job w).length - 1 ∧
    (Harmless job w .read → Incremental job w → Incremental job w') := by
  obtain ⟨hsource, hdest, watermark, hstage⟩ := hready
  have hread : step job w .read =
      some { w with stage := afterRead job watermark (readDelta job w watermark) } := by
    simp [step, hstage]
  unfold deltaRun
  rw [hread, Option.bind_some]
  unfold afterRead at hread ⊢
  cases hm : maxMark job.mark (readDelta job w watermark) with
  | none =>
    have hnil : readDelta job w watermark = [] := by
      cases hd : readDelta job w watermark with
      | nil => rfl
      | cons r rows =>
        rw [hd] at hm
        cases hm
    have hnone : beyond job.mark watermark w.source = [] := page_eq_nil job.cap.2 hnil
    rw [hm] at hread
    refine ⟨_, rfl, ⟨hsource, hdest, watermark, rfl⟩, rfl, ?_,
      fun hharmless h => incremental_read h hharmless hread⟩
    unfold unread
    simp only [hnone, List.length_nil]
    exact Nat.zero_le _
  | some m =>
    have hin : ∀ x ∈ readDelta job w watermark, x ∈ w.source := fun x hx => (mem_page hx).1
    obtain ⟨x, hx, hxm⟩ := (maxMark_spec hm).1
    rw [hm] at hread
    obtain ⟨w', hrun, hsource', hdest', hstage', hinv⟩ := @applies_complete _ _ _ _ _ _ job
      { w with stage := .applying watermark (readDelta job w watermark) m } hplain _ _ _ rfl hdest
      fun y hy => hsource.2 y (hin y hy)
    refine ⟨w', hrun, ⟨hsource' ▸ hsource, hdest', _, hstage'⟩, hsource', ?_,
      fun hharmless h => hinv (incremental_read h hharmless hread)⟩
    have hless := beyond_length_lt (mem_beyond.mpr (mem_page hx))
    unfold unread
    rw [hstage', hsource', hstage, ← hxm]
    exact Nat.le_sub_one_of_lt hless

include hplain in
theorem deltaRuns_complete (n : ℕ) (hready : Ready w) : ∃ w', deltaRuns job n w = some w' ∧ Ready w' ∧
    w'.source = w.source ∧ (unread job w').length ≤ (unread job w).length - n ∧
    ((∀ m < n, ∀ v, deltaRuns job m w = some v → Harmless job v .read) →
      Incremental job w → Incremental job w') := by
  induction n generalizing w with
  | zero => exact ⟨w, rfl, hready, rfl, le_rfl, fun _ h => h⟩
  | succ n ih =>
    obtain ⟨v, hv, hready', hsource, hunread, hinv⟩ := deltaRun_complete hplain hready
    obtain ⟨w', hw', hready'', hsource', hunread', hinv'⟩ := ih hready'
    have hnext : ∀ m, deltaRuns job (m + 1) w = deltaRuns job m v := by
      intro m
      change (deltaRun job w).bind (deltaRuns job m) = _
      rw [hv]
      rfl
    refine ⟨w', (hnext n).trans hw', hready'', hsource'.trans hsource, by omega, ?_⟩
    intro huncut h
    refine hinv' (fun m hm u hu => ?_) (hinv (huncut 0 (Nat.succ_pos n) w rfl) h)
    exact huncut (m + 1) (Nat.succ_lt_succ hm) u ((hnext m).trans hu)

end Steps

/-- A table with one text key, replicated into PostgreSQL; its rows hold their watermark. -/
def ordersJob (cap : ℕ+) : Job ℕ ℕ ℕ := ⟨.source, .pg, ⟨0, false, true⟩, copyBatch, cap, Row.data⟩

def ordersWorld : World ℕ ℕ ℕ := ⟨[⟨1, [], 5⟩], 5, [], .fresh⟩

theorem ordersWorld_start (cap : ℕ+) : ordersWorld ∈ start (ordersJob cap) :=
  ⟨by simp [ordersWorld, ordersJob], by decide, by simp [ordersWorld, ordersJob], trivial⟩

def oneRow : ℕ+ := ⟨1, by decide⟩

theorem tied_row_lost : ∃ w : World ℕ ℕ ℕ, Reachable (start (ordersJob oneRow)) (step (ordersJob oneRow)) w ∧
    ∃ r ∈ w.source, ∀ w', deltaRuns (ordersJob oneRow) w.source.length w = some w' → r ∉ w'.dest := by
  obtain ⟨w, hw, hfacts⟩ := @reachable_of_run _ _ (start (ordersJob oneRow)) (step (ordersJob oneRow))
    (fun w => (⟨3, [], 6⟩ : Row ℕ ℕ) ∈ w.source ∧
      (deltaRuns (ordersJob oneRow) w.source.length w).all fun v => decide ((⟨3, [], 6⟩ : Row ℕ ℕ) ∉ v.dest))
    ordersWorld [.prepare, .page, .record, .statement [.insert ⟨2, [], 6⟩, .insert ⟨3, [], 6⟩]]
    (ordersWorld_start _) (by decide)
  rw [decide_eq_true_eq] at hfacts
  refine ⟨w, hw, _, hfacts.1, fun w' hw' => ?_⟩
  have hmissing := hfacts.2
  rw [hw'] at hmissing
  exact of_decide_eq_true hmissing

end DataFabric.IncrementalRuns
