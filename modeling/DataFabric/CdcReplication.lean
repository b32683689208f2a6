import DataFabric.SyncedTables
import DataFabric.TransitionRuns

set_option autoImplicit false

/-!
# Replicating a table by change capture

The first run installs the trigger, notes the outbox position, copies the table page by page and
saves the position; later runs drop the trigger, create it anew and drain the outbox. The source is written between any two steps, and a
run may die between any two.
-/
namespace DataFabric.CdcReplication

open NumberedLogs ReplicaTables CdcCapture KeysetPages SyncedTables TransitionRuns

structure Job where
  kind : DestKind
  table : TableInfo
  batchSize : ℕ+
  engine : CaptureEngine
  schema : String
  name : String

/-- How far a job has come: the position counts from `draining` on, before that a crash loses it. -/
inductive Stage (κ : Type*)
  | fresh
  | armed
  | baselined
  | copying (cursor : Option κ)
  | copied
  | draining
deriving DecidableEq

structure World (κ ν : Type*) where
  source : List (Row κ ν)
  nextSeq : ℕ
  /-- The trigger is installed. -/
  captures : Bool
  /-- A later run has dropped the trigger and not yet created it again. -/
  dropped : Bool
  outbox : List (Entry (ChangeRow κ ν))
  stage : Stage κ
  /-- The drain, with the destination table as its sink. -/
  consumer : Consumer (ChangeRow κ ν) (List (Row κ ν))

inductive Event (κ ν : Type*)
  | write (w : Write κ ν)
  /-- A change of another captured table of the source. -/
  | neighbour (schema name : String) (change : ChangeRow κ ν)
  | ensure
  | dropTrigger
  | createTrigger
  | baseline
  | prepare
  | page
  | save
  | consume
  | crash

variable {κ ν : Type*} [LinearOrder κ]

def record (w : World κ ν) (change : ChangeRow κ ν) : World κ ν :=
  { w with nextSeq := w.nextSeq + 1, outbox := w.outbox ++ [⟨w.nextSeq, change⟩] }

def readPage (job : Job) (w : World κ ν) (cursor : Option κ) : List (Row κ ν) :=
  page Row.lead cursor job.batchSize w.source

def afterPage (job : Job) (cursor : Option κ) (rows : List (Row κ ν)) : Stage κ :=
  if rows.length < job.batchSize then .copied else .copying (lastKey Row.lead cursor rows)

variable [DecidableEq ν]

def step (job : Job) (w : World κ ν) : Event κ ν → Option (World κ ν)
  | .write x => (applyWrite job.table w.source x).map fun source =>
      if w.captures && !w.dropped then record { w with source } (captured x) else { w with source }
  | .neighbour schema name change =>
    some (if outboxOf job.engine schema name = outboxOf job.engine job.schema job.name
      then record w change else w)
  | .ensure =>
    if w.stage = .fresh then some { w with stage := .armed, captures := true, dropped := false } else none
  | .dropTrigger => if w.captures then some { w with dropped := true } else none
  | .createTrigger => if w.captures then some { w with dropped := false } else none
  | .baseline =>
    if w.stage = .armed then some { w with
      stage := .baselined
      consumer := ⟨maxNumber w.outbox, .idle, [], w.consumer.sink⟩ } else none
  | .prepare =>
    if w.stage = .baselined then some { w with
      stage := .copying none
      consumer := { w.consumer with sink := [] } } else none
  | .page => match w.stage with
    | .copying cursor =>
      (upsertAll job.kind job.table w.consumer.sink (readPage job w cursor)).map fun sink => { w with
        stage := afterPage job cursor (readPage job w cursor)
        consumer := { w.consumer with sink } }
    | _ => none
  | .save => if w.stage = .copied then some { w with stage := .draining } else none
  | .consume =>
    if w.stage = .draining then
      (consume (applyTo job.kind job.table) job.batchSize w.outbox w.consumer).map fun x =>
        { w with outbox := x.1, consumer := x.2 }
    else none
  | .crash => some { w with
      stage := if w.stage = .draining then .draining else .fresh
      consumer := w.consumer.crash }

/-- The source has its rows, nothing is captured and the job has not run. -/
def start (job : Job) : Set (World κ ν) :=
  {w | (∀ r ∈ w.source, r.others.length = job.table.width) ∧
    (w.source.map fun r => (r.lead, r.others)).Nodup ∧ 0 < w.nextSeq ∧ w.captures = false ∧
    w.outbox = [] ∧ w.stage = .fresh ∧ w.consumer = ⟨0, .idle, [], []⟩}

/-- Captured updates keep the key, nothing is written while the trigger is dropped, and no other table
writes to the outbox. -/
def Harmless (job : Job) (w : World κ ν) : Event κ ν → Prop
  | .write x => w.captures = true → KeepsKey x ∧ w.dropped = false
  | .neighbour schema name _ =>
    outboxOf job.engine schema name ≠ outboxOf job.engine job.schema job.name
  | _ => True

instance (job : Job) (w : World κ ν) (e : Event κ ν) : Decidable (Harmless job w e) := by
  unfold Harmless
  cases e <;> dsimp only <;> infer_instance

/-- When writing stops, every further drain that comes to its end leaves the destination with the
rows of the source. -/
def Converges (job : Job) (w : World κ ν) : Prop :=
  w.stage = .draining → w.consumer.phase = .idle → ∀ n log c, 0 < n →
    drains (applyTo job.kind job.table) job.batchSize n (w.outbox, w.consumer) = some (log, c) →
    c.phase = .idle → c.sink.Perm w.source

def Completes (job : Job) (w : World κ ν) : Prop :=
  w.stage = .draining → w.consumer.phase = .idle → ∃ n log c, 0 < n ∧
    drains (applyTo job.kind job.table) job.batchSize n (w.outbox, w.consumer) = some (log, c) ∧
    c.phase = .idle

def Covers : Stage κ → κ → Prop
  | .copying cursor, k => UpTo cursor k
  | .copied, _ | .draining, _ => True
  | _, _ => False

structure Replicating (w : World κ ν) : Prop where
  recorded : Recorded w.nextSeq w.outbox w.source
  captures : w.captures = false → w.stage = .fresh ∧ w.outbox = []
  quiet : w.stage ≠ .draining → w.consumer.phase = .idle
  within : CdcDrains.Within w.nextSeq w.consumer
  tracking : Tracking (Covers w.stage) w.outbox w.source w.consumer
  inside : ∀ cursor, w.stage = .copying cursor → ∀ x ∈ w.consumer.sink, UpTo cursor x.lead

section Steps

variable {job : Job} {w w' : World κ ν} (hplain : Plain job.kind job.table)

omit [DecidableEq ν] in
include hplain in
theorem replicating_start (h : w ∈ start job) : Replicating w := by
  obtain ⟨hwidth, hnodup, hpos, hcaptures, houtbox, hstage, hconsumer⟩ := h
  refine ⟨?_, fun _ => ⟨hstage, houtbox⟩, ?_, ?_, ?_, ?_⟩
  · rw [houtbox]
    exact recorded_empty hpos (flat_of_width hplain.1 hwidth hnodup)
  · rw [hconsumer]
    exact fun _ => rfl
  · rw [hconsumer]
    exact ⟨hpos, nofun⟩
  · rw [hconsumer, houtbox, hstage]
    exact ⟨trivial, nofun, ⟨fun _ he => he.1, fun _ he => he.2, fun _ _ => .inr nofun⟩,
      ⟨List.nodup_nil, nofun⟩, synced_empty 0 0 _ _⟩
  · rw [hstage]
    nofun

include hplain in
theorem replicating_write (h : Replicating w) (x : Write κ ν)
    (hharmless : Harmless job w (.write x)) (hstep : step job w (.write x) = some w') :
    Replicating w' := by
  obtain ⟨source, hsource, rfl⟩ := Option.map_eq_some_iff.mp hstep
  have hrecorded := h.recorded
  have hflat := flat_write hplain.1 hrecorded.flat hsource
  cases hcaptures : w.captures with
  | false =>
    rw [Bool.false_and, if_neg Bool.false_ne_true]
    obtain ⟨hstage, houtbox⟩ := h.captures hcaptures
    have htracking := h.tracking
    rw [hstage, houtbox] at htracking
    refine ⟨?_, fun _ => ⟨hstage, houtbox⟩, h.quiet, h.within, ?_, h.inside⟩
    · change Recorded w.nextSeq w.outbox source
      rw [houtbox]
      exact recorded_empty hrecorded.positive hflat
    · change Tracking (Covers w.stage) w.outbox source w.consumer
      rw [hstage, houtbox]
      exact ⟨htracking.inStep, htracking.stored, htracking.ahead, htracking.flat, synced_empty _ _ _ _⟩
  | true =>
    obtain ⟨hkeeps, hdropped⟩ := hharmless hcaptures
    rw [hdropped, Bool.not_false, Bool.and_true, if_pos rfl]
    have hsound := sound_captured hplain.1 hrecorded.flat hsource
    have heffect := effect_write hplain.1 hrecorded.flat hkeeps hsource
    refine ⟨recorded_append hrecorded hsound hflat, ?_, h.quiet, ?_, ?_, h.inside⟩
    · intro hfalse
      change true = false at hfalse
      cases hfalse
    · exact ⟨Nat.lt_succ_of_lt h.within.1, fun e he => Nat.lt_succ_of_lt (h.within.2 e he)⟩
    · exact tracking_write h.tracking h.within hrecorded.below hsound heffect

theorem replicating_ensure (h : Replicating w) (hstep : step job w .ensure = some w') :
    Replicating w' := by
  simp only [step, Option.ite_none_right_eq_some, Option.some.injEq] at hstep
  obtain ⟨hstage, rfl⟩ := hstep
  have htracking := h.tracking
  rw [hstage] at htracking
  exact ⟨h.recorded, nofun,
    fun _ => h.quiet (by rw [hstage]; nofun), h.within, htracking, nofun⟩

theorem replicating_trigger (h : Replicating w) (hstep : step job w .dropTrigger = some w' ∨
    step job w .createTrigger = some w') : Replicating w' := by
  rcases hstep with hstep | hstep <;>
    simp only [step, Option.ite_none_right_eq_some, Option.some.injEq] at hstep <;>
    exact hstep.2 ▸ ⟨h.recorded, h.captures, h.quiet, h.within, h.tracking, h.inside⟩

theorem replicating_baseline (h : Replicating w) (hstep : step job w .baseline = some w') :
    Replicating w' := by
  simp only [step, Option.ite_none_right_eq_some, Option.some.injEq] at hstep
  obtain ⟨hstage, rfl⟩ := hstep
  have htracking := h.tracking
  rw [hstage] at htracking
  refine ⟨h.recorded, fun hfalse => ?_, fun _ => rfl,
    ⟨maxNumber_lt h.recorded.positive h.recorded.below, nofun⟩, ?_, nofun⟩
  · exact absurd (hstage.symm.trans (h.captures hfalse).1) nofun
  · exact ⟨trivial, nofun, ⟨fun _ he => he.1, fun _ he => he.2, fun _ _ => .inr nofun⟩,
      htracking.flat, ⟨fun e he hlt => absurd (le_maxNumber he) (not_le.mpr hlt), nofun⟩⟩

theorem replicating_prepare (h : Replicating w) (hstep : step job w .prepare = some w') :
    Replicating w' := by
  simp only [step, Option.ite_none_right_eq_some, Option.some.injEq] at hstep
  obtain ⟨hstage, rfl⟩ := hstep
  have hidle := h.quiet (by rw [hstage]; nofun)
  have htracking := h.tracking
  refine ⟨h.recorded, fun hfalse => ?_, fun _ => hidle,
    h.within, ?_, nofun⟩
  · exact absurd (hstage.symm.trans (h.captures hfalse).1) nofun
  · refine tracking_sink htracking ⟨List.nodup_nil, nofun⟩ ⟨htracking.synced.latest, ?_⟩
    rintro k ⟨c, hc, -⟩
    cases hc

include hplain in
theorem replicating_page (h : Replicating w) (hstep : step job w .page = some w') :
    Replicating w' := by
  cases hstage : w.stage with
  | copying cursor =>
    simp only [step, hstage, Option.map_eq_some_iff] at hstep
    obtain ⟨sink, hsink, rfl⟩ := hstep
    have hidle := h.quiet (by rw [hstage]; nofun)
    have htracking := h.tracking
    rw [hstage] at htracking
    have hsource : ∀ x ∈ readPage job w cursor, x ∈ w.source := fun x hx => (mem_page hx).1
    have hnew : ∀ x ∈ readPage job w cursor, ∀ y ∈ w.consumer.sink, y.lead ≠ x.lead := by
      intro x hx y hy heq
      exact page_above hx (heq ▸ h.inside cursor hstage y hy)
    obtain ⟨rows, hrows, hflat, hmem⟩ := upsertAll_plain hplain htracking.flat
      ⟨page_keyed h.recorded.flat.1, fun x hx => h.recorded.flat.2 x (hsource x hx)⟩ hnew
    have heq : rows = sink := Option.some.inj (hrows.symm.trans hsink)
    subst heq
    have hreached : ∀ k, Covers (afterPage job cursor (readPage job w cursor)) k →
        Reached cursor job.batchSize (readPage job w cursor) k := by
      intro k hk
      unfold afterPage at hk
      by_cases hshort : (readPage job w cursor).length < job.batchSize
      · exact .inl hshort
      · rw [if_neg hshort] at hk
        exact .inr hk
    refine ⟨h.recorded, fun hfalse => ?_, fun _ => hidle,
      h.within, tracking_sink htracking hflat ?_, ?_⟩
    · exact absurd (hstage.symm.trans (h.captures hfalse).1) nofun
    · exact synced_page htracking.synced hsource hmem (fun x hx => page_above hx)
        (h.inside cursor hstage) fun k hk => reached_page h.recorded.flat.1 (hreached k hk)
    · intro next hnext x hx
      change afterPage job cursor (readPage job w cursor) = .copying next at hnext
      unfold afterPage at hnext
      by_cases hshort : (readPage job w cursor).length < job.batchSize
      · rw [if_pos hshort] at hnext
        cases hnext
      · rw [if_neg hshort] at hnext
        cases hnext
        rcases (hmem x).mp hx with hold | hpage
        · exact upTo_next (h.inside cursor hstage x hold)
        · exact upTo_page hpage
  | fresh => simp [step, hstage] at hstep
  | armed => simp [step, hstage] at hstep
  | baselined => simp [step, hstage] at hstep
  | copied => simp [step, hstage] at hstep
  | draining => simp [step, hstage] at hstep

include hplain in
theorem replicating_consume (h : Replicating w) (hstep : step job w .consume = some w') :
    Replicating w' := by
  simp only [step, Option.ite_none_right_eq_some, Option.map_eq_some_iff] at hstep
  obtain ⟨hstage, ⟨log, c⟩, hc, rfl⟩ := hstep
  have hsub := CdcDrains.log_consume hc
  refine ⟨recorded_sublist h.recorded hsub, fun hfalse => ?_, fun hne => absurd hstage hne, ?_,
    tracking_consume hplain h.recorded.numbered h.recorded.sound h.tracking hc, ?_⟩
  · exact absurd (hstage.symm.trans (h.captures hfalse).1) nofun
  · exact CdcDrains.within_consume h.tracking.inStep h.within
      (fun _ _ _ e he => h.recorded.below e (mem_readBatch he).1) hc
  · intro cursor hcursor
    exact absurd (hstage.symm.trans hcursor) nofun

theorem replicating_save (h : Replicating w) (hstep : step job w .save = some w') :
    Replicating w' := by
  simp only [step, Option.ite_none_right_eq_some, Option.some.injEq] at hstep
  obtain ⟨hstage, rfl⟩ := hstep
  have htracking := h.tracking
  rw [hstage] at htracking
  refine ⟨h.recorded, fun hfalse => ?_,
    fun hne => absurd rfl hne, h.within, htracking, nofun⟩
  exact absurd (hstage.symm.trans (h.captures hfalse).1) nofun

theorem replicating_crash (h : Replicating w) (hstep : step job w .crash = some w') :
    Replicating w' := by
  cases hstep
  have hcrash := tracking_crash h.tracking
  refine ⟨h.recorded, fun hfalse => ?_, fun _ => rfl,
    CdcDrains.within_crash h.tracking.inStep h.within, ?_, ?_⟩
  · obtain ⟨hstage, houtbox⟩ := h.captures hfalse
    refine ⟨?_, houtbox⟩
    change (if w.stage = .draining then Stage.draining else .fresh) = .fresh
    rw [hstage]
    rfl
  · refine ⟨hcrash.inStep, hcrash.stored, hcrash.ahead, hcrash.flat, synced_mono hcrash.synced ?_⟩
    intro k hk
    by_cases hstage : w.stage = .draining
    · rw [hstage]
      trivial
    · change Covers (if w.stage = .draining then Stage.draining else .fresh) k at hk
      rw [if_neg hstage] at hk
      cases hk
  · intro cursor hcursor
    change (if w.stage = .draining then Stage.draining else .fresh) = .copying cursor at hcursor
    by_cases hstage : w.stage = .draining
    · rw [if_pos hstage] at hcursor
      cases hcursor
    · rw [if_neg hstage] at hcursor
      cases hcursor

include hplain in
theorem replicating_step (e : Event κ ν) (h : Replicating w)
    (hstep : restrict (Harmless job) (step job) w e = some w') : Replicating w' := by
  obtain ⟨hharmless, hstep⟩ := restrict_some hstep
  cases e with
  | write x => exact replicating_write hplain h x hharmless hstep
  | neighbour schema name change =>
    simp only [step, if_neg hharmless, Option.some.injEq] at hstep
    exact hstep ▸ h
  | ensure => exact replicating_ensure h hstep
  | dropTrigger => exact replicating_trigger h (.inl hstep)
  | createTrigger => exact replicating_trigger h (.inr hstep)
  | baseline => exact replicating_baseline h hstep
  | prepare => exact replicating_prepare h hstep
  | page => exact replicating_page hplain h hstep
  | save => exact replicating_save h hstep
  | consume => exact replicating_consume hplain h hstep
  | crash => exact replicating_crash h hstep

omit [DecidableEq ν] in
include hplain in
theorem converges_of_replicating (h : Replicating w) : Converges job w := by
  intro hstage hidle n log c hn hrun hdone
  have htracking := h.tracking
  rw [hstage] at htracking
  obtain ⟨hnext, hexhausted⟩ :=
    tracking_drains hplain h.recorded.numbered h.recorded.sound htracking (.inl hidle) hrun
  exact perm_of_drained h.recorded.flat hnext hdone (hexhausted hn)

end Steps

def ordersJob : Job := ⟨.pg, ⟨0, false, true⟩, copyBatch, .postgres, "public", "orders"⟩

def ordersWorld : World ℕ String :=
  ⟨[⟨1, [], "new"⟩], 1, false, false, [], .fresh, ⟨0, .idle, [], []⟩⟩

theorem ordersWorld_start : ordersWorld ∈ start ordersJob :=
  ⟨by decide, by decide, by decide, rfl, rfl, rfl, rfl⟩

def firstRun : List (Event ℕ String) := [.ensure, .baseline, .prepare, .page, .save]

end DataFabric.CdcReplication
