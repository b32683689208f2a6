import DataFabric.SyncedTables
import DataFabric.TransitionRuns

set_option autoImplicit false

/-!
# Keeping a hub table in step by change capture

The backfill copies the table with no trigger in place. The first refresh installs the trigger and
notes the outbox position; only the refreshes after it apply changes.
-/
namespace DataFabric.HubRefresh

open NumberedLogs ReplicaTables CdcCapture KeysetPages SyncedTables TransitionRuns

structure HubTable where
  table : TableInfo
  pageSize : ℕ+
  engine : CaptureEngine
  schema : String
  name : String

def refreshBatch : ℕ+ := ⟨500, by decide⟩

inductive Stage (κ : Type*)
  | fresh
  | loading (cursor : Option κ)
  | loaded
  | baselined
  | draining
deriving DecidableEq

structure World (κ ν : Type*) where
  source : List (Row κ ν)
  nextSeq : ℕ
  /-- The kinds of change that a trigger records. -/
  captures : Op → Bool
  outbox : List (Entry (ChangeRow κ ν))
  stage : Stage κ
  /-- The drain, with the hub table as its sink. -/
  consumer : Consumer (ChangeRow κ ν) (List (Row κ ν))

inductive Event (κ ν : Type*)
  | write (w : Write κ ν)
  | neighbour (schema name : String) (change : ChangeRow κ ν)
  | dropTrigger (ops : List Op)
  | createTrigger (ops : List Op)
  | prepare
  | page
  | baseline
  | save
  | consume
  | crash

/-- The triggers that a refresh drops and creates again; Oracle replaces its one in place. -/
def triggersOf : CaptureEngine → List (List Op)
  | .postgres | .oracle => [[.I, .U, .D]]
  | .mysql => [[.I], [.U], [.D]]

variable {κ ν : Type*} [LinearOrder κ]

def record (w : World κ ν) (change : ChangeRow κ ν) : World κ ν :=
  { w with nextSeq := w.nextSeq + 1, outbox := w.outbox ++ [⟨w.nextSeq, change⟩] }

def readPage (hub : HubTable) (w : World κ ν) (cursor : Option κ) : List (Row κ ν) :=
  page Row.lead cursor hub.pageSize w.source

def afterPage (hub : HubTable) (cursor : Option κ) (rows : List (Row κ ν)) : Stage κ :=
  if rows.length < hub.pageSize then .loaded else .loading (lastKey Row.lead cursor rows)

variable [DecidableEq ν]

def step (hub : HubTable) (w : World κ ν) : Event κ ν → Option (World κ ν)
  | .write x => (applyWrite hub.table w.source x).map fun source =>
      if w.captures (captured x).op then record { w with source } (captured x) else { w with source }
  | .neighbour schema name change =>
    some (if outboxOf hub.engine schema name = outboxOf hub.engine hub.schema hub.name
      then record w change else w)
  | .dropTrigger ops =>
    if ops ∈ triggersOf hub.engine ∧ hub.engine ≠ .oracle
    then some { w with captures := fun op => w.captures op && !ops.contains op } else none
  | .createTrigger ops =>
    if ops ∈ triggersOf hub.engine
    then some { w with captures := fun op => w.captures op || ops.contains op } else none
  | .prepare =>
    if w.stage = .fresh then some { w with
      stage := .loading none
      consumer := { w.consumer with sink := [] } } else none
  | .page => match w.stage with
    | .loading cursor =>
      (bulkInsert w.consumer.sink (readPage hub w cursor)).map fun sink => { w with
        stage := afterPage hub cursor (readPage hub w cursor)
        consumer := { w.consumer with sink } }
    | _ => none
  | .baseline =>
    if w.stage = .loaded then some { w with
      stage := .baselined
      consumer := ⟨maxNumber w.outbox, .idle, [], w.consumer.sink⟩ } else none
  | .save => if w.stage = .baselined then some { w with stage := .draining } else none
  | .consume =>
    if w.stage = .draining then
      (consume (applyTo .pg hub.table) refreshBatch w.outbox w.consumer).map fun x =>
        { w with outbox := x.1, consumer := x.2 }
    else none
  -- a backfill starts over, a refresh without a saved position takes its baseline again
  | .crash => some { w with
      stage := match w.stage with
        | .draining => .draining
        | .loaded | .baselined => .loaded
        | _ => .fresh
      consumer := w.consumer.crash }

def start (hub : HubTable) : Set (World κ ν) :=
  {w | (∀ r ∈ w.source, r.others.length = hub.table.width) ∧
    (w.source.map fun r => (r.lead, r.others)).Nodup ∧ 0 < w.nextSeq ∧ w.outbox = [] ∧
    w.stage = .fresh}

/-- No write meets a row that the backfill has copied until the position is noted; from then on the
trigger is in place, updates keep the key and the position is saved before the refresh can die. No
other table writes to the outbox. -/
def Harmless (hub : HubTable) (w : World κ ν) : Event κ ν → Prop
  | .write x => match w.stage with
    | .fresh => True
    | .loading cursor => ∀ k ∈ touched x, ∀ c ∈ cursor, c < k
    | .loaded => False
    | .baselined | .draining => w.captures (captured x).op = true ∧ KeepsKey x
  | .neighbour schema name _ =>
    outboxOf hub.engine schema name ≠ outboxOf hub.engine hub.schema hub.name
  | .crash => w.stage = .baselined → ∀ e ∈ w.outbox, e.seq ≤ w.consumer.saved
  | _ => True

instance (hub : HubTable) (w : World κ ν) (e : Event κ ν) : Decidable (Harmless hub w e) := by
  unfold Harmless
  cases e <;> dsimp only <;> first | infer_instance | (split <;> infer_instance)

/-- When writing stops, one more refresh leaves the hub table with the rows of the source: the first
one, which applies nothing, and every later one. -/
def Converges (hub : HubTable) (w : World κ ν) : Prop :=
  (w.stage = .loaded → w.consumer.sink.Perm w.source) ∧
  (w.stage = .draining → w.consumer.phase = .idle → ∀ n log c, 0 < n →
    drains (applyTo .pg hub.table) refreshBatch n (w.outbox, w.consumer) = some (log, c) →
    c.phase = .idle → c.sink.Perm w.source)

def Completes (hub : HubTable) (w : World κ ν) : Prop :=
  w.stage = .draining → w.consumer.phase = .idle → ∃ n log c, 0 < n ∧
    drains (applyTo .pg hub.table) refreshBatch n (w.outbox, w.consumer) = some (log, c) ∧
    c.phase = .idle

def Follows (w : World κ ν) : Prop :=
  match w.stage with
  | .fresh => True
  | .loading cursor => Flat w.consumer.sink ∧ (∀ x ∈ w.consumer.sink, UpTo cursor x.lead) ∧
      ∀ k, UpTo cursor k → AgreeAt k w.consumer.sink w.source
  | .loaded => Flat w.consumer.sink ∧ ∀ k, AgreeAt k w.consumer.sink w.source
  | .baselined => w.consumer.phase = .idle ∧ CdcDrains.Within w.nextSeq w.consumer ∧
      Tracking (fun _ => True) w.outbox w.source w.consumer
  | .draining => CdcDrains.Within w.nextSeq w.consumer ∧
      Tracking (fun _ => True) w.outbox w.source w.consumer

structure Refreshing (w : World κ ν) : Prop where
  recorded : Recorded w.nextSeq w.outbox w.source
  follows : Follows w

theorem plain_hub {t : TableInfo} (ht : t.width = 0) : Plain .pg t := by
  refine ⟨ht, fun h => ?_, fun h => ?_⟩ <;> cases h

section Steps

variable {hub : HubTable} {w w' : World κ ν} (ht : hub.table.width = 0)

omit [DecidableEq ν] in
include ht in
theorem refreshing_start (h : w ∈ start hub) : Refreshing w := by
  obtain ⟨hwidth, hnodup, hpos, houtbox, hstage⟩ := h
  refine ⟨?_, ?_⟩
  · rw [houtbox]
    exact recorded_empty hpos (flat_of_width ht hwidth hnodup)
  · unfold Follows
    rw [hstage]
    trivial

include ht in
theorem refreshing_write (h : Refreshing w) (x : Write κ ν) (hharmless : Harmless hub w (.write x))
    (hstep : step hub w (.write x) = some w') : Refreshing w' := by
  obtain ⟨source, hsource, hw⟩ := Option.map_eq_some_iff.mp hstep
  have hrecorded := h.recorded
  have hfollows := h.follows
  have hflat := flat_write ht hrecorded.flat hsource
  have hsound := sound_captured ht hrecorded.flat hsource
  have hsame : w'.source = source ∧ w'.stage = w.stage ∧ w'.consumer = w.consumer := by
    rw [← hw]
    split <;> exact ⟨rfl, rfl, rfl⟩
  have hrecorded' : Recorded w'.nextSeq w'.outbox w'.source := by
    rw [← hw]
    split
    · exact recorded_append hrecorded hsound hflat
    · exact ⟨hrecorded.positive, hrecorded.numbered, hrecorded.below, hrecorded.sound, hflat⟩
  have htracking : KeepsKey x → w.captures (captured x).op = true →
      CdcDrains.Within w.nextSeq w.consumer →
      Tracking (fun _ => True) w.outbox w.source w.consumer →
      CdcDrains.Within w'.nextSeq w'.consumer ∧
        Tracking (fun _ => True) w'.outbox w'.source w'.consumer := by
    intro hkeeps hcaptures hwithin htracking
    rw [← hw, if_pos hcaptures]
    refine ⟨⟨Nat.lt_succ_of_lt hwithin.1, fun e he => Nat.lt_succ_of_lt (hwithin.2 e he)⟩, ?_⟩
    exact tracking_write htracking hwithin hrecorded.below hsound
      (effect_write ht hrecorded.flat hkeeps hsource)
  refine ⟨hrecorded', ?_⟩
  unfold Follows at hfollows ⊢
  unfold Harmless at hharmless
  rw [hsame.2.1]
  cases hstage : w.stage with
  | fresh => trivial
  | loading cursor =>
    simp only [hstage] at hfollows hharmless
    refine ⟨hsame.2.2 ▸ hfollows.1, hsame.2.2 ▸ hfollows.2.1, fun k hk => ?_⟩
    have hagree : AgreeAt k source w.source := by
      refine agreeAt_write hsource fun hmem => ?_
      obtain ⟨c, hc, hle⟩ := hk
      exact absurd (hharmless k hmem c hc) (not_lt.mpr hle)
    rw [hsame.1, hsame.2.2]
    exact fun r hr => (hfollows.2.2 k hk r hr).trans (hagree r hr).symm
  | loaded =>
    simp only [hstage] at hharmless
  | baselined =>
    simp only [hstage] at hfollows hharmless
    exact ⟨hsame.2.2 ▸ hfollows.1, htracking hharmless.2 hharmless.1 hfollows.2.1 hfollows.2.2⟩
  | draining =>
    simp only [hstage] at hfollows hharmless
    exact htracking hharmless.2 hharmless.1 hfollows.1 hfollows.2

theorem refreshing_prepare (h : Refreshing w) (hstep : step hub w .prepare = some w') :
    Refreshing w' := by
  simp only [step, Option.ite_none_right_eq_some, Option.some.injEq] at hstep
  obtain ⟨-, rfl⟩ := hstep
  refine ⟨h.recorded, ⟨List.nodup_nil, nofun⟩, nofun, ?_⟩
  rintro k ⟨c, hc, -⟩
  cases hc

theorem refreshing_page (h : Refreshing w) (hstep : step hub w .page = some w') : Refreshing w' := by
  have hfollows := h.follows
  have hsource := h.recorded.flat
  unfold Follows at hfollows
  cases hstage : w.stage with
  | loading cursor =>
    simp only [hstage] at hfollows
    simp only [step, hstage, Option.map_eq_some_iff] at hstep
    obtain ⟨sink, hsink, rfl⟩ := hstep
    obtain ⟨hflat, hinside, hagree⟩ := hfollows
    have hin : ∀ x ∈ readPage hub w cursor, x ∈ w.source := fun x hx => (mem_page hx).1
    have hnew : ∀ x ∈ readPage hub w cursor, ∀ y ∈ w.consumer.sink, y.lead ≠ x.lead := by
      intro x hx y hy heq
      exact page_above hx (heq ▸ hinside y hy)
    obtain ⟨hinsert, hflat'⟩ := bulkInsert_plain hflat
      ⟨page_keyed hsource.1, fun x hx => hsource.2 x (hin x hx)⟩ hnew
    have heq := Option.some.inj (hinsert.symm.trans hsink)
    subst heq
    have hpage : ∀ k, Reached cursor hub.pageSize (readPage hub w cursor) k →
        AgreeAt k (w.consumer.sink ++ readPage hub w cursor) w.source := by
      intro k hk x hx
      rw [List.mem_append]
      rcases reached_page hsource.1 hk with hold | hread
      · rw [hagree k hold x hx]
        exact ⟨fun hmem => hmem.elim id (hin x), .inl⟩
      · refine ⟨fun hmem => hmem.elim (fun hmem => ?_) (hin x), fun hmem => .inr (hread x hmem hx)⟩
        exact (hagree k (hx ▸ hinside x hmem) x hx).mp hmem
    refine ⟨h.recorded, ?_⟩
    unfold Follows afterPage
    by_cases hshort : (readPage hub w cursor).length < hub.pageSize
    · simp only [if_pos hshort]
      exact ⟨hflat', fun k => hpage k (.inl hshort)⟩
    · simp only [if_neg hshort]
      refine ⟨hflat', fun x hx => ?_, fun k hk => hpage k (.inr hk)⟩
      rcases List.mem_append.mp hx with hold | hread
      · exact upTo_next (hinside x hold)
      · exact upTo_page hread
  | fresh => simp [step, hstage] at hstep
  | loaded => simp [step, hstage] at hstep
  | baselined => simp [step, hstage] at hstep
  | draining => simp [step, hstage] at hstep

theorem refreshing_baseline (h : Refreshing w) (hstep : step hub w .baseline = some w') :
    Refreshing w' := by
  simp only [step, Option.ite_none_right_eq_some, Option.some.injEq] at hstep
  obtain ⟨hstage, rfl⟩ := hstep
  have hfollows := h.follows
  unfold Follows at hfollows
  simp only [hstage] at hfollows
  refine ⟨h.recorded, rfl, ⟨maxNumber_lt h.recorded.positive h.recorded.below, nofun⟩, trivial,
    nofun, ⟨fun _ he => he.1, fun _ he => he.2, fun _ _ => .inr nofun⟩, hfollows.1, ?_⟩
  exact ⟨fun e he hlt => absurd (le_maxNumber he) (not_le.mpr hlt), fun k _ => .inr (hfollows.2 k)⟩

theorem refreshing_save (h : Refreshing w) (hstep : step hub w .save = some w') : Refreshing w' := by
  simp only [step, Option.ite_none_right_eq_some, Option.some.injEq] at hstep
  obtain ⟨hstage, rfl⟩ := hstep
  have hfollows := h.follows
  unfold Follows at hfollows
  simp only [hstage] at hfollows
  exact ⟨h.recorded, hfollows.2⟩

include ht in
theorem refreshing_consume (h : Refreshing w) (hstep : step hub w .consume = some w') :
    Refreshing w' := by
  simp only [step, Option.ite_none_right_eq_some, Option.map_eq_some_iff] at hstep
  obtain ⟨hstage, ⟨log, c⟩, hc, rfl⟩ := hstep
  have hfollows := h.follows
  have hrecorded := h.recorded
  unfold Follows at hfollows
  simp only [hstage] at hfollows
  refine ⟨recorded_sublist hrecorded (CdcDrains.log_consume hc), ?_⟩
  unfold Follows
  simp only [hstage]
  refine ⟨CdcDrains.within_consume hfollows.2.inStep hfollows.1
    (fun _ _ _ e he => hrecorded.below e (mem_readBatch he).1) hc, ?_⟩
  exact tracking_consume (plain_hub ht) hrecorded.numbered hrecorded.sound hfollows.2 hc

theorem refreshing_crash (h : Refreshing w) (hharmless : Harmless hub w .crash)
    (hstep : step hub w .crash = some w') : Refreshing w' := by
  cases hstep
  have hfollows := h.follows
  unfold Follows at hfollows
  refine ⟨h.recorded, ?_⟩
  unfold Follows
  cases hstage : w.stage with
  | fresh => trivial
  | loading cursor => trivial
  | loaded =>
    simp only [hstage] at hfollows
    exact hfollows
  | baselined =>
    simp only [hstage] at hfollows
    obtain ⟨hidle, -, htracking⟩ := hfollows
    refine ⟨htracking.flat, fun k => (htracking.synced.agree k trivial).resolve_left ?_⟩
    rintro ⟨e, he, -, hlt⟩
    have hle := hharmless hstage e he
    unfold Consumer.current at hlt
    simp only [hidle] at hlt
    omega
  | draining =>
    simp only [hstage] at hfollows
    exact ⟨CdcDrains.within_crash hfollows.2.inStep hfollows.1, tracking_crash hfollows.2⟩

include ht in
theorem refreshing_step (e : Event κ ν) (h : Refreshing w)
    (hstep : restrict (Harmless hub) (step hub) w e = some w') : Refreshing w' := by
  obtain ⟨hharmless, hstep⟩ := restrict_some hstep
  cases e with
  | write x => exact refreshing_write ht h x hharmless hstep
  | neighbour schema name change =>
    simp only [step, if_neg hharmless, Option.some.injEq] at hstep
    exact hstep ▸ h
  | dropTrigger ops =>
    simp only [step, Option.ite_none_right_eq_some, Option.some.injEq] at hstep
    obtain ⟨-, rfl⟩ := hstep
    exact ⟨h.recorded, h.follows⟩
  | createTrigger ops =>
    simp only [step, Option.ite_none_right_eq_some, Option.some.injEq] at hstep
    obtain ⟨-, rfl⟩ := hstep
    exact ⟨h.recorded, h.follows⟩
  | prepare => exact refreshing_prepare h hstep
  | page => exact refreshing_page h hstep
  | baseline => exact refreshing_baseline h hstep
  | save => exact refreshing_save h hstep
  | consume => exact refreshing_consume ht h hstep
  | crash => exact refreshing_crash h hharmless hstep

omit [DecidableEq ν] in
include ht in
theorem converges_of_refreshing (h : Refreshing w) : Converges hub w := by
  have hfollows := h.follows
  have hrecorded := h.recorded
  unfold Follows at hfollows
  constructor
  · intro hstage
    simp only [hstage] at hfollows
    exact perm_of_agree hfollows.1.1 hrecorded.flat.1 hfollows.2
  · intro hstage hidle n log c hn hrun hdone
    simp only [hstage] at hfollows
    obtain ⟨hnext, hexhausted⟩ := tracking_drains (plain_hub ht) hrecorded.numbered
      hrecorded.sound hfollows.2 (.inl hidle) hrun
    exact perm_of_drained hrecorded.flat hnext hdone (hexhausted hn)

end Steps

def ordersHub : HubTable := ⟨⟨0, false, true⟩, copyBatch, .postgres, "public", "orders"⟩

def ordersWorld : World ℕ String :=
  ⟨[⟨1, [], "new"⟩], 1, fun _ => false, [], .fresh, ⟨0, .idle, [], []⟩⟩

theorem ordersWorld_start : ordersWorld ∈ start ordersHub :=
  ⟨by decide, by decide, by decide, rfl, rfl⟩

def backfill : List (Event ℕ String) := [.prepare, .page]

def firstRefresh : List (Event ℕ String) :=
  [.dropTrigger [.I, .U, .D], .createTrigger [.I, .U, .D], .baseline, .save]

end DataFabric.HubRefresh
