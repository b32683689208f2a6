import DataFabric.Restores
import DataFabric.TransitionRuns

set_option autoImplicit false

/-!
# Checkpointed copies

A copy saves its cursor behind every batch, and a run that starts after a crash or a pause goes on
from there.
-/
namespace DataFabric.ResumedCopies
open CursorPages ReplicaTables FullCopies TransitionRuns

/-- A table whose primary key is one column, which is never NULL. -/
structure KeyedTable (κ : Type*) extends SourceTable κ where
  key : String
  key_only : pkCols columns = [key]
  key_present : ∀ r ∈ rows, (value columns key r).isSome = true

structure Checkpoint where
  cursorValue : Option String
  rowsCopied : ℕ
  done : Bool

def shortInteger (s : String) : Option ℤ :=
  let digits (cs : List Char) : Option ℕ :=
    if 1 ≤ cs.length ∧ cs.length ≤ 15 ∧ cs.all Char.isDigit then
      some (cs.foldl (fun n c => 10 * n + (c.toNat - 48)) 0)
    else none
  match s.toList with
  | '-' :: cs => (digits cs).map fun n => -(n : ℤ)
  | cs => (digits cs).map Int.ofNat

structure KeyValues (κ : Type*) where
  /-- `String(cursor)` -/
  toText : κ → String
  ofText : String → κ
  ofNumber : ℤ → κ

section Model

variable {κ : Type*}

/-- The cursor comes back as a number when its engines is a short integer. -/
def KeyValues.read (values : KeyValues κ) (cursorValue : String) : κ :=
  match shortInteger cursorValue with
  | some n => values.ofNumber n
  | none => values.ofText cursorValue

structure Start (κ : Type*) where
  cursor : Option κ
  rowsCopied : ℕ
  done : Bool

def getStart (values : KeyValues κ) (checkpoint : Option Checkpoint) : Option (Start κ) :=
  checkpoint.map fun cp => ⟨cp.cursorValue.map values.read, cp.rowsCopied, cp.done⟩

structure Loop (κ : Type*) where
  canResume : Bool
  lastKey : Option κ
  total : ℕ

inductive Phase (κ : Type*)
  | opened (start : Option (Start κ))
  | dropped
  | created (l : Loop κ)
  | reading (l : Loop κ)
  | writing (l : Loop κ) (batch pending : List (Record κ))
  | written (l : Loop κ) (size : ℕ)
  | saved (l : Loop κ) (size : ℕ)
  | completing (l : Loop κ)
  | finished

structure CopyState (κ : Type*) where
  /-- `none` while there is no table; a cleared collection counts as dropped and created. -/
  dest : Option (List (Record κ))
  checkpoint : Option Checkpoint
  phase : Option (Phase κ)

inductive Event
  | start
  /-- The next statement of the run; a write takes up to `n + 1` rows of the batch. -/
  | advance (n : ℕ)
  | pause
  /-- The process dies, or a statement fails. -/
  | crash

def save (values : KeyValues κ) (l : Loop κ) (done : Bool) : Checkpoint :=
  ⟨l.lastKey.map values.toText, l.total, done⟩

/-- The copies into SQL tables of the first kind look whether the table is still there. -/
def canResume (kind : DestKind) (start : Option (Start κ)) (dest : Option (List (Record κ))) : Bool :=
  start.isSome && (dest.isSome || !(kind = .pg || kind = .snowflake))

variable [DecidableEq κ] (engines : Engines κ)

/-- A fresh copy inserts, a resumed one upserts by the key; Snowflake has no `ON CONFLICT`. -/
def writeRow (kind : DestKind) (resumed : Bool) (cols : List Column) (dest : List (Record κ))
    (r : Record κ) : Option (List (Record κ)) :=
  if resumed then
    if kind = .snowflake then none else put engines (Restores.changeKind kind) cols dest r
  else put engines kind cols dest r

end Model

section Steps

variable {κ : Type*} [LinearOrder κ] {t : KeyedTable κ} {batchSize : ℕ+}
variable (engines : Engines κ) (values : KeyValues κ) (kind : DestKind)
variable (reader : Reader t.toSourceTable batchSize) (maxRows : ℕ)

def advance (n : ℕ) (s : CopyState κ) : Phase κ → CopyState κ
  | .opened start =>
    if start.any Start.done then { s with phase := some .finished }
    else match start.filter fun _ => canResume kind start s.dest with
      | some start => { s with
          dest := some (s.dest.getD [])
          phase := some (.created ⟨true, start.cursor, start.rowsCopied⟩) }
      | none => { s with dest := none, phase := some .dropped }
  | .dropped => { s with dest := some [], phase := some (.created ⟨false, none, 0⟩) }
  | .created l => { s with checkpoint := some (save values l false), phase := some (.reading l) }
  | .reading l =>
    match (reader.behind t.key l.lastKey).map engines.read with
    | [] => { s with phase := some (.completing l) }
    | r :: rows => { s with phase := some (.writing l (r :: rows) (r :: rows)) }
  | .writing l batch [] =>
    { s with phase := some (.written ⟨l.canResume, batch.getLast?.bind (value t.columns t.key),
        l.total + batch.length⟩ batch.length) }
  | .writing l batch (r :: pending) =>
    match ((r :: pending).take (n + 1)).foldlM (writeRow engines kind l.canResume t.columns)
        (s.dest.getD []) with
    | none => { s with phase := none }
    | some dest => { s with
        dest := some dest
        phase := some (.writing l batch ((r :: pending).drop (n + 1))) }
  | .written l size => { s with
      checkpoint := some (save values l false)
      phase := some (.saved l size) }
  | .saved l size =>
    if size < batchSize then { s with phase := some (.completing l) }
    else if maxRows ≤ l.total then { s with phase := none }
    else { s with phase := some (.reading l) }
  | .completing l => { s with checkpoint := some (save values l true), phase := some .finished }
  | .finished => s

def step (s : CopyState κ) : Event → Option (CopyState κ)
  | .start => match s.phase with
    | none | some .finished => some { s with phase := some (.opened (getStart values s.checkpoint)) }
    | _ => none
  | .advance n => s.phase.map (advance engines values kind reader maxRows n s)
  | .pause => match s.phase with
    | some (.reading _) => some { s with phase := none }
    | _ => none
  | .crash => some { s with phase := none }

end Steps

/-- A job before its first run; the destination may hold anything. -/
def fresh {κ : Type*} : Set (CopyState κ) := {s | s.checkpoint = none ∧ s.phase = none}

section Conditions

variable {κ : Type*} [LinearOrder κ]

def RoundTrips (values : KeyValues κ) (t : KeyedTable κ) : Prop :=
  ∀ r ∈ t.rows, ∀ k, value t.columns t.key r = some k → values.read (values.toText k) = k

/-- What the destination replaces rows by is there and differs from row to row. -/
structure Distinguishes (engines : Engines κ) (kind : DestKind) (t : KeyedTable κ) : Prop where
  present : ∀ r ∈ t.rows, (mergeKey engines (Restores.changeKind kind) t.columns r).isSome = true
  distinct : ∀ r ∈ t.rows, ∀ s ∈ t.rows, mergeKey engines (Restores.changeKind kind) t.columns r =
    mergeKey engines (Restores.changeKind kind) t.columns s → r = s

end Conditions

section Writing

variable {κ : Type*} [LinearOrder κ] {t : KeyedTable κ} {engines : Engines κ} {kind : DestKind}
variable {dest dest' : List (Record κ)} {r s : Record κ}

omit [LinearOrder κ] in
theorem key_inj (hr : r ∈ t.rows) (hs : s ∈ t.rows)
    (h : value t.columns t.key r = value t.columns t.key s) : r = s := by
  have hnodup := t.key_unique (by rw [t.key_only]; exact List.cons_ne_nil _ _)
  refine List.inj_on_of_nodup_map hnodup hr hs ?_
  rw [pkOf, pkOf, t.key_only, List.map_singleton, List.map_singleton, h]

theorem put_again {k : DestKind}
    (hpresent : (mergeKey engines k t.columns r).isSome = true)
    (hdistinct : ∀ s ∈ dest, mergeKey engines k t.columns r = mergeKey engines k t.columns s → r = s)
    (h : put engines k t.columns dest r = some dest') :
    (r ∈ dest ∧ dest' = dest) ∨ (r ∉ dest ∧ dest' = dest ++ [r]) := by
  obtain ⟨m, hm⟩ := Option.isSome_iff_exists.mp hpresent
  have hsame : ∀ s ∈ dest, mergeKey engines k t.columns s = some m → r = s := by
    intro s hs hsm
    exact hdistinct s hs (hm.trans hsm.symm)
  simp only [put, hm] at h
  by_cases hany : (dest.any fun s => mergeKey engines k t.columns s = some m) = true
  · rw [if_pos hany] at h
    obtain ⟨s, hs, hsm⟩ := List.any_eq_true.mp hany
    obtain rfl := hsame s hs (of_decide_eq_true hsm)
    refine .inl ⟨hs, ?_⟩
    split at h
    · cases h
    · cases h
      conv_rhs => rw [← List.map_id dest]
      refine List.map_congr_left fun x hx => ?_
      split
      · exact hsame x hx (by assumption)
      · rfl
  · rw [if_neg hany] at h
    cases h
    refine .inr ⟨fun hmem => hany ?_, rfl⟩
    exact List.any_eq_true.mpr ⟨r, hmem, decide_eq_true hm⟩

theorem insert_fresh (hkind : kind = .pg ∨ kind = .snowflake)
    (h : put engines kind t.columns dest r = some dest') : r ∉ dest ∧ dest' = dest ++ [r] := by
  have hkey : mergeKey engines kind t.columns r = none := by
    obtain rfl | rfl := hkind <;> rfl
  simp only [put, hkey] at h
  split at h
  · cases h
  · rename_i hno
    cases h
    refine ⟨fun hmem => hno ⟨?_, hkind, List.mem_map_of_mem hmem⟩, rfl⟩
    rw [t.key_only]
    exact List.cons_ne_nil _ _

theorem writeRow_cases (hdistinguishes : Distinguishes engines kind t) (hdest : ∀ s ∈ dest, s ∈ t.rows)
    (hr : r ∈ t.rows) {resumed : Bool} (h : writeRow engines kind resumed t.columns dest r = some dest') :
    (r ∈ dest ∧ dest' = dest) ∨ (r ∉ dest ∧ dest' = dest ++ [r]) := by
  have hmerge : put engines (Restores.changeKind kind) t.columns dest r = some dest' →
      (r ∈ dest ∧ dest' = dest) ∨ (r ∉ dest ∧ dest' = dest ++ [r]) :=
    put_again (hdistinguishes.present r hr) fun s hs => hdistinguishes.distinct r hr s (hdest s hs)
  unfold writeRow at h
  split at h
  · split at h
    · cases h
    · exact hmerge h
  · cases kind with
    | pg => exact .inr (insert_fresh (.inl rfl) h)
    | snowflake => exact .inr (insert_fresh (.inr rfl) h)
    | _ => exact hmerge h

theorem behind_exact {batchSize : ℕ+} (hexact : Exact engines t.toSourceTable) (reader : Reader t.toSourceTable batchSize)
    (cursor : Option κ) : (reader.behind t.key cursor).map engines.read = reader.behind t.key cursor := by
  change (fetch reader (some t.key) cursor 0).map engines.read = _
  exact fetch_exact hexact _

omit [LinearOrder κ] in
theorem distinguishes_sql [DecidableEq κ] (engines : Engines κ) (hmongo : kind ≠ .mongo) (hes : kind ≠ .es)
    (hheld : ∀ r ∈ t.rows, ∀ s ∈ t.rows,
      heldKey engines t.columns t.key r = heldKey engines t.columns t.key s → r = s) :
    Distinguishes engines kind t := by
  have hlead : leadCol t.columns = some t.key := by
    rw [leadCol, t.key_only]
    rfl
  have hmysql : ∀ r, mergeKey engines .mysql t.columns r =
      some (.values [heldKey engines t.columns t.key r]) := by
    intro r
    simp [mergeKey, t.key_only]
  have horacle : ∀ r, mergeKey engines .oracle t.columns r =
      (heldKey engines t.columns t.key r).map fun v => .values [some v] := by
    intro r
    simp [mergeKey, hlead]
  have hpresent : ∀ r ∈ t.rows, (heldKey engines t.columns t.key r).isSome = true := by
    intro r hr
    rw [heldKey, Option.isSome_map]
    exact t.key_present r hr
  constructor
  · intro r hr
    cases kind with
    | mongo => exact absurd rfl hmongo
    | es => exact absurd rfl hes
    | mysql =>
      change (mergeKey engines .mysql t.columns r).isSome = true
      rw [hmysql]
      rfl
    | _ =>
      change (mergeKey engines .oracle t.columns r).isSome = true
      rw [horacle, Option.isSome_map]
      exact hpresent r hr
  · intro r hr s hs heq
    refine hheld r hr s hs ?_
    obtain ⟨a, ha⟩ := Option.isSome_iff_exists.mp (hpresent r hr)
    obtain ⟨b, hb⟩ := Option.isSome_iff_exists.mp (hpresent s hs)
    cases kind with
    | mongo => exact absurd rfl hmongo
    | es => exact absurd rfl hes
    | mysql =>
      change mergeKey engines .mysql t.columns r = mergeKey engines .mysql t.columns s at heq
      rw [hmysql, hmysql] at heq
      simpa using heq
    | _ =>
      change mergeKey engines .oracle t.columns r = mergeKey engines .oracle t.columns s at heq
      rw [horacle, horacle, ha, hb] at heq
      rw [ha, hb]
      simpa using heq

end Writing

section Invariant

variable {κ : Type*} [LinearOrder κ] {t : KeyedTable κ} {batchSize : ℕ+}
variable {engines : Engines κ} {values : KeyValues κ} {kind : DestKind}
variable {reader : Reader t.toSourceTable batchSize} {maxRows : ℕ}

structure Sound (t : KeyedTable κ) (dest : List (Record κ)) : Prop where
  nodup : dest.Nodup
  within : ∀ r ∈ dest, r ∈ t.rows

def Covers (t : KeyedTable κ) (dest : List (Record κ)) (cursor : Option κ) : Prop :=
  ∀ r ∈ t.rows, above (value t.columns t.key) cursor r = false → r ∈ dest

def Whole (t : KeyedTable κ) (dest : List (Record κ)) : Prop := ∀ r ∈ t.rows, r ∈ dest

def Known (t : KeyedTable κ) (cursor : Option κ) : Prop :=
  ∀ k, cursor = some k → ∃ r ∈ t.rows, value t.columns t.key r = some k

structure Good (t : KeyedTable κ) (dest : List (Record κ)) (cursor : Option κ) : Prop where
  sound : Sound t dest
  covers : Covers t dest cursor
  known : Known t cursor

def PhaseGood (values : KeyValues κ) (reader : Reader t.toSourceTable batchSize) (s : CopyState κ) :
    Phase κ → Prop
  | .opened start => start = getStart values s.checkpoint
  | .dropped => s.checkpoint = none
  | .created l | .reading l => ∃ dest, s.dest = some dest ∧ Good t dest l.lastKey
  | .writing l batch pending => ∃ dest, s.dest = some dest ∧ Good t dest l.lastKey ∧
      batch = reader.behind t.key l.lastKey ∧ batch ≠ [] ∧ (∀ r ∈ pending, r ∈ batch) ∧
      ∀ r ∈ batch, r ∈ pending ∨ r ∈ dest
  | .written l size | .saved l size => ∃ dest, s.dest = some dest ∧ Good t dest l.lastKey ∧
      (size < batchSize → Whole t dest)
  | .completing l => ∃ dest, s.dest = some dest ∧ Good t dest l.lastKey ∧ Whole t dest
  | .finished => ∃ dest, s.dest = some dest ∧ Sound t dest ∧ Whole t dest

def CheckpointGood (t : KeyedTable κ) (values : KeyValues κ) (s : CopyState κ) : Prop :=
  ∀ cp, s.checkpoint = some cp → ∃ dest, s.dest = some dest ∧
    Good t dest (cp.cursorValue.map values.read) ∧ (cp.done = true → Whole t dest)

structure Sane (values : KeyValues κ) (reader : Reader t.toSourceTable batchSize) (s : CopyState κ) :
    Prop where
  checkpoint : CheckpointGood t values s
  phase : ∀ p, s.phase = some p → PhaseGood values reader s p

theorem good_nil (t : KeyedTable κ) : Good t [] none where
  sound := ⟨List.nodup_nil, fun _ h => nomatch h⟩
  covers := fun _ _ h => nomatch h
  known := fun _ h => nomatch h

omit [LinearOrder κ] in
theorem read_save (hround : RoundTrips values t) {cursor : Option κ} (h : Known t cursor) :
    (cursor.map values.toText).map values.read = cursor := by
  cases cursor with
  | none => rfl
  | some k =>
    obtain ⟨r, hr, hk⟩ := h k rfl
    rw [Option.map_some, Option.map_some, hround r hr k hk]

theorem checkpointGood_save (hround : RoundTrips values t) {s : CopyState κ} {dest : List (Record κ)}
    {l : Loop κ} {done : Bool} (hdest : s.dest = some dest) (hgood : Good t dest l.lastKey)
    (hwhole : done = true → Whole t dest) (hcp : s.checkpoint = some (save values l done)) :
    CheckpointGood t values s := by
  intro cp h
  cases hcp.symm.trans h
  refine ⟨dest, hdest, ?_, hwhole⟩
  rw [save, read_save hround hgood.known]
  exact hgood

theorem writeRows_keep (hdistinguishes : Distinguishes engines kind t) {resumed : Bool}
    {dest dest' rows : List (Record κ)} (hsound : Sound t dest) (hrows : ∀ r ∈ rows, r ∈ t.rows)
    (h : rows.foldlM (writeRow engines kind resumed t.columns) dest = some dest') :
    Sound t dest' ∧ (∀ r ∈ dest, r ∈ dest') ∧ ∀ r ∈ rows, r ∈ dest' := by
  induction rows generalizing dest with
  | nil =>
    cases h
    exact ⟨hsound, fun _ h => h, fun _ h => nomatch h⟩
  | cons r rows ih =>
    rw [List.foldlM_cons] at h
    obtain ⟨mid, hmid, hrest⟩ := Option.bind_eq_some_iff.mp h
    have hr : r ∈ t.rows := hrows r List.mem_cons_self
    have hafter : Sound t mid ∧ (∀ x ∈ dest, x ∈ mid) ∧ r ∈ mid := by
      obtain ⟨hmem, rfl⟩ | ⟨hnew, rfl⟩ := writeRow_cases hdistinguishes hsound.within hr hmid
      · exact ⟨hsound, fun _ h => h, hmem⟩
      · refine ⟨⟨?_, ?_⟩, fun x hx => List.mem_append_left _ hx, List.mem_append_right _ List.mem_cons_self⟩
        · rw [List.nodup_append]
          refine ⟨hsound.nodup, List.nodup_singleton r, fun a ha b hb heq => ?_⟩
          rw [List.mem_singleton.mp hb] at heq
          exact hnew (heq ▸ ha)
        · intro x hx
          obtain hx | hx := List.mem_append.mp hx
          · exact hsound.within x hx
          · rwa [List.mem_singleton.mp hx]
    obtain ⟨hsound', hkept, hwritten⟩ :=
      ih hafter.1 (fun x hx => hrows x (List.mem_cons_of_mem r hx)) hrest
    refine ⟨hsound', fun x hx => hkept x (hafter.2.1 x hx), fun x hx => ?_⟩
    obtain rfl | hx := List.mem_cons.mp hx
    · exact hkept x hafter.2.2
    · exact hwritten x hx

theorem good_page {dest : List (Record κ)} {cursor : Option κ} (hgood : Good t dest cursor)
    (hne : reader.behind t.key cursor ≠ [])
    (hbatch : ∀ r ∈ reader.behind t.key cursor, r ∈ dest) :
    Good t dest ((reader.behind t.key cursor).getLast?.bind (value t.columns t.key)) ∧
      ((reader.behind t.key cursor).length < batchSize → Whole t dest) := by
  obtain ⟨l, hperm, hsorted, hread⟩ := reader.behind_answers t.key cursor
  rw [hread] at hne hbatch ⊢
  obtain ⟨last, hlast⟩ := Option.ne_none_iff_exists'.mp fun h => hne (List.getLast?_eq_none_iff.mp h)
  have hmem : last ∈ t.rows :=
    (List.mem_filter.mp (hperm.subset (List.mem_of_mem_take (List.mem_of_getLast? hlast)))).1
  obtain ⟨c, hc⟩ := Option.isSome_iff_exists.mp (t.key_present last hmem)
  rw [hlast, Option.bind_some, hc]
  refine ⟨⟨hgood.sound, fun r hr hbelow => ?_, ?_⟩, fun hshort r hr => ?_⟩
  · obtain ⟨k, hk⟩ := Option.isSome_iff_exists.mp (t.key_present r hr)
    have hcovers := page_covers hperm hsorted (fun a ha b hb => key_inj ha hb) hlast hc hr hk hbelow
    exact hcovers.elim (hgood.covers r hr) (hbatch r)
  · intro k hk
    cases hk
    exact ⟨last, hmem, hc⟩
  · cases habove : above (value t.columns t.key) cursor r with
    | false => exact hgood.covers r hr habove
    | true => exact hbatch r (page_short hperm hshort hr habove)

theorem whole_of_empty {dest : List (Record κ)} {cursor : Option κ} (hgood : Good t dest cursor)
    (hempty : reader.behind t.key cursor = []) : Whole t dest := by
  obtain ⟨l, hperm, -, hread⟩ := reader.behind_answers t.key cursor
  intro r hr
  cases habove : above (value t.columns t.key) cursor r with
  | false => exact hgood.covers r hr habove
  | true =>
    have hshort : (l.take batchSize).length < batchSize := by
      rw [← hread, hempty]
      exact batchSize.2
    have hmem := page_short hperm hshort hr habove
    rw [← hread, hempty] at hmem
    cases hmem

theorem good_mono {dest dest' : List (Record κ)} {cursor : Option κ} (h : Good t dest cursor)
    (hsound : Sound t dest') (hkept : ∀ r ∈ dest, r ∈ dest') : Good t dest' cursor :=
  ⟨hsound, fun r hr hbelow => hkept r (h.covers r hr hbelow), h.known⟩

theorem checkpointGood_mono {s s' : CopyState κ} (h : CheckpointGood t values s)
    {dest dest' : List (Record κ)} (hdest : s.dest = some dest) (hdest' : s'.dest = some dest')
    (hcp : s'.checkpoint = s.checkpoint) (hsound : Sound t dest') (hkept : ∀ r ∈ dest, r ∈ dest') :
    CheckpointGood t values s' := by
  intro cp hs
  obtain ⟨d, hd, hgood, hwhole⟩ := h cp (hcp ▸ hs)
  cases hdest.symm.trans hd
  exact ⟨dest', hdest', good_mono hgood hsound hkept, fun hdone r hr => hkept r (hwhole hdone r hr)⟩

theorem checkpointGood_congr {s s' : CopyState κ} (h : CheckpointGood t values s)
    (hdest : s'.dest = s.dest) (hcp : s'.checkpoint = s.checkpoint) : CheckpointGood t values s' := by
  unfold CheckpointGood
  rw [hdest, hcp]
  exact h

theorem sane_congr {s s' : CopyState κ} {p : Phase κ} (h : Sane values reader s)
    (hdest : s'.dest = s.dest) (hcp : s'.checkpoint = s.checkpoint) (hphase : s'.phase = some p)
    (hgood : PhaseGood values reader s' p) : Sane values reader s' := by
  refine ⟨checkpointGood_congr h.checkpoint hdest hcp, fun p' hp' => ?_⟩
  cases hphase.symm.trans hp'
  exact hgood

theorem sane_ended {s s' : CopyState κ} (h : Sane values reader s) (hdest : s'.dest = s.dest)
    (hcp : s'.checkpoint = s.checkpoint) (hphase : s'.phase = none) : Sane values reader s' := by
  refine ⟨checkpointGood_congr h.checkpoint hdest hcp, fun p hp => ?_⟩
  rw [hphase] at hp
  cases hp

theorem sane_opened {s : CopyState κ} (h : Sane values reader s) {start : Option (Start κ)}
    (hstart : start = getStart values s.checkpoint) (n : ℕ) :
    Sane values reader (advance engines values kind reader maxRows n s (.opened start)) := by
  cases start with
  | none =>
    have hcp : s.checkpoint = none := Option.map_eq_none_iff.mp hstart.symm
    refine ⟨fun cp hs => ?_, fun p hp => ?_⟩
    · exact absurd (hcp.symm.trans hs) (Option.some_ne_none cp).symm
    · cases hp
      exact hcp
  | some start =>
    obtain ⟨cp, hcp, rfl⟩ := Option.map_eq_some_iff.mp hstart.symm
    obtain ⟨dest, hdest, hgood, hwhole⟩ := h.checkpoint cp hcp
    simp only [advance, Option.any_some]
    split
    · rename_i hdone
      exact sane_congr h rfl rfl rfl ⟨dest, hdest, hgood.sound, hwhole hdone⟩
    · -- the table is there, so the run resumes
      have hresume : ∀ start : Start κ, canResume kind (some start) (some dest) = true := fun _ => rfl
      simp only [hdest, Option.filter_some, hresume, ↓reduceIte, Option.getD_some]
      exact sane_congr h hdest.symm rfl rfl ⟨dest, rfl, hgood⟩

theorem sane_advance (hexact : Exact engines t.toSourceTable) (hround : RoundTrips values t) (hdistinguishes : Distinguishes engines kind t)
    {s : CopyState κ} (h : Sane values reader s) {p : Phase κ} (hp : s.phase = some p) (n : ℕ) :
    Sane values reader (advance engines values kind reader maxRows n s p) := by
  have hphase := h.phase p hp
  cases p with
  | opened start => exact sane_opened h hphase n
  | dropped =>
    refine ⟨fun cp hs => ?_, fun p hp => ?_⟩
    · exact absurd (hphase.symm.trans hs) (Option.some_ne_none cp).symm
    · cases hp
      exact ⟨[], rfl, good_nil t⟩
  | created l =>
    obtain ⟨dest, hdest, hgood⟩ := hphase
    refine ⟨checkpointGood_save hround hdest hgood (fun hno => absurd hno Bool.false_ne_true) rfl, fun p hp => ?_⟩
    cases hp
    exact ⟨dest, hdest, hgood⟩
  | reading l =>
    obtain ⟨dest, hdest, hgood⟩ := hphase
    simp only [advance, behind_exact hexact]
    split
    · rename_i hempty
      exact sane_congr h rfl rfl rfl ⟨dest, hdest, hgood, whole_of_empty hgood hempty⟩
    · rename_i r rows hbatch
      refine sane_congr h rfl rfl rfl ⟨dest, hdest, hgood, hbatch.symm, List.cons_ne_nil _ _, ?_, ?_⟩
      · exact fun x hx => hx
      · exact fun x hx => .inl hx
  | writing l batch pending =>
    obtain ⟨dest, hdest, hgood, hbatch, hne, hpending, hsplit⟩ := hphase
    cases pending with
    | nil =>
      have hall : ∀ r ∈ batch, r ∈ dest := fun r hr => (hsplit r hr).resolve_left (List.not_mem_nil)
      subst hbatch
      exact sane_congr h rfl rfl rfl ⟨dest, hdest, good_page hgood hne hall⟩
    | cons r pending =>
      have hrows : ∀ x ∈ (r :: pending).take (n + 1), x ∈ t.rows := by
        intro x hx
        have hmem := hpending x (List.mem_of_mem_take hx)
        obtain ⟨l', hperm, -, hread⟩ := reader.behind_answers t.key l.lastKey
        rw [hbatch, hread] at hmem
        exact (List.mem_filter.mp (hperm.subset (List.mem_of_mem_take hmem))).1
      simp only [advance, hdest, Option.getD_some]
      split
      · exact sane_ended h hdest.symm rfl rfl
      · rename_i dest' hwrite
        obtain ⟨hsound, hkept, hwritten⟩ := writeRows_keep hdistinguishes hgood.sound hrows hwrite
        refine ⟨checkpointGood_mono h.checkpoint hdest rfl rfl hsound hkept, fun p hp => ?_⟩
        cases hp
        refine ⟨dest', rfl, good_mono hgood hsound hkept, hbatch, hne, ?_, ?_⟩
        · exact fun x hx => hpending x (List.mem_of_mem_drop hx)
        · intro x hx
          obtain hx | hx := hsplit x hx
          · rw [← List.take_append_drop (n + 1) (r :: pending)] at hx
            exact (List.mem_append.mp hx).symm.imp_right (hwritten x)
          · exact .inr (hkept x hx)
  | written l size =>
    obtain ⟨dest, hdest, hgood, hwhole⟩ := hphase
    refine ⟨checkpointGood_save hround hdest hgood (fun hno => absurd hno Bool.false_ne_true) rfl, fun p hp => ?_⟩
    cases hp
    exact ⟨dest, hdest, hgood, hwhole⟩
  | saved l size =>
    obtain ⟨dest, hdest, hgood, hwhole⟩ := hphase
    simp only [advance]
    split
    · exact sane_congr h rfl rfl rfl ⟨dest, hdest, hgood, hwhole (by assumption)⟩
    · split
      · exact sane_ended h rfl rfl rfl
      · exact sane_congr h rfl rfl rfl ⟨dest, hdest, hgood⟩
  | completing l =>
    obtain ⟨dest, hdest, hgood, hwhole⟩ := hphase
    refine ⟨checkpointGood_save hround hdest hgood (fun _ => hwhole) rfl, fun p hp => ?_⟩
    cases hp
    exact ⟨dest, hdest, hgood.sound, hwhole⟩
  | finished => exact h

theorem sane_step (hexact : Exact engines t.toSourceTable) (hround : RoundTrips values t) (hdistinguishes : Distinguishes engines kind t)
    {s s' : CopyState κ} {e : Event} (h : Sane values reader s)
    (hstep : step engines values kind reader maxRows s e = some s') : Sane values reader s' := by
  cases e with
  | start =>
    simp only [step] at hstep
    split at hstep
    · cases hstep
      exact sane_congr h rfl rfl rfl rfl
    · cases hstep
      exact sane_congr h rfl rfl rfl rfl
    · cases hstep
  | advance n =>
    obtain ⟨p, hp, rfl⟩ := Option.map_eq_some_iff.mp hstep
    exact sane_advance hexact hround hdistinguishes h hp n
  | pause =>
    simp only [step] at hstep
    split at hstep
    · cases hstep
      exact sane_ended h rfl rfl rfl
    · cases hstep
  | crash =>
    cases hstep
    exact sane_ended h rfl rfl rfl

end Invariant

def orderNumbers : KeyValues ℕ := ⟨Nat.repr, fun _ => 0, Int.toNat⟩

def orders : KeyedTable ℕ where
  columns := [⟨"id", true⟩, ⟨"_id", false⟩]
  rows := [[some 1, some 7], [some 2, some 7]]
  key_unique := fun _ => by decide
  key := "id"
  key_only := rfl
  key_present := by decide

def oneByOne : ℕ+ := ⟨1, Nat.one_pos⟩

theorem roundTrips_orders : RoundTrips orderNumbers orders := by
  intro r hr k hk
  have hkeys : k = 1 ∨ k = 2 := by
    simp only [orders, List.mem_cons, List.not_mem_nil, or_false] at hr
    obtain rfl | rfl := hr
    · exact .inl (Option.some.inj hk).symm
    · exact .inr (Option.some.inj hk).symm
  obtain rfl | rfl := hkeys <;> rfl

def untouched : CopyState ℕ := ⟨none, none, none⟩

def crashedOnce : List Event :=
  .start :: List.replicate 5 (.advance 0) ++ .crash :: .start :: List.replicate 14 (.advance 0)

def copyOrders (kind : DestKind) : CopyState ℕ → Event → Option (CopyState ℕ) :=
  step asIs orderNumbers kind (sortedReader orders.toSourceTable oneByOne) 100

end DataFabric.ResumedCopies
