import DataFabric.CharText
import DataFabric.NumberedLogs
import DataFabric.ReplicaTables
import Mathlib.Data.PNat.Notation

set_option autoImplicit false

/-!
# Change capture and the loop that drains it

A trigger of the source writes one numbered entry for each changed row into the outbox of the
table; a consumer reads the entries above its saved position in batches, applies them, saves the
position and prunes.
-/
namespace DataFabric.CdcCapture

open NumberedLogs ReplicaTables

inductive CaptureEngine | postgres | mysql | oracle
deriving DecidableEq

/-- `replace(/[^a-zA-Z0-9_]/g, '_')`, which sees the two halves of a wide character. -/
def safe (s : String) : String :=
  String.ofList (s.toList.flatMap fun c =>
    if CharText.isWord c then [c] else if c.toNat < 65536 then ['_'] else ['_', '_'])

structure Names where
  base : String
  pgLog : String
  pgFn : String
  pgTrg : String
  myLog : String

def names (schema table : String) : Names :=
  let base := safe schema ++ "_" ++ safe table
  { base, pgLog := base ++ "_chg", pgFn := base ++ "_cdc_fn", pgTrg := base ++ "_cdc",
    myLog := "fabric_cdc_" ++ base ++ "_chg" }

/-- Where the outbox of a table lies: the schema, and the table's name in it. -/
def outboxOf (engine : CaptureEngine) (schema table : String) : Option String × String :=
  match engine with
  | .postgres => (some "fabric_cdc", (names schema table).pgLog)
  | .mysql => (some schema, (names schema table).myLog)
  -- unqualified, so in the schema of the connection
  | .oracle => (none, CharText.upperCase (names schema table).myLog)

inductive Op | I | U | D
deriving DecidableEq

theorem Op.insert_ne : Op.I ≠ .D := by decide

theorem Op.update_ne : Op.U ≠ .D := by decide

structure ChangeRow (κ ν : Type*) where
  op : Op
  pk : κ
  doc : Row κ ν
deriving DecidableEq

section Trigger

variable {κ ν : Type*} [DecidableEq κ] [DecidableEq ν]

inductive Write (κ ν : Type*)
  | insert (row : Row κ ν)
  | update (old new : Row κ ν)
  | delete (old : Row κ ν)

/-- What the row trigger records: the key of the new row, of the old one only for a deletion. -/
def captured : Write κ ν → ChangeRow κ ν
  | .insert row => ⟨.I, row.lead, row⟩
  | .update _ new => ⟨.U, new.lead, new⟩
  | .delete old => ⟨.D, old.lead, old⟩

/-- The source table refuses rows of another shape and second rows of one key. -/
def applyWrite (t : TableInfo) (rows : List (Row κ ν)) : Write κ ν → Option (List (Row κ ν))
  | .insert row =>
    if row.others.length = t.width ∧ rows.any (samePk row) = false then some (rows ++ [row]) else none
  | .update old new =>
    if new.others.length = t.width ∧ old ∈ rows ∧ (rows.filter (· ≠ old)).any (samePk new) = false
    then some (rows.map fun s => if s = old then new else s) else none
  | .delete old => if old ∈ rows then some (rows.filter (· ≠ old)) else none

/-- `DestOps.upsert` or `DestOps.del`, by the kind of change. -/
def applyChange (kind : DestKind) (t : TableInfo) (rows : List (Row κ ν)) (c : ChangeRow κ ν) :
    Option (List (Row κ ν)) :=
  if c.op = .D then some (del kind t rows c.pk) else upsert kind t rows c.doc

def touched : Write κ ν → List κ
  | .insert row => [row.lead]
  | .update old new => [old.lead, new.lead]
  | .delete old => [old.lead]

def KeepsKey : Write κ ν → Prop
  | .update old new => new.lead = old.lead
  | _ => True

instance (w : Write κ ν) : Decidable (KeepsKey w) := by
  cases w <;> unfold KeepsKey <;> infer_instance

end Trigger

/-- `COPY_BATCH`, the batch of a job without one of its own. -/
def copyBatch : ℕ+ := ⟨1000, by decide⟩

inductive Phase (α : Type*)
  | idle
  | reading (seq applied : ℕ)
  | applying (rest : List (Entry α)) (seq applied : ℕ) (short : Bool)
  | pruning (seq : ℕ)
deriving DecidableEq

structure Consumer (α δ : Type*) where
  saved : ℕ
  phase : Phase α
  /-- Every entry a read has returned so far. -/
  read : List (Entry α)
  sink : δ

section Loop

variable {α δ : Type*} (apply : δ → Entry α → Option δ) (batchSize : ℕ+)

/-- One step of the drain: a statement against the outbox, the destination or the saved position. -/
def consume (log : List (Entry α)) (c : Consumer α δ) : Option (List (Entry α) × Consumer α δ) :=
  match c.phase with
  | .idle => some (log, { c with phase := .reading c.saved 0 })
  | .reading seq applied =>
    match readBatch log seq batchSize with
    | [] => some (log, { c with phase := if applied = 0 then .idle else .pruning seq })
    | e :: rest =>
      some (log, { c with
        phase := .applying (e :: rest) seq applied (decide (rest.length + 1 < batchSize))
        read := c.read ++ e :: rest })
  | .applying (e :: rest) _ applied short =>
    (apply c.sink e).map fun sink =>
      (log, { c with phase := .applying rest e.seq (applied + 1) short, sink })
  | .applying [] seq applied short =>
    some (log, { c with saved := seq, phase := if short then .pruning seq else .reading seq applied })
  | .pruning seq => some (pruneUpTo log seq, { c with phase := .idle })

def drains : ℕ → List (Entry α) × Consumer α δ → Option (List (Entry α) × Consumer α δ)
  | 0, x => some x
  | n + 1, x => (consume apply batchSize x.1 x.2).bind (drains n)

end Loop

/-- The number up to which the consumer has handled entries. -/
def Consumer.current {α δ : Type*} (c : Consumer α δ) : ℕ :=
  match c.phase with
  | .idle => c.saved
  | .reading seq _ => seq
  | .applying _ seq _ _ => seq
  | .pruning seq => seq

def Consumer.batch {α δ : Type*} (c : Consumer α δ) : List (Entry α) :=
  match c.phase with
  | .applying rest _ _ _ => rest
  | _ => []

def Consumer.crash {α δ : Type*} (c : Consumer α δ) : Consumer α δ := { c with phase := .idle }

section Loop

variable {α δ : Type*} {apply : δ → Entry α → Option δ} {batchSize : ℕ+}
variable {log log' : List (Entry α)} {c c' : Consumer α δ}

theorem consume_idle (hp : c.phase = .idle) :
    consume apply batchSize log c = some (log, { c with phase := .reading c.saved 0 }) := by
  simp [consume, hp]

theorem consume_fetch {seq applied : ℕ} (hp : c.phase = .reading seq applied)
    (hbatch : readBatch log seq batchSize ≠ []) :
    consume apply batchSize log c = some (log, { c with
      phase := .applying (readBatch log seq batchSize) seq applied
        (decide ((readBatch log seq batchSize).length < batchSize))
      read := c.read ++ readBatch log seq batchSize }) := by
  cases hb : readBatch log seq batchSize with
  | nil => exact absurd hb hbatch
  | cons e rest => simp [consume, hp, hb]

theorem consume_done {seq applied : ℕ} (hp : c.phase = .reading seq applied)
    (hbatch : readBatch log seq batchSize = []) :
    consume apply batchSize log c =
      some (log, { c with phase := if applied = 0 then .idle else .pruning seq }) := by
  simp [consume, hp, hbatch]

theorem consume_apply {e : Entry α} {rest : List (Entry α)} {seq applied : ℕ} {short : Bool} {sink : δ}
    (hp : c.phase = .applying (e :: rest) seq applied short) (hsink : apply c.sink e = some sink) :
    consume apply batchSize log c =
      some (log, { c with phase := .applying rest e.seq (applied + 1) short, sink }) := by
  simp [consume, hp, hsink]

theorem consume_save {seq applied : ℕ} {short : Bool} (hp : c.phase = .applying [] seq applied short) :
    consume apply batchSize log c = some (log, { c with
      saved := seq, phase := if short then .pruning seq else .reading seq applied }) := by
  simp [consume, hp]

theorem consume_prune {seq : ℕ} (hp : c.phase = .pruning seq) :
    consume apply batchSize log c = some (pruneUpTo log seq, { c with phase := .idle }) := by
  simp [consume, hp]

theorem consume_cases (h : consume apply batchSize log c = some (log', c')) :
    (c.phase = .idle ∧ log' = log ∧ c' = { c with phase := .reading c.saved 0 }) ∨
    (∃ seq applied, c.phase = .reading seq applied ∧ pending log seq = [] ∧ log' = log ∧
      c' = { c with phase := if applied = 0 then .idle else .pruning seq }) ∨
    (∃ seq applied, c.phase = .reading seq applied ∧ readBatch log seq batchSize ≠ [] ∧
      log' = log ∧ c' = { c with
        phase := .applying (readBatch log seq batchSize) seq applied
          (decide ((readBatch log seq batchSize).length < batchSize))
        read := c.read ++ readBatch log seq batchSize }) ∨
    (∃ e rest seq applied short sink, c.phase = .applying (e :: rest) seq applied short ∧
      apply c.sink e = some sink ∧ log' = log ∧
      c' = { c with phase := .applying rest e.seq (applied + 1) short, sink }) ∨
    (∃ seq applied short, c.phase = .applying [] seq applied short ∧ log' = log ∧ c' = { c with
        saved := seq, phase := if short then .pruning seq else .reading seq applied }) ∨
    (∃ seq, c.phase = .pruning seq ∧ log' = pruneUpTo log seq ∧ c' = { c with phase := .idle }) := by
  cases hp : c.phase with
  | idle =>
    rw [consume_idle hp] at h
    obtain ⟨rfl, rfl⟩ := Prod.mk.inj (Option.some.inj h)
    exact .inl ⟨rfl, rfl, rfl⟩
  | reading seq applied =>
    refine .inr ?_
    by_cases hbatch : readBatch log seq batchSize = []
    · rw [consume_done hp hbatch] at h
      obtain ⟨rfl, rfl⟩ := Prod.mk.inj (Option.some.inj h)
      exact .inl ⟨seq, applied, rfl, readBatch_eq_nil batchSize.2 hbatch, rfl, rfl⟩
    · rw [consume_fetch hp hbatch] at h
      obtain ⟨rfl, rfl⟩ := Prod.mk.inj (Option.some.inj h)
      exact .inr (.inl ⟨seq, applied, rfl, hbatch, rfl, rfl⟩)
  | applying rest seq applied short =>
    cases rest with
    | nil =>
      rw [consume_save hp] at h
      obtain ⟨rfl, rfl⟩ := Prod.mk.inj (Option.some.inj h)
      exact .inr (.inr (.inr (.inr (.inl ⟨seq, applied, short, rfl, rfl, rfl⟩))))
    | cons e rest =>
      simp only [consume, hp, Option.map_eq_some_iff] at h
      obtain ⟨sink, hsink, heq⟩ := h
      obtain ⟨rfl, rfl⟩ := Prod.mk.inj heq
      exact .inr (.inr (.inr (.inl ⟨e, rest, seq, applied, short, sink, rfl, hsink, rfl, rfl⟩)))
  | pruning seq =>
    rw [consume_prune hp] at h
    obtain ⟨rfl, rfl⟩ := Prod.mk.inj (Option.some.inj h)
    exact .inr (.inr (.inr (.inr (.inr ⟨seq, rfl, rfl, rfl⟩))))

end Loop

end DataFabric.CdcCapture
