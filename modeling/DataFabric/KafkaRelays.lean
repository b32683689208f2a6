import DataFabric.CdcCapture
import DataFabric.JsValues
import DataFabric.OrderedRecords
import DataFabric.ReplayedLogs
import DataFabric.Restores
import DataFabric.TransitionRuns
import Mathlib.Data.PNat.Defs

set_option autoImplicit false

/-!
# Changes delivered through Kafka

A producer drains the outbox of each source table into a topic, a consumer applies the topic to an index of
Elasticsearch. Both keep their place outside of the process, and both start over from there after a crash.

The numbers of an outbox follow the order of its commits, one producer drains it, and the index takes every document.
-/
namespace DataFabric.KafkaRelays
open NumberedLogs ReplayedLogs TransitionRuns JsValues OrderedRecords
open CdcCapture (Op)

abbrev Document := Record String JsValue

/-- A row of the outbox: the operation, the key as text and the row. -/
structure Change where
  op : Op
  pk : String
  doc : Document

abbrev Origin := String × String

structure Message where
  origin : Origin
  entry : Entry Change

namespace Message

def change (m : Message) : Change := m.entry.change

def key (m : Message) : String := m.origin.2 ++ ":" ++ m.change.pk

/-- The document of the message: a column `_id` of the row takes the place of the key. -/
def documentId (c : Change) : Option String :=
  if c.op = .D then some c.pk
  else match c.doc.get? "_id" with
    | none => some c.pk
    | some v => if v.isNullish then none else some v.text

/-- Index and document; none where Elasticsearch names the document itself. -/
def place (destSchema : String) (m : Message) : Option (String × String) :=
  (documentId m.change).map fun id => (Restores.esIndex destSchema m.origin.2, id)

def effect (m : Message) : Option Document :=
  if m.change.op = .D then none else some (m.change.doc.restrict (· ≠ "_id"))

end Message

inductive Phase
  | idle
  | reading (seq published : ℕ)
  | sending (batch : List (Entry Change)) (published : ℕ)
  | acked (batch : List (Entry Change)) (published : ℕ)
  | pruning (seq : ℕ)

structure Source where
  nextSeq : ℕ
  outbox : List (Entry Change)
  /-- Every change so far, in its order. -/
  recorded : List (Entry Change)
  /-- `fabric_system.cdc_kafka_offset` -/
  saved : ℕ
  phase : Phase

def capture (s : Source) (c : Change) : Source := { s with
  nextSeq := s.nextSeq + 1
  outbox := s.outbox ++ [⟨s.nextSeq, c⟩]
  recorded := s.recorded ++ [⟨s.nextSeq, c⟩] }

def produce (batchSize : ℕ+) (s : Source) : Source × List (Entry Change) :=
  match s.phase with
  | .idle => ({ s with phase := .reading s.saved 0 }, [])
  | .reading seq published =>
    match readBatch s.outbox seq batchSize with
    | [] => ({ s with phase := if published = 0 then .idle else .pruning seq }, [])
    | e :: rest => ({ s with phase := .sending (e :: rest) published }, [])
  | .sending batch published => ({ s with phase := .acked batch published }, batch)
  -- the offset moves only after the acknowledgement
  | .acked batch published =>
    let seq := lastNumber s.saved batch
    ({ s with
      saved := seq
      phase := if batch.length < batchSize then .pruning seq else .reading seq (published + batch.length) }, [])
  | .pruning seq => ({ s with outbox := pruneUpTo s.outbox seq, phase := .idle }, [])

/-- What may have reached the brokers when the producer dies. -/
def underway (s : Source) : List (Entry Change) :=
  match s.phase with
  | .sending batch _ => batch
  | _ => []

structure World (π : Type*) where
  sources : Origin → Source
  topic : π → List Message
  /-- The offset committed for the group, and the consumer's place in memory. -/
  committed : π → ℕ
  position : π → ℕ
  docs : String × String → Option Document
  /-- Documents that Elasticsearch has named, with their index. -/
  unnamed : List (String × Document)

inductive Event (π : Type*)
  | write (o : Origin) (c : Change)
  | produce (o : Origin)
  /-- The batch may have reached some partitions. -/
  | crashProducer (o : Origin) (reached : π → Bool)
  | consume (p : π)
  | commit (p : π) (offset : ℕ)
  | crashConsumer

section Pipeline
variable {π : Type*} [DecidableEq π] (batchSize : ℕ+) (destSchema : String) (partitionOf : String → π)

/-- The messages of a batch, each in the partition of its key. -/
def send (topic : π → List Message) (o : Origin) (batch : List (Entry Change)) (reached : π → Bool) :
    π → List Message := fun p =>
  topic p ++ (batch.map (Message.mk o)).filter fun m => reached p && decide (partitionOf m.key = p)

def apply (w : World π) (m : Message) : World π :=
  match m.place destSchema with
  | some d => { w with docs := Function.update w.docs d m.effect }
  | none => { w with
      unnamed := w.unnamed ++ [(Restores.esIndex destSchema m.origin.2, m.change.doc.restrict (· ≠ "_id"))] }

def step (w : World π) : Event π → Option (World π)
  | .write o c => some { w with sources := Function.update w.sources o (capture (w.sources o) c) }
  | .produce o =>
    let next := produce batchSize (w.sources o)
    some { w with
      sources := Function.update w.sources o next.1
      topic := send partitionOf w.topic o next.2 fun _ => true }
  | .crashProducer o reached =>
    some { w with
      sources := Function.update w.sources o { w.sources o with phase := .idle }
      topic := send partitionOf w.topic o (underway (w.sources o)) reached }
  -- `resolveOffset` follows the write to the index
  | .consume p =>
    ((w.topic p)[w.position p]?).map fun m =>
      { apply destSchema w m with position := Function.update w.position p (w.position p + 1) }
  | .commit p offset =>
    if offset ≤ w.position p then some { w with committed := Function.update w.committed p offset } else none
  | .crashConsumer => some { w with position := w.committed }

/-- The snapshot has been copied: what has been recorded since its baseline is still in the outbox. -/
structure Baselined (s : Source) : Prop where
  numbered : Numbered s.outbox
  ordered : s.recorded.Pairwise fun a b => a.seq < b.seq
  since : ∀ e ∈ s.recorded, s.saved < e.seq ∧ e ∈ s.outbox
  older : ∀ e ∈ s.outbox, e ∈ s.recorded ∨ e.seq ≤ s.saved
  next : s.saved < s.nextSeq ∧ ∀ e ∈ s.outbox, e.seq < s.nextSeq
  idle : s.phase = .idle

def start (docs : String × String → Option Document) : Set (World π) := fun w =>
  (∀ o, Baselined (w.sources o)) ∧ (∀ p, w.topic p = [] ∧ w.committed p = 0 ∧ w.position p = 0) ∧ w.docs = docs

end Pipeline

/-- The batch is a part of what has not been published, up to a number. -/
structure Batch (s : Source) (batch : List (Entry Change)) : Prop where
  filled : batch ≠ []
  ordered : batch.Pairwise fun a b => a.seq < b.seq
  fresh : ∀ e ∈ batch, e ∈ s.recorded ∧ s.saved < e.seq
  rest : ∀ e ∈ s.recorded, s.saved < e.seq → e ∈ batch ∨ ∀ x ∈ batch, x.seq < e.seq

def acknowledged (s : Source) : ℕ :=
  match s.phase with
  | .acked batch _ => lastNumber s.saved batch
  | _ => s.saved

def Holds (s : Source) : Phase → Prop
  | .idle => True
  | .reading seq _ | .pruning seq => seq = s.saved
  | .sending batch _ | .acked batch _ => Batch s batch

structure Tidy (s : Source) : Prop where
  numbered : Numbered s.outbox
  ordered : s.recorded.Pairwise fun a b => a.seq < b.seq
  kept : ∀ e ∈ s.recorded, s.saved < e.seq → e ∈ s.outbox
  older : ∀ e ∈ s.outbox, e ∈ s.recorded ∨ e.seq ≤ s.saved
  next : s.saved < s.nextSeq
  below : ∀ e, e ∈ s.outbox ∨ e ∈ s.recorded → e.seq < s.nextSeq
  phase : Holds s s.phase

section Producer
variable {batchSize : ℕ+} {s : Source} {e : Entry Change} {batch : List (Entry Change)}

theorem tidy_baselined (h : Baselined s) : Tidy s where
  numbered := h.numbered
  ordered := h.ordered
  kept e he _ := (h.since e he).2
  older := h.older
  next := h.next.1
  below e he := h.next.2 e (he.elim id fun inside => (h.since e inside).2)
  phase := by rw [h.idle]; trivial

theorem Batch.upTo (h : Batch s batch) (he : e ∈ s.recorded) (new : s.saved < e.seq)
    (upTo : e.seq ≤ lastNumber s.saved batch) : e ∈ batch := by
  rcases h.rest e he new with inside | beyond
  · exact inside
  · obtain ⟨x, hx, last⟩ : ∃ x ∈ batch, lastNumber s.saved batch = x.seq := lastNumber_mem h.filled
    have less := beyond x hx
    omega

theorem Batch.le_last (h : Batch s batch) (he : e ∈ batch) : e.seq ≤ lastNumber s.saved batch := by
  obtain ⟨front, x, rfl⟩ := List.eq_nil_or_concat batch |>.resolve_left h.filled
  rw [List.concat_eq_append] at he ⊢
  rw [lastNumber_append, lastNumber_cons]
  change e.seq ≤ x.seq
  have ordered := h.ordered
  rw [List.concat_eq_append, List.pairwise_append] at ordered
  rcases List.mem_append.mp he with inFront | last
  · exact (ordered.2.2 e inFront x (List.mem_singleton_self x)).le
  · rw [List.mem_singleton.mp last]

theorem Batch.saved_lt (h : Batch s batch) : s.saved < lastNumber s.saved batch := by
  obtain ⟨x, hx, last⟩ : ∃ x ∈ batch, lastNumber s.saved batch = x.seq := lastNumber_mem h.filled
  rw [last]
  exact (h.fresh x hx).2

theorem saved_le_acknowledged (h : Tidy s) : s.saved ≤ acknowledged s := by
  have inPhase := h.phase
  unfold acknowledged
  split
  · rename_i batch published hphase
    rw [hphase] at inPhase
    exact inPhase.saved_lt.le
  · exact le_rfl

theorem acknowledged_lt (h : Tidy s) : acknowledged s < s.nextSeq := by
  have inPhase := h.phase
  unfold acknowledged
  cases hphase : s.phase with
  | acked batch published =>
    rw [hphase] at inPhase
    obtain ⟨x, hx, last⟩ : ∃ x ∈ batch, lastNumber s.saved batch = x.seq := lastNumber_mem inPhase.filled
    dsimp only
    rw [last]
    exact h.below x (.inr (inPhase.fresh x hx).1)
  | _ => exact h.next

theorem batch_read (h : Tidy s) {rest : List (Entry Change)}
    (read : readBatch s.outbox s.saved batchSize = e :: rest) : Batch s (e :: rest) where
  filled := List.cons_ne_nil e rest
  ordered := by
    rw [← read]
    exact (pending_strict h.numbered s.saved).sublist (List.take_sublist _ _)
  fresh x hx := by
    rw [← read] at hx
    have ⟨inside, new⟩ := mem_readBatch hx
    exact ⟨(h.older x inside).resolve_right (by omega), new⟩
  rest x hx new := by
    rw [← read]
    exact readBatch_rest h.numbered (h.kept x hx new) new

/-! What one step of the producer does. -/

theorem produce_sends (s : Source) : (produce batchSize s).2 = underway s := by
  unfold produce underway
  cases s.phase with
  | reading seq published =>
    dsimp only
    cases readBatch s.outbox seq batchSize <;> rfl
  | _ => rfl

theorem produce_recorded (s : Source) : (produce batchSize s).1.recorded = s.recorded := by
  unfold produce
  cases s.phase with
  | reading seq published =>
    dsimp only
    cases readBatch s.outbox seq batchSize <;> rfl
  | _ => rfl

theorem underway_fresh (h : Tidy s) (he : e ∈ underway s) : e ∈ s.recorded ∧ acknowledged s < e.seq := by
  have inPhase := h.phase
  unfold underway at he
  unfold acknowledged
  cases hphase : s.phase with
  | sending batch published =>
    rw [hphase] at he inPhase
    exact inPhase.fresh e he
  | _ =>
    rw [hphase] at he
    cases he

theorem underway_ordered (h : Tidy s) : (underway s).Pairwise fun a b => a.seq < b.seq := by
  have inPhase := h.phase
  unfold underway
  cases hphase : s.phase with
  | sending batch published =>
    rw [hphase] at inPhase
    exact inPhase.ordered
  | _ => exact List.Pairwise.nil

theorem produce_acknowledged (h : Tidy s) (he : e ∈ s.recorded)
    (upTo : e.seq ≤ acknowledged (produce batchSize s).1) : e.seq ≤ acknowledged s ∨ e ∈ underway s := by
  have inPhase := h.phase
  unfold produce acknowledged at upTo
  unfold acknowledged underway
  cases hphase : s.phase with
  | reading seq published =>
    rw [hphase] at upTo
    left
    cases hread : readBatch s.outbox seq batchSize with
    | nil =>
      simp only [hread] at upTo
      by_cases hnone : published = 0
      · rwa [if_pos hnone] at upTo
      · rwa [if_neg hnone] at upTo
    | cons x rest => simpa only [hread] using upTo
  | sending batch published =>
    rw [hphase] at upTo inPhase
    by_cases old : e.seq ≤ s.saved
    · exact .inl old
    · exact .inr (inPhase.upTo he (by omega) upTo)
  | acked batch published =>
    rw [hphase] at upTo
    left
    by_cases hshort : batch.length < batchSize
    · simpa only [if_pos hshort] using upTo
    · simpa only [if_neg hshort] using upTo
  | idle =>
    rw [hphase] at upTo
    exact .inl upTo
  | pruning seq =>
    rw [hphase] at upTo
    exact .inl upTo

theorem Tidy.phased (h : Tidy s) (phase : Phase) (hphase : Holds s phase) : Tidy { s with phase := phase } where
  numbered := h.numbered
  ordered := h.ordered
  kept := h.kept
  older := h.older
  next := h.next
  below := h.below
  phase := by
    cases phase with
    | sending batch published => exact ⟨hphase.filled, hphase.ordered, hphase.fresh, hphase.rest⟩
    | acked batch published => exact ⟨hphase.filled, hphase.ordered, hphase.fresh, hphase.rest⟩
    | _ => exact hphase

theorem Tidy.advance (h : Tidy s) (hbatch : Batch s batch) (phase : Phase)
    (hphase : (∃ published, phase = .reading (lastNumber s.saved batch) published) ∨
      phase = .pruning (lastNumber s.saved batch)) :
    Tidy { s with saved := lastNumber s.saved batch, phase := phase } where
  numbered := h.numbered
  ordered := h.ordered
  kept e he new := h.kept e he (hbatch.saved_lt.trans new)
  older e he := (h.older e he).imp_right fun old => old.trans hbatch.saved_lt.le
  next := by
    obtain ⟨x, hx, last⟩ : ∃ x ∈ batch, lastNumber s.saved batch = x.seq := lastNumber_mem hbatch.filled
    rw [last]
    exact h.below x (.inr (hbatch.fresh x hx).1)
  below := h.below
  phase := by
    rcases hphase with ⟨published, rfl⟩ | rfl
    · rfl
    · rfl

theorem Tidy.prune (h : Tidy s) : Tidy { s with outbox := pruneUpTo s.outbox s.saved, phase := .idle } where
  numbered := numbered_prune h.numbered s.saved
  ordered := h.ordered
  kept e he new := mem_pruneUpTo.mpr ⟨h.kept e he new, new⟩
  older e he := h.older e (mem_pruneUpTo.mp he).1
  next := h.next
  below e he := h.below e (he.imp_left fun inside => (mem_pruneUpTo.mp inside).1)
  phase := trivial

theorem tidy_produce (h : Tidy s) : Tidy (produce batchSize s).1 := by
  have inPhase := h.phase
  unfold produce
  cases hphase : s.phase with
  | idle => exact h.phased _ rfl
  | reading seq published =>
    rw [hphase] at inPhase
    change seq = s.saved at inPhase
    subst inPhase
    cases hread : readBatch s.outbox s.saved batchSize with
    | nil =>
      by_cases hnone : published = 0
      · simpa only [hread, if_pos hnone] using h.phased .idle trivial
      · simpa only [hread, if_neg hnone] using h.phased (.pruning s.saved) rfl
    | cons x rest => simpa only [hread] using h.phased (.sending (x :: rest) published) (batch_read h hread)
  | sending batch published =>
    rw [hphase] at inPhase
    exact h.phased _ inPhase
  | acked batch published =>
    rw [hphase] at inPhase
    apply h.advance inPhase
    by_cases hshort : batch.length < batchSize
    · exact .inr (if_pos hshort)
    · exact .inl ⟨_, if_neg hshort⟩
  | pruning seq =>
    rw [hphase] at inPhase
    change seq = s.saved at inPhase
    subst inPhase
    exact h.prune

theorem tidy_crash (h : Tidy s) : Tidy { s with phase := .idle } := h.phased .idle trivial

theorem tidy_capture (h : Tidy s) (c : Change) : Tidy (capture s c) where
  numbered := by
    apply numbered_append h.numbered (by simp [Numbered])
    intro a ha b hb
    rw [List.mem_singleton.mp hb]
    exact (h.below a (.inl ha)).ne
  ordered := by
    refine List.pairwise_append.mpr ⟨h.ordered, List.pairwise_singleton _ _, fun a ha b hb => ?_⟩
    rw [List.mem_singleton.mp hb]
    exact h.below a (.inr ha)
  kept e he new := by
    rcases List.mem_append.mp he with before | now
    · exact List.mem_append_left _ (h.kept e before new)
    · exact List.mem_append_right _ now
  older e he := by
    rcases List.mem_append.mp he with before | now
    · exact (h.older e before).imp_left (List.mem_append_left _)
    · exact .inl (List.mem_append_right _ now)
  next := h.next.trans (Nat.lt_succ_self _)
  below e he := by
    have either : (e ∈ s.outbox ∨ e ∈ s.recorded) ∨ e = ⟨s.nextSeq, c⟩ := by
      simp only [capture, List.mem_append, List.mem_singleton] at he
      tauto
    rcases either with before | rfl
    · exact (h.below e before).trans (Nat.lt_succ_self _)
    · exact Nat.lt_succ_self _
  phase := by
    have grown : ∀ batch, Batch s batch → Batch (capture s c) batch := by
      intro batch hbatch
      refine ⟨hbatch.filled, hbatch.ordered, fun e he => ?_, fun e he new => ?_⟩
      · exact ⟨List.mem_append_left _ (hbatch.fresh e he).1, (hbatch.fresh e he).2⟩
      · rcases List.mem_append.mp he with before | now
        · exact hbatch.rest e before new
        · right
          intro x hx
          rw [List.mem_singleton.mp now]
          exact h.below x (.inr (hbatch.fresh x hx).1)
    have holds : ∀ phase, Holds s phase → Holds (capture s c) phase := by
      intro phase inPhase
      cases phase with
      | sending batch published => exact grown batch inPhase
      | acked batch published => exact grown batch inPhase
      | _ => exact inPhase
    exact holds s.phase h.phase

end Producer

/-- Whatever of its table follows the change in the partition is later than it. -/
def Later (x y : Message) : Prop := y.origin = x.origin → x.entry.seq < y.entry.seq

section Pipeline
variable {π : Type*} [DecidableEq π] {batchSize : ℕ+} {destSchema : String} {partitionOf : String → π}
variable {docs : String × String → Option Document} {w w' : World π} {o : Origin} {e : Entry Change}

structure Inv (destSchema : String) (partitionOf : String → π) (docs : String × String → Option Document)
    (w : World π) : Prop where
  tidy : ∀ o, Tidy (w.sources o)
  sound : ∀ p, ∀ m ∈ w.topic p, m.entry ∈ (w.sources m.origin).recorded ∧ partitionOf m.key = p
  standing : ∀ o, ∀ e ∈ (w.sources o).recorded, e.seq ≤ acknowledged (w.sources o) →
    Standing Later ⟨o, e⟩ (w.topic (partitionOf (Message.key ⟨o, e⟩)))
  committed : ∀ p, w.committed p ≤ w.position p
  read : ∀ p, w.position p ≤ (w.topic p).length
  shown : ∀ d, Shows (Message.place destSchema) Message.effect docs w.topic w.position w.docs d

omit [DecidableEq π] in
theorem inv_start (h : w ∈ start docs) : Inv destSchema partitionOf docs w where
  tidy o := tidy_baselined (h.1 o)
  sound p m hm := by
    rw [(h.2.1 p).1] at hm
    cases hm
  standing o e he upTo := by
    have new := ((h.1 o).since e he).1
    unfold acknowledged at upTo
    rw [(h.1 o).idle] at upTo
    change e.seq ≤ (w.sources o).saved at upTo
    omega
  committed p := by rw [(h.2.1 p).2.1, (h.2.1 p).2.2]
  read p := by
    rw [(h.2.1 p).2.2]
    exact Nat.zero_le _
  shown d := .inl ⟨congrFun h.2.2 d, fun p j hj => by
    rw [(h.2.1 p).2.2] at hj
    exact absurd hj (Nat.not_lt_zero j)⟩

omit [DecidableEq π] in
theorem inv_write (h : Inv destSchema partitionOf docs w) (o : Origin) (c : Change) :
    Inv destSchema partitionOf docs
      { w with sources := Function.update w.sources o (capture (w.sources o) c) } where
  tidy := (Function.forall_update_iff _ fun _ s => Tidy s).mpr
    ⟨tidy_capture (h.tidy o) c, fun o' _ => h.tidy o'⟩
  sound p m hm := by
    have kept : ∀ o', ∀ e ∈ (w.sources o').recorded,
        e ∈ (Function.update w.sources o (capture (w.sources o) c) o').recorded :=
      (Function.forall_update_iff _ fun o' (s : Source) => ∀ e ∈ (w.sources o').recorded, e ∈ s.recorded).mpr
        ⟨fun e he => List.mem_append_left _ he, fun _ _ e he => he⟩
    exact ⟨kept m.origin m.entry (h.sound p m hm).1, (h.sound p m hm).2⟩
  standing := by
    refine (Function.forall_update_iff _ fun o' s => ∀ e ∈ s.recorded, e.seq ≤ acknowledged s →
      Standing Later ⟨o', e⟩ (w.topic (partitionOf (Message.key ⟨o', e⟩)))).mpr ⟨?_, fun o' _ => h.standing o'⟩
    intro e he upTo
    refine h.standing o e ?_ upTo
    rcases List.mem_append.mp he with before | now
    · exact before
    · -- a new number has not been acknowledged
      rw [List.mem_singleton.mp now] at upTo
      have beyond := acknowledged_lt (h.tidy o)
      change (w.sources o).nextSeq ≤ acknowledged (w.sources o) at upTo
      omega
  committed := h.committed
  read := h.read
  shown := h.shown

theorem mem_send {topic : π → List Message} {batch : List (Entry Change)} {reached : π → Bool} {p : π} {m : Message}
    (hm : m ∈ send partitionOf topic o batch reached p) :
    m ∈ topic p ∨ ∃ e ∈ batch, m = ⟨o, e⟩ ∧ partitionOf m.key = p := by
  rcases List.mem_append.mp hm with before | now
  · exact .inl before
  · right
    rw [List.mem_filter, List.mem_map, Bool.and_eq_true, decide_eq_true_eq] at now
    obtain ⟨⟨e, he, rfl⟩, _, own⟩ := now
    exact ⟨e, he, rfl, own⟩

theorem inv_send (h : Inv destSchema partitionOf docs w) (o : Origin) (s : Source) (reached : π → Bool)
    (tidy : Tidy s) (same : s.recorded = (w.sources o).recorded)
    (upTo : ∀ e ∈ s.recorded, e.seq ≤ acknowledged s →
      e.seq ≤ acknowledged (w.sources o) ∨ e ∈ underway (w.sources o) ∧ ∀ p, reached p = true) :
    Inv destSchema partitionOf docs { w with
      sources := Function.update w.sources o s
      topic := send partitionOf w.topic o (underway (w.sources o)) reached } where
  tidy := (Function.forall_update_iff _ fun _ s => Tidy s).mpr ⟨tidy, fun o' _ => h.tidy o'⟩
  sound p m hm := by
    have recorded : ∀ o', (Function.update w.sources o s o').recorded = (w.sources o').recorded :=
      (Function.forall_update_iff _ fun o' (s : Source) => s.recorded = (w.sources o').recorded).mpr
        ⟨same, fun _ _ => rfl⟩
    rw [recorded]
    rcases mem_send hm with before | ⟨e, he, rfl, own⟩
    · exact h.sound p m before
    · exact ⟨(underway_fresh (h.tidy o) he).1, own⟩
  standing := by
    have appended : ∀ o', ∀ e ∈ (w.sources o').recorded, e.seq ≤ acknowledged (w.sources o') →
        Standing Later ⟨o', e⟩ (send partitionOf w.topic o (underway (w.sources o)) reached
          (partitionOf (Message.key ⟨o', e⟩))) := by
      intro o' e he old
      apply standing_append (h.standing o' e he old)
      intro m hm
      rw [List.mem_filter, List.mem_map] at hm
      obtain ⟨⟨x, hx, rfl⟩, _⟩ := hm
      rintro ⟨⟩
      exact old.trans_lt (underway_fresh (h.tidy o) hx).2
    refine (Function.forall_update_iff _ fun o' s => ∀ e ∈ s.recorded, e.seq ≤ acknowledged s →
      Standing Later ⟨o', e⟩ (send partitionOf w.topic o (underway (w.sources o)) reached
        (partitionOf (Message.key ⟨o', e⟩)))).mpr ⟨?_, fun o' _ => appended o'⟩
    intro e he seen
    rcases upTo e he seen with old | ⟨inside, all⟩
    · exact appended o e (same ▸ he) old
    · apply standing_run
      · rw [List.mem_filter, all, Bool.true_and, decide_eq_true_eq]
        exact ⟨List.mem_map_of_mem inside, rfl⟩
      · refine (List.pairwise_map.mpr ?_).sublist List.filter_sublist
        exact (underway_ordered (h.tidy o)).imp fun {a b} less (_ : o = o) => less
  committed := h.committed
  read p := by
    refine (h.read p).trans ?_
    unfold send
    rw [List.length_append]
    exact Nat.le_add_right _ _
  shown d := shows_grow (h.shown d) h.read fun p => List.prefix_append _ _

omit [DecidableEq π] in
theorem apply_kept (destSchema : String) (w : World π) (m : Message) : (apply destSchema w m).sources = w.sources ∧
    (apply destSchema w m).topic = w.topic ∧ (apply destSchema w m).committed = w.committed := by
  unfold apply
  cases m.place destSchema <;> exact ⟨rfl, rfl, rfl⟩

theorem inv_consume (h : Inv destSchema partitionOf docs w) {p : π} {m : Message}
    (at_ : (w.topic p)[w.position p]? = some m) : Inv destSchema partitionOf docs
      { apply destSchema w m with position := Function.update w.position p (w.position p + 1) } := by
  have inside : w.position p < (w.topic p).length := (List.getElem?_eq_some_iff.mp at_).1
  have moved : ∀ q, w.position q ≤ Function.update w.position p (w.position p + 1) q ∧
      Function.update w.position p (w.position p + 1) q ≤ (w.topic q).length :=
    (Function.forall_update_iff _ fun q next => w.position q ≤ next ∧ next ≤ (w.topic q).length).mpr
      ⟨⟨Nat.le_succ _, inside⟩, fun q _ => ⟨le_rfl, h.read q⟩⟩
  obtain ⟨sources, topic, committed⟩ := apply_kept destSchema w m
  constructor
  · simpa only [sources] using h.tidy
  · simpa only [sources, topic] using h.sound
  · simpa only [sources, topic] using h.standing
  · intro q
    rw [committed]
    exact (h.committed q).trans (moved q).1
  · intro q
    rw [topic]
    exact (moved q).2
  · intro d
    rw [topic]
    apply shows_read (h.shown d) at_
    · intro own
      unfold apply
      rw [own]
      exact Function.update_self ..
    · intro other
      unfold apply
      cases hplace : m.place destSchema with
      | none => rfl
      | some d' =>
        apply Function.update_of_ne
        rintro rfl
        exact other hplace

theorem inv_step {ev : Event π} (h : Inv destSchema partitionOf docs w)
    (taken : step batchSize destSchema partitionOf w ev = some w') : Inv destSchema partitionOf docs w' := by
  cases ev with
  | write o c =>
    cases taken
    exact inv_write h o c
  | produce o =>
    have next := inv_send h o (produce batchSize (w.sources o)).1 (fun _ => true) (tidy_produce (h.tidy o))
      (produce_recorded _) fun e he upTo => by
        rw [produce_recorded] at he
        exact (produce_acknowledged (h.tidy o) he upTo).imp_right fun inside => ⟨inside, fun _ => rfl⟩
    cases taken
    rwa [produce_sends]
  | crashProducer o reached =>
    cases taken
    exact inv_send h o _ reached (tidy_crash (h.tidy o)) rfl fun e _ upTo =>
      .inl (upTo.trans (saved_le_acknowledged (h.tidy o)))
  | consume p =>
    obtain ⟨m, at_, rfl⟩ := Option.map_eq_some_iff.mp taken
    exact inv_consume h at_
  | commit p offset =>
    by_cases reached : offset ≤ w.position p
    · rw [step, if_pos reached] at taken
      cases taken
      exact ⟨h.tidy, h.sound, h.standing, (Function.forall_update_iff _ fun q next => next ≤ w.position q).mpr
        ⟨reached, fun q _ => h.committed q⟩, h.read, h.shown⟩
    · rw [step, if_neg reached] at taken
      cases taken
  | crashConsumer =>
    cases taken
    exact ⟨h.tidy, h.sound, h.standing, fun _ => le_rfl, fun p => (h.committed p).trans (h.read p),
      fun d => shows_rewind (h.shown d) h.committed⟩

theorem inv_reachable (h : Reachable (start docs) (step batchSize destSchema partitionOf) w) :
    Inv destSchema partitionOf docs w :=
  invariant (fun _ hs => inv_start hs) (fun _ _ _ hs taken => inv_step hs taken) h

def Event.table : Event π → Option Origin
  | .write o _ | .produce o | .crashProducer o _ => some o
  | _ => none

theorem sources_other {ev : Event π} (taken : step batchSize destSchema partitionOf w ev = some w')
    (other : ev.table ≠ some o) : w'.sources o = w.sources o := by
  cases ev with
  | consume p =>
    obtain ⟨m, _, rfl⟩ := Option.map_eq_some_iff.mp taken
    exact congrFun (apply_kept destSchema w m).1 o
  | commit p offset =>
    obtain ⟨_, rfl⟩ : offset ≤ w.position p ∧ { w with committed := Function.update w.committed p offset } = w' := by
      simpa [step] using taken
    rfl
  | crashConsumer =>
    cases taken
    rfl
  | _ =>
    cases taken
    exact Function.update_of_ne (fun same => other (congrArg some same.symm)) _ _

/-- At any time every change is still in the outbox or it is in the topic, and the topic holds nothing else. What is
last of it in the partition of its key comes after all that was recorded before it. -/
theorem relayed_safe (h : Reachable (start docs) (step batchSize destSchema partitionOf) w) :
    (∀ o, ∀ e ∈ (w.sources o).recorded,
      e ∈ (w.sources o).outbox ∨
        Standing Later ⟨o, e⟩ (w.topic (partitionOf (Message.key ⟨o, e⟩)))) ∧
      ∀ p, ∀ m ∈ w.topic p, m.entry ∈ (w.sources m.origin).recorded ∧ partitionOf m.key = p := by
  have inv := inv_reachable h
  refine ⟨fun o e he => ?_, inv.sound⟩
  by_cases old : e.seq ≤ (w.sources o).saved
  · exact .inr (inv.standing o e he (old.trans (saved_le_acknowledged (inv.tidy o))))
  · exact .inl ((inv.tidy o).kept e he (by omega))

/-- Rows of two tables never have the same document, and a column `_id` says no other name than the key. -/
structure Apart (destSchema : String) (w : World π) : Prop where
  index : ∀ o o', (w.sources o).recorded ≠ [] → (w.sources o').recorded ≠ [] →
    Restores.esIndex destSchema o.2 = Restores.esIndex destSchema o'.2 → o = o'
  named : ∀ o, ∀ e ∈ (w.sources o).recorded, Message.documentId e.change = some e.change.pk

structure Settled (w : World π) : Prop where
  published : ∀ o, ∀ e ∈ (w.sources o).recorded, e.seq ≤ (w.sources o).saved
  read : ∀ p, w.position p = (w.topic p).length

def LastOfRow (s : Source) (e : Entry Change) : Prop :=
  e ∈ s.recorded ∧ ∀ e' ∈ s.recorded, e'.change.pk = e.change.pk → e'.seq ≤ e.seq

omit [DecidableEq π] in
theorem place_own (apart : Apart destSchema w) (he : e ∈ (w.sources o).recorded) :
    Message.place destSchema ⟨o, e⟩ = some (Restores.esIndex destSchema o.2, e.change.pk) := by
  unfold Message.place
  rw [show Message.documentId (Message.change ⟨o, e⟩) = _ from apart.named o e he]
  rfl

omit [DecidableEq π] in
theorem row_of_place (apart : Apart destSchema w) {m : Message} (hm : m.entry ∈ (w.sources m.origin).recorded)
    (he : e ∈ (w.sources o).recorded)
    (same : m.place destSchema = some (Restores.esIndex destSchema o.2, e.change.pk)) :
    m.origin = o ∧ m.change.pk = e.change.pk := by
  have own := place_own apart hm
  change m.place destSchema = _ at own
  rw [own, Option.some.injEq, Prod.mk.injEq] at same
  exact ⟨apart.index m.origin o (List.ne_nil_of_mem hm) (List.ne_nil_of_mem he) same.1, same.2⟩

end Pipeline

def quiet : Source := ⟨1, [], [], 0, .idle⟩

def shop : World Unit := ⟨fun _ => quiet, fun _ => [], fun _ => 0, fun _ => 0, fun _ => none, []⟩

def orders : Origin := ("public", "orders")

def paid : Change := ⟨.U, "7", Record.empty.assign "state" (.str "paid")⟩

/-- The producer dies after the brokers have the batch, and sends it again. -/
def sentTwice : List (Event Unit) :=
  [.write orders paid, .produce orders, .produce orders, .crashProducer orders fun _ => true,
    .produce orders, .produce orders, .produce orders, .consume (), .produce orders, .consume (), .produce orders]

def served : World Unit := (run (step 500 "es" fun _ => ()) shop sentTwice).getD shop

theorem served_run : run (step 500 "es" fun _ => ()) shop sentTwice = some served := rfl

theorem shop_start : shop ∈ start fun _ => none := by
  refine ⟨fun o => ?_, fun _ => ⟨rfl, rfl, rfl⟩, rfl⟩
  change Baselined quiet
  refine ⟨List.nodup_nil, List.Pairwise.nil, ?_, ?_, ⟨Nat.zero_lt_one, ?_⟩, rfl⟩ <;>
  · intro e he
    cases he

theorem served_other {o : Origin} (other : o ≠ orders) : served.sources o = quiet := by
  refine run_preserves (P := fun w => w.sources o = quiet) served_run rfl fun ev hev w w' same taken => ?_
  rw [sources_other taken, same]
  intro own
  revert own
  simp only [sentTwice, List.mem_cons, List.not_mem_nil, or_false] at hev
  rcases hev with rfl | rfl | rfl | rfl | rfl | rfl | rfl | rfl | rfl | rfl | rfl <;> simp [Event.table, other.symm]

theorem served_recorded {o : Origin} {e : Entry Change} (he : e ∈ (served.sources o).recorded) :
    o = orders ∧ e = ⟨1, paid⟩ := by
  by_cases own : o = orders
  · subst own
    exact ⟨rfl, List.mem_singleton.mp he⟩
  · rw [served_other own] at he
    cases he

theorem relayed_safe_served : Standing Later ⟨orders, ⟨1, paid⟩⟩ (served.topic ()) := by
  have safe := relayed_safe (reachable_run (.init shop_start) served_run)
  have either := safe.1 orders ⟨1, paid⟩ (List.mem_singleton.mpr rfl)
  apply either.resolve_left
  rw [show (served.sources orders).outbox = [] from rfl]
  exact List.not_mem_nil

end DataFabric.KafkaRelays
