import DataFabric.KafkaRelays

set_option autoImplicit false

/-!
# The pipeline settles

Wherever crashes have left the two sides, the producer's own steps bring every recorded change into the topic, and the
consumer's bring it into the index.
-/
namespace DataFabric.KafkaSettling
open NumberedLogs TransitionRuns KafkaRelays

def unpublished (s : Source) : ℕ := (s.recorded.filter fun e => s.saved < e.seq).length

def rank : Phase → ℕ
  | .acked _ _ => 1
  | .sending _ _ => 2
  | .reading _ _ => 3
  | .idle => 4
  | .pruning _ => 5

def windDown : Phase → ℕ
  | .idle => 0
  | .pruning _ => 1
  | _ => 2

def remaining (s : Source) : ℕ :=
  if unpublished s = 0 then windDown s.phase else 6 * unpublished s + rank s.phase

section Source
variable {batchSize : ℕ+} {s s' : Source} {e : Entry Change} {batch : List (Entry Change)}

theorem unpublished_eq_zero : unpublished s = 0 ↔ ∀ e ∈ s.recorded, e.seq ≤ s.saved := by
  unfold unpublished
  rw [List.length_eq_zero_iff, List.filter_eq_nil_iff]
  simp

theorem unpublished_pos (he : e ∈ s.recorded) (new : s.saved < e.seq) : 0 < unpublished s := by
  rw [Nat.pos_iff_ne_zero]
  intro none
  have old := unpublished_eq_zero.mp none e he
  omega

theorem unpublished_batch (h : Batch s batch) : 0 < unpublished s := by
  obtain ⟨e, he⟩ := List.exists_mem_of_ne_nil _ h.filled
  exact unpublished_pos (h.fresh e he).1 (h.fresh e he).2

theorem unpublished_advance (h : Batch s batch) {phase : Phase} :
    unpublished { s with saved := lastNumber s.saved batch, phase := phase } <
      unpublished s := by
  unfold unpublished
  have narrower : (s.recorded.filter fun e => lastNumber s.saved batch < e.seq) =
      (s.recorded.filter fun e => s.saved < e.seq).filter fun e => lastNumber s.saved batch < e.seq := by
    rw [List.filter_filter]
    apply List.filter_congr
    intro e _
    have above := h.saved_lt
    rw [← Bool.decide_and, decide_eq_decide]
    omega
  change (s.recorded.filter fun e => lastNumber s.saved batch < e.seq).length < _
  rw [narrower, List.length_filter_lt_length_iff_exists]
  obtain ⟨e, he⟩ := List.exists_mem_of_ne_nil _ h.filled
  refine ⟨e, List.mem_filter.mpr ⟨(h.fresh e he).1, by simpa using (h.fresh e he).2⟩, ?_⟩
  simpa using h.le_last he

theorem nearer (same : unpublished s' = unpublished s) (busy : unpublished s ≠ 0 → rank s'.phase < rank s.phase)
    (windsDown : unpublished s = 0 → windDown s'.phase < windDown s.phase) : remaining s' < remaining s := by
  unfold remaining
  rw [same]
  by_cases none : unpublished s = 0
  · rw [if_pos none, if_pos none]
    exact windsDown none
  · rw [if_neg none, if_neg none]
    have less := busy none
    omega

theorem produce_nearer (batchSize : ℕ+) (h : Tidy s) :
    unpublished s = 0 ∧ s.phase = .idle ∨ remaining (produce batchSize s).1 < remaining s := by
  have inPhase := h.phase
  cases hphase : s.phase with
  | idle =>
    by_cases none : unpublished s = 0
    · exact .inl ⟨none, rfl⟩
    · right
      have next : (produce batchSize s).1 = { s with phase := .reading s.saved 0 } := by
        unfold produce
        rw [hphase]
      rw [next]
      exact nearer rfl (fun _ => hphase ▸ Nat.lt_succ_self _) fun zero => absurd zero none
  | reading seq published =>
    right
    rw [hphase] at inPhase
    change seq = s.saved at inPhase
    subst inPhase
    cases hread : readBatch s.outbox s.saved batchSize with
    | nil =>
      have none : unpublished s = 0 := by
        rw [unpublished_eq_zero]
        intro e he
        by_contra new
        have inside : e ∈ pending s.outbox s.saved :=
          mem_pending.mpr ⟨h.kept e he (by omega), by omega⟩
        rw [readBatch_eq_nil batchSize.pos hread] at inside
        cases inside
      have next : (produce batchSize s).1 =
          { s with phase := if published = 0 then .idle else .pruning s.saved } := by
        unfold produce
        simp only [hphase, hread]
      rw [next]
      refine nearer rfl (fun some_ => absurd none some_) fun _ => ?_
      rw [hphase]
      dsimp only
      split <;> simp [windDown]
    | cons x rest =>
      have filled := unpublished_batch (batch_read h hread)
      have next : (produce batchSize s).1 = { s with phase := .sending (x :: rest) published } := by
        unfold produce
        simp only [hphase, hread]
      rw [next]
      exact nearer rfl (fun _ => hphase ▸ Nat.lt_succ_self _) fun zero => absurd zero filled.ne'
  | sending batch published =>
    right
    rw [hphase] at inPhase
    have filled := unpublished_batch inPhase
    have next : (produce batchSize s).1 = { s with phase := .acked batch published } := by
      unfold produce
      rw [hphase]
    rw [next]
    exact nearer rfl (fun _ => hphase ▸ Nat.lt_succ_self _) fun zero => absurd zero filled.ne'
  | acked batch published =>
    right
    rw [hphase] at inPhase
    have filled := unpublished_batch inPhase
    have fewer : unpublished (produce batchSize s).1 < unpublished s := by
      unfold produce
      simp only [hphase]
      exact unpublished_advance inPhase
    have bound : ∀ phase, rank phase ≤ 5 ∧ windDown phase ≤ 2 := by
      intro phase
      cases phase <;> simp [rank, windDown]
    have bounds := bound (produce batchSize s).1.phase
    unfold remaining
    rw [if_neg filled.ne', hphase]
    change _ < 6 * unpublished s + 1
    split <;> omega
  | pruning seq =>
    right
    have next : (produce batchSize s).1 = { s with outbox := pruneUpTo s.outbox seq, phase := .idle } := by
      unfold produce
      rw [hphase]
    rw [next]
    exact nearer rfl (fun _ => hphase ▸ Nat.lt_succ_self _) fun _ => hphase ▸ Nat.lt_succ_self _

end Source

section Pipeline
variable {π : Type*} [DecidableEq π] {batchSize : ℕ+} {destSchema : String} {partitionOf : String → π}
variable {docs : String × String → Option Document} {w : World π}

/-- A run of the two sides alone: no change is made and nothing crashes. -/
structure Undisturbed (batchSize : ℕ+) (destSchema : String) (partitionOf : String → π) (w : World π)
    (es : List (Event π)) (w' : World π) : Prop where
  run : TransitionRuns.run (step batchSize destSchema partitionOf) w es = some w'
  events : ∀ e ∈ es, (∃ o, e = .produce o) ∨ ∃ p, e = .consume p
  recorded : ∀ o, (w'.sources o).recorded = (w.sources o).recorded

theorem undisturbed_nil (w : World π) : Undisturbed batchSize destSchema partitionOf w [] w :=
  ⟨rfl, by simp, fun _ => rfl⟩

theorem Undisturbed.trans {es fs : List (Event π)} {w₁ w₂ : World π}
    (first : Undisturbed batchSize destSchema partitionOf w es w₁)
    (second : Undisturbed batchSize destSchema partitionOf w₁ fs w₂) :
    Undisturbed batchSize destSchema partitionOf w (es ++ fs) w₂ where
  run := by rw [run_append, first.run, Option.bind_some, second.run]
  events e he := (List.mem_append.mp he).elim (first.events e) (second.events e)
  recorded o := (second.recorded o).trans (first.recorded o)

theorem drain_table (batchSize : ℕ+) (inv : Inv destSchema partitionOf docs w) (o : Origin) :
    ∃ es w', Undisturbed batchSize destSchema partitionOf w es w' ∧ Inv destSchema partitionOf docs w' ∧
      unpublished (w'.sources o) = 0 ∧ ∀ o' ≠ o, w'.sources o' = w.sources o' := by
  induction measure : remaining (w.sources o) using Nat.strong_induction_on generalizing w with
  | _ n ih =>
    rcases produce_nearer batchSize (inv.tidy o) with ⟨none, _⟩ | less
    · exact ⟨[], w, undisturbed_nil w, inv, none, fun _ _ => rfl⟩
    · obtain ⟨m, taken⟩ : ∃ m, step batchSize destSchema partitionOf w (.produce o) = some m := ⟨_, rfl⟩
      have own : m.sources o = (produce batchSize (w.sources o)).1 := by
        cases taken
        exact Function.update_self ..
      have others : ∀ o' ≠ o, m.sources o' = w.sources o' := fun o' other =>
        sources_other taken fun same => other (Option.some.inj same).symm
      have once : Undisturbed batchSize destSchema partitionOf w [.produce o] m := by
        refine ⟨by rw [run_cons, taken]; rfl, fun e he => .inl ⟨o, List.mem_singleton.mp he⟩, fun o' => ?_⟩
        by_cases same : o' = o
        · rw [same, own, produce_recorded]
        · rw [others o' same]
      obtain ⟨es, w', rest, inv', none, same⟩ := ih _ (by rw [own]; omega) (inv_step inv taken) rfl
      exact ⟨_, w', once.trans rest, inv', none, fun o' other => (same o' other).trans (others o' other)⟩

theorem drain_tables (batchSize : ℕ+) (inv : Inv destSchema partitionOf docs w) (tables : List Origin) :
    ∃ es w', Undisturbed batchSize destSchema partitionOf w es w' ∧ Inv destSchema partitionOf docs w' ∧
      ∀ o ∈ tables, unpublished (w'.sources o) = 0 := by
  induction tables with
  | nil => exact ⟨[], w, undisturbed_nil w, inv, by simp⟩
  | cons o tables ih =>
    obtain ⟨es, m, first, inv', done⟩ := ih
    obtain ⟨fs, w', second, inv'', own, same⟩ := drain_table batchSize inv' o
    refine ⟨_, w', first.trans second, inv'', fun o' ho' => ?_⟩
    by_cases equal : o' = o
    · rw [equal, own]
    · rw [same o' equal]
      exact done o' ((List.mem_cons.mp ho').resolve_left equal)

theorem read_partition (batchSize : ℕ+) (inv : Inv destSchema partitionOf docs w) (p : π) :
    ∃ es w', Undisturbed batchSize destSchema partitionOf w es w' ∧ Inv destSchema partitionOf docs w' ∧
      w'.position p = (w'.topic p).length ∧ w'.sources = w.sources ∧ w'.topic = w.topic ∧
      ∀ q ≠ p, w'.position q = w.position q := by
  induction measure : (w.topic p).length - w.position p generalizing w with
  | zero =>
    have read := inv.read p
    exact ⟨[], w, undisturbed_nil w, inv, by omega, rfl, rfl, fun _ _ => rfl⟩
  | succ n ih =>
    have inside : w.position p < (w.topic p).length := by omega
    have at_ := List.getElem?_eq_getElem inside
    obtain ⟨m, next, taken⟩ : ∃ m, m = { apply destSchema w (w.topic p)[w.position p] with
        position := Function.update w.position p (w.position p + 1) } ∧
        step batchSize destSchema partitionOf w (.consume p) = some m := ⟨_, rfl, by rw [step, at_]; rfl⟩
    have kept := apply_kept destSchema w (w.topic p)[w.position p]
    have sources : m.sources = w.sources := by rw [next]; exact kept.1
    have topic : m.topic = w.topic := by rw [next]; exact kept.2.1
    have position : m.position = Function.update w.position p (w.position p + 1) := by rw [next]
    have once : Undisturbed batchSize destSchema partitionOf w [.consume p] m := by
      refine ⟨by rw [run_cons, taken]; rfl, fun e he => .inr ⟨p, List.mem_singleton.mp he⟩, fun o => ?_⟩
      rw [sources]
    have fewer : (m.topic p).length - m.position p = n := by
      rw [topic, position, Function.update_self]
      omega
    obtain ⟨es, w', rest, inv', read, sources', topic', others⟩ := ih (inv_step inv taken) fewer
    refine ⟨_, w', once.trans rest, inv', read, sources'.trans sources, topic'.trans topic, fun q other => ?_⟩
    rw [others q other, position, Function.update_of_ne other]

theorem read_partitions (batchSize : ℕ+) (inv : Inv destSchema partitionOf docs w) (partitions : List π) :
    ∃ es w', Undisturbed batchSize destSchema partitionOf w es w' ∧ w'.sources = w.sources ∧
      Inv destSchema partitionOf docs w' ∧ w'.topic = w.topic ∧
      ∀ p ∈ partitions, w'.position p = (w'.topic p).length := by
  induction partitions with
  | nil => exact ⟨[], w, undisturbed_nil w, rfl, inv, rfl, by simp⟩
  | cons p partitions ih =>
    obtain ⟨es, m, first, sources, inv', topic, done⟩ := ih
    obtain ⟨fs, w', second, inv'', own, sources', topic', others⟩ := read_partition batchSize inv' p
    refine ⟨_, w', first.trans second, sources'.trans sources, inv'', topic'.trans topic, fun q hq => ?_⟩
    by_cases equal : q = p
    · rw [equal, own]
    · rw [others q equal, topic', done q ((List.mem_cons.mp hq).resolve_left equal)]

/-- From wherever crashes have left them, the two sides come to a state in which everything is published and read. -/
theorem relayed_settles (tables : List Origin) (partitions : List π)
    (h : Reachable (start docs) (step batchSize destSchema partitionOf) w)
    (changed : ∀ o, (w.sources o).recorded ≠ [] → o ∈ tables) (all : ∀ p, p ∈ partitions) :
    ∃ es w', Undisturbed batchSize destSchema partitionOf w es w' ∧ Settled w' := by
  obtain ⟨es, m, first, inv, published⟩ := drain_tables batchSize (inv_reachable h) tables
  obtain ⟨fs, w', second, sources, _, _, read⟩ := read_partitions batchSize inv partitions
  refine ⟨_, w', first.trans second, fun o e he => ?_, fun p => read p (all p)⟩
  rw [sources] at he ⊢
  rw [first.recorded] at he
  have inside := published o (changed o (List.ne_nil_of_mem he))
  rw [← first.recorded] at he
  exact unpublished_eq_zero.mp inside e he

end Pipeline

def pendingShop : World Unit :=
  { shop with sources := Function.update shop.sources orders (capture quiet paid) }

theorem relayed_settles_pending : ∃ es w', Undisturbed 500 "es" (fun _ => ()) pendingShop es w' ∧ Settled w' := by
  have hrun : run (step 500 "es" fun _ => ()) shop [.write orders paid] = some pendingShop := rfl
  refine relayed_settles [orders] [()] (reachable_run (.init shop_start) hrun) (fun o some_ => ?_) fun _ =>
    List.mem_singleton.mpr rfl
  by_contra other
  rw [List.mem_singleton] at other
  have untouched : pendingShop.sources o = quiet := Function.update_of_ne other _ _
  rw [untouched] at some_
  exact some_ rfl

end DataFabric.KafkaSettling
