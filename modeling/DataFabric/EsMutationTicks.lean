import DataFabric.EsMutations
import Mathlib.Data.List.Nodup

set_option autoImplicit false

/-! # What the ticks do to the jobs and the documents -/
namespace DataFabric.EsMutations
open TransitionRuns JsValues

variable {s s' : World} {log : List Mutation} {m n : Mutation} {r q : Row} {docs : List Doc}

theorem touches_iff {k : ℕ} : m.touches k = true ↔ ∃ r ∈ m.rows, r.key = k := by
  unfold Mutation.touches
  simp

theorem meets_iff : m.meets n = true ↔ ∃ k, m.touches k = true ∧ n.touches k = true := by
  unfold Mutation.meets
  rw [List.any_eq_true]
  constructor
  · intro ⟨r, inside, touched⟩
    exact ⟨r.key, touches_iff.mpr ⟨r, inside, rfl⟩, touched⟩
  · intro ⟨k, own, touched⟩
    obtain ⟨r, inside, rfl⟩ := touches_iff.mp own
    exact ⟨r, inside, touched⟩

theorem meets_comm : m.meets n = n.meets m := by
  rw [Bool.eq_iff_iff, meets_iff, meets_iff]
  exact exists_congr fun k => and_comm

theorem untouched (apart : m.meets n = false) (inside : r ∈ m.rows) : n.touches r.key = false := by
  by_contra touched
  have meets := meets_iff.mpr ⟨r.key, touches_iff.mpr ⟨r, inside, rfl⟩, Bool.not_eq_false _ ▸ touched⟩
  rw [apart] at meets
  cases meets

def Doc.of (d : Doc) (m : Mutation) (r : Row) : Prop :=
  d.row = r.key ∧ d.index = m.index ∧ some d.id = (docId r.value).map .given

def Named (log : List Mutation) (docs : List Doc) : Prop := ∀ d ∈ docs, ∃ m ∈ log, ∃ r ∈ m.rows, d.of m r

theorem faithful (rec : Recognised log) (named : Named log docs) (logged : m ∈ log) (inside : r ∈ m.rows) {id : String}
    (own : docId r.value = some id) {d : Doc} (here : d ∈ docs) :
    (d.index = m.index ∧ d.id = .given id) ↔ d.row = r.key := by
  obtain ⟨n, logged', q, inside', row, index, given⟩ := named d here
  have same := (rec m logged r inside).2 n logged' q inside'
  have known := (rec n logged' q inside').1
  obtain ⟨id', own'⟩ := Option.ne_none_iff_exists'.mp known
  rw [own', Option.map_some, Option.some.injEq] at given
  rw [row, index, given, eq_comm (a := q.key), same, Mutation.document, Mutation.document, own, own', Prod.mk.injEq,
    DocId.given.injEq, Option.some.injEq]
  exact ⟨fun ⟨a, b⟩ => ⟨a.symm, b.symm⟩, fun ⟨a, b⟩ => ⟨a.symm, b.symm⟩⟩

theorem docsOf_filter (k k' : ℕ) :
    docsOf (docs.filter fun d => d.row ≠ k) k' = if k' = k then [] else docsOf docs k' := by
  unfold docsOf
  rw [List.filter_filter]
  by_cases same : k' = k
  · rw [if_pos same, same]
    have none : (docs.filter fun d => decide (d.row = k) && decide (d.row ≠ k)) = [] := by
      rw [List.filter_eq_nil_iff]
      simp
    rw [none]
    rfl
  · rw [if_neg same]
    congr 1
    apply List.filter_congr
    intro d _
    by_cases own : d.row = k' <;> simp [own, same]

theorem removeDoc_filter (rec : Recognised log) (named : Named log docs) (logged : m ∈ log) (inside : r ∈ m.rows)
    {id : String} (own : docId r.value = some id) :
    removeDoc docs m.index (.given id) = docs.filter fun d => d.row ≠ r.key := by
  apply List.filter_congr
  intro d here
  have same := faithful rec named logged inside own here
  rw [Bool.eq_iff_iff]
  simp [← same]

theorem removeRow_docs (rec : Recognised log) (named : Named log docs) (logged : m ∈ log) (inside : r ∈ m.rows) :
    Named log (removeRow m docs r) ∧
      ∀ k, docsOf (removeRow m docs r) k = if k = r.key then [] else docsOf docs k := by
  obtain ⟨id, own⟩ := Option.ne_none_iff_exists'.mp (rec m logged r inside).1
  unfold removeRow
  rw [own]
  dsimp only
  rw [removeDoc_filter rec named logged inside own]
  exact ⟨fun d here => named d (List.mem_filter.mp here).1, docsOf_filter r.key⟩

theorem indexRow_docs (rec : Recognised log) {es : List Doc × ℕ} (named : Named log es.1) (logged : m ∈ log)
    (inside : r ∈ m.rows) :
    Named log (indexRow m es r).1 ∧
      ∀ k, docsOf (indexRow m es r).1 k = if k = r.key then [r.value] else docsOf es.1 k := by
  obtain ⟨id, own⟩ := Option.ne_none_iff_exists'.mp (rec m logged r inside).1
  unfold indexRow
  rw [own]
  dsimp only
  rw [putDoc, removeDoc_filter rec named logged inside own]
  constructor
  · intro d here
    rcases List.mem_append.mp here with old | new
    · exact named d (List.mem_filter.mp old).1
    · rw [List.mem_singleton.mp new]
      exact ⟨m, logged, r, inside, rfl, rfl, by rw [own]; rfl⟩
  · intro k
    have kept : docsOf (es.1.filter fun d => d.row ≠ r.key) k = _ := docsOf_filter r.key k
    unfold docsOf at kept ⊢
    rw [List.filter_append, List.map_append, kept]
    by_cases same : k = r.key
    · simp [same]
    · simp [same, Ne.symm same]

theorem bulkIndex_docs (rec : Recognised log) (logged : m ∈ log) {items : List (Row × Bool)} {es : List Doc × ℕ}
    (named : Named log es.1) (inside : ∀ p ∈ items, p.1 ∈ m.rows) :
    Named log (bulkIndex m es items).1 ∧
      ∀ k, (∀ p ∈ items, p.1.key ≠ k) → docsOf (bulkIndex m es items).1 k = docsOf es.1 k := by
  induction items generalizing es with
  | nil => exact ⟨named, fun k _ => rfl⟩
  | cons p items ih =>
    obtain ⟨r, applied⟩ := p
    have own : r ∈ m.rows := inside _ List.mem_cons_self
    have rest : ∀ p ∈ items, p.1 ∈ m.rows := fun p later => inside p (List.mem_cons_of_mem _ later)
    rw [bulkIndex]
    cases applied with
    | false =>
      obtain ⟨named', same⟩ := ih named rest
      exact ⟨named', fun k others => same k fun p later => others p (List.mem_cons_of_mem _ later)⟩
    | true =>
      obtain ⟨here, docs⟩ := indexRow_docs rec named logged own
      obtain ⟨named', same⟩ := ih here rest
      refine ⟨named', fun k others => ?_⟩
      rw [if_pos rfl, same k fun p later => others p (List.mem_cons_of_mem _ later), docs k,
        if_neg (others _ List.mem_cons_self).symm]

theorem bulkIndex_all (rec : Recognised log) (logged : m ∈ log) {items : List (Row × Bool)} {es : List Doc × ℕ}
    (named : Named log es.1) (inside : ∀ p ∈ items, p.1 ∈ m.rows) (once : (items.map (·.1.key)).Nodup)
    (applied : ∀ p ∈ items, p.2 = true) : ∀ p ∈ items, docsOf (bulkIndex m es items).1 p.1.key = [p.1.value] := by
  induction items generalizing es with
  | nil => simp
  | cons p items ih =>
    obtain ⟨r, flag⟩ := p
    have own : r ∈ m.rows := inside _ List.mem_cons_self
    have rest : ∀ p ∈ items, p.1 ∈ m.rows := fun p later => inside p (List.mem_cons_of_mem _ later)
    have flagged : flag = true := applied _ List.mem_cons_self
    rw [List.map_cons, List.nodup_cons] at once
    obtain ⟨here, docs⟩ := indexRow_docs rec named logged own
    intro p mem
    rw [bulkIndex, flagged, if_pos rfl]
    rcases List.mem_cons.mp mem with rfl | later
    · have apart : ∀ p ∈ items, p.1.key ≠ r.key := fun p later same => once.1 (same ▸ List.mem_map_of_mem later)
      rw [(bulkIndex_docs rec logged here rest).2 r.key apart, docs, if_pos rfl]
    · exact ih here rest once.2 (fun p later => applied p (List.mem_cons_of_mem _ later)) p later

theorem result_row (once : (m.rows.map (·.key)).Nodup) (kept : m.action ≠ .DELETE) (inside : r ∈ m.rows) :
    m.result r.key = [r.value] := by
  have alone : m.rows.filter (·.key = r.key) = [r] := by
    generalize m.rows = rows at once inside
    induction rows with
    | nil => cases inside
    | cons q rows ih =>
      rw [List.map_cons, List.nodup_cons] at once
      rcases List.mem_cons.mp inside with rfl | later
      · have none : rows.filter (·.key = r.key) = [] := by
          rw [List.filter_eq_nil_iff]
          intro p there same
          exact once.1 (of_decide_eq_true same ▸ List.mem_map_of_mem there)
        rw [List.filter_cons_of_pos (by simp), none]
      · have other : q.key ≠ r.key := fun same => once.1 (same ▸ List.mem_map_of_mem later)
        rw [List.filter_cons_of_neg (by simpa using other)]
        exact ih once.2 later
  rw [Mutation.result, if_neg kept, alone]
  rfl

inductive Effect (s : World) : Event → World → Prop
  | waits {us : ℕ} : Effect s (.wait us) { s with clock := s.clock + us }
  | mutates {m : Mutation} (once : (m.rows.map (·.key)).Nodup) : Effect s (.mutate m)
      { s with log := s.log ++ [m], owed := if m.enqueued then s.owed ++ [m] else s.owed }
  | enqueues {x : ℕ} {m : Mutation} (found : s.owed[x]? = some m) : Effect s (.enqueue x)
      { s with owed := s.owed.eraseIdx x, jobs := s.jobs ++ [newJob s.clock m] }
  | loses {x : ℕ} {s' : World} : Effect s (.lose x) s'
  | selects {picked : List ℕ} (picks : Picks s picked) : Effect s (.select picked)
      { s with ticks := s.ticks ++ [.selecting (claim s picked)] }
  | moves {e : Event} {x : ℕ} {st st' : Stage} (found : s.ticks[x]? = some st)
      (current : st'.current = st.current) (queue : st'.queue = st.queue)
      (pauses : ∀ c left queue, st' ≠ .processing c left queue) : Effect s e (setStage s x st')
  | crashes {x : ℕ} {st : Stage} (found : s.ticks[x]? = some st) : Effect s (.crash x) (setStage s x (.ready []))
  | starts {x : ℕ} {c : Claimed} {queue : List Claimed} (found : s.ticks[x]? = some (.ready (c :: queue))) :
      Effect s (.start x)
        (setStage (setJob s c.id (.mark .RUNNING)) x (.processing c c.job.mutation.rows queue))
  | removes {x : ℕ} {c : Claimed} {r : Row} {left : List Row} {queue : List Claimed} {applied : Bool}
      (found : s.ticks[x]? = some (.processing c (r :: left) queue)) (delete : c.job.mutation.action = .DELETE) :
      Effect s (.remove x applied)
        (setStage { s with docs := if applied then removeRow c.job.mutation s.docs r else s.docs } x
          (.processing c left queue))
  | sends {x : ℕ} {c : Claimed} {left : List Row} {queue : List Claimed} {items : List Bool} {accepted : Bool}
      {es : List Doc × ℕ} (found : s.ticks[x]? = some (.processing c left queue))
      (kept : c.job.mutation.action ≠ .DELETE) (each : items.length = left.length)
      (written : es = bulkIndex c.job.mutation (s.docs, s.generated) (left.zip items)) :
      Effect s (.bulk x items accepted)
        (setStage { s with docs := es.1, generated := es.2 } x
          (if accepted then .processing c [] queue else .failing c queue))
  | completes {x : ℕ} {c : Claimed} {queue : List Claimed} (found : s.ticks[x]? = some (.processing c [] queue)) :
      Effect s (.complete x) (setStage (setJob s c.id (.mark .COMPLETED)) x (.ready queue))
  | defers {x : ℕ} {c : Claimed} {queue : List Claimed} (found : s.ticks[x]? = some (.failing c queue)) :
      Effect s (.defer x) (setStage (setJob s c.id (deferred s.clock c)) x (.ready queue))

theorem step_effect {e : Event} (h : step s e = some s') : Effect s e s' := by
  cases e with
  | wait us =>
    cases h
    exact .waits
  | mutate m =>
    simp only [step] at h
    by_cases once : (m.rows.map (·.key)).Nodup
    · rw [if_pos once] at h
      cases h
      exact .mutates once
    · rw [if_neg once] at h
      cases h
  | enqueue x =>
    obtain ⟨m, found, rfl⟩ := Option.map_eq_some_iff.mp h
    exact .enqueues found
  | lose x => exact .loses
  | select picked =>
    simp only [step] at h
    split_ifs at h with picks
    cases h
    exact .selects picks
  | commit x =>
    simp only [step] at h
    split at h
    · rename_i queue found
      cases h
      exact .moves found rfl rfl nofun
    · cases h
  | start x =>
    simp only [step] at h
    split at h
    · rename_i c queue found
      split_ifs at h
      cases h
      exact .starts found
    · cases h
  | remove x applied =>
    simp only [step] at h
    split at h
    · rename_i c r left queue found
      by_cases delete : c.job.mutation.action = .DELETE
      · rw [if_pos delete] at h
        cases h
        exact .removes found delete
      · rw [if_neg delete] at h
        cases h
    · cases h
  | bulk x items accepted =>
    simp only [step] at h
    split at h
    · rename_i c left queue found
      by_cases sent : c.job.mutation.action ≠ .DELETE ∧ left ≠ [] ∧ items.length = left.length
      · rw [if_pos sent] at h
        cases h
        exact .sends found sent.1 sent.2.2 rfl
      · rw [if_neg sent] at h
        cases h
    · cases h
  | complete x =>
    simp only [step] at h
    split at h
    · rename_i c queue found
      split_ifs at h
      cases h
      exact .completes found
    · cases h
  | fail x =>
    simp only [step] at h
    split at h
    · rename_i c left queue found
      cases h
      exact .moves found rfl rfl nofun
    · cases h
  | defer x =>
    simp only [step] at h
    split at h
    · rename_i c queue found
      split_ifs at h
      cases h
      exact .defers found
    · cases h
  | crash x =>
    obtain ⟨st, found, rfl⟩ := Option.map_eq_some_iff.mp h
    exact .crashes found

/-- Every job and every job still owed stands for a mutation of the log, those of a row in its order. -/
structure Recorded (s : World) : Prop where
  history : ∀ k, s.log.filter (·.touches k) = (s.jobs.map (·.mutation) ++ s.owed).filter (·.touches k)
  logged : ∀ m ∈ s.jobs.map (·.mutation) ++ s.owed, m ∈ s.log
  apart : s.owed.Pairwise fun m n => m.meets n = false
  recognised : Recognised s.log
  once : ∀ m ∈ s.log, (m.rows.map (·.key)).Nodup
  named : Named s.log s.docs

theorem modify_mutation {f : Job → Job} (same : ∀ j, (f j).mutation = j.mutation) (jobs : List Job) (i : ℕ) :
    (jobs.modify i f).map (·.mutation) = jobs.map (·.mutation) := by
  apply List.ext_getElem?
  intro k
  rw [List.getElem?_map, List.getElem?_map, List.getElem?_modify]
  cases jobs[k]? with
  | none => rfl
  | some j =>
    by_cases here : i = k <;> simp [here, same]

theorem Recorded.same (h : Recorded s) (log : s'.log = s.log) (owed : s'.owed = s.owed)
    (jobs : s'.jobs.map (·.mutation) = s.jobs.map (·.mutation)) (docs : Named s.log s'.docs) : Recorded s' where
  history k := by rw [log, owed, jobs, h.history]
  logged := by
    rw [log, owed, jobs]
    exact h.logged
  apart := owed ▸ h.apart
  recognised := log ▸ h.recognised
  once := log ▸ h.once
  named := log ▸ docs

theorem touches_enqueued {k : ℕ} (silent : m.enqueued = false) : m.touches k = false := by
  unfold Mutation.enqueued at silent
  have empty : m.rows = [] := by
    by_contra filled
    simp [filled] at silent
  unfold Mutation.touches
  rw [empty]
  rfl

theorem recorded_mutate (h : Recorded s) (once : (m.rows.map (·.key)).Nodup)
    (apart : ∀ n ∈ s.owed, n.meets m = false) (rec : Recognised (s.log ++ [m])) :
    Recorded { s with log := s.log ++ [m], owed := if m.enqueued then s.owed ++ [m] else s.owed } where
  history k := by
    dsimp only
    rw [List.filter_append, h.history]
    split_ifs with sent
    · rw [← List.append_assoc, List.filter_append (s.jobs.map _ ++ s.owed)]
    · rw [List.filter_cons_of_neg (by rw [touches_enqueued (Bool.eq_false_of_not_eq_true sent)]; exact Bool.false_ne_true)]
      exact List.append_nil _
  logged n inside := by
    dsimp only at inside ⊢
    rcases List.mem_append.mp inside with job | owed
    · exact List.mem_append_left _ (h.logged n (List.mem_append_left _ job))
    · split_ifs at owed with sent
      · rcases List.mem_append.mp owed with old | new
        · exact List.mem_append_left _ (h.logged n (List.mem_append_right _ old))
        · exact List.mem_append_right _ new
      · exact List.mem_append_left _ (h.logged n (List.mem_append_right _ owed))
  apart := by
    dsimp only
    split_ifs with sent
    · rw [List.pairwise_append]
      refine ⟨h.apart, List.pairwise_singleton _ _, fun n inside m' new => ?_⟩
      rw [List.mem_singleton.mp new]
      exact apart n inside
    · exact h.apart
  recognised := rec
  once n inside := by
    rcases List.mem_append.mp inside with old | new
    · exact h.once n old
    · exact List.mem_singleton.mp new ▸ once
  named d here := by
    obtain ⟨n, logged, rest⟩ := h.named d here
    exact ⟨n, List.mem_append_left _ logged, rest⟩

theorem filter_eraseIdx {owed : List Mutation} {x k : ℕ} (apart : owed.Pairwise fun m n => m.meets n = false)
    (found : owed[x]? = some m) :
    owed.filter (·.touches k) = [m].filter (·.touches k) ++ (owed.eraseIdx x).filter (·.touches k) := by
  induction owed generalizing x with
  | nil => cases found
  | cons n owed ih =>
    rw [List.pairwise_cons] at apart
    cases x with
    | zero =>
      cases found
      rw [List.eraseIdx_cons_zero, ← List.filter_append]
      rfl
    | succ x =>
      have later := ih apart.2 found
      rw [List.eraseIdx_cons_succ]
      cases touched : n.touches k with
      | false =>
        have skip (l : List Mutation) : (n :: l).filter (·.touches k) = l.filter (·.touches k) :=
          List.filter_cons_of_neg (by simp [touched])
        rw [skip, skip, later]
      | true =>
        have other : m.touches k = false := by
          by_contra both
          have meets := meets_iff.mpr ⟨k, touched, Bool.not_eq_false _ ▸ both⟩
          rw [apart.1 m (List.mem_of_getElem? found)] at meets
          cases meets
        have absent : [m].filter (·.touches k) = [] := List.filter_cons_of_neg (by simp [other])
        rw [absent, List.nil_append] at later
        have keep (l : List Mutation) : (n :: l).filter (·.touches k) = n :: l.filter (·.touches k) :=
          List.filter_cons_of_pos touched
        rw [keep, keep, later, absent, List.nil_append]

theorem recorded_enqueue (h : Recorded s) {x : ℕ} (found : s.owed[x]? = some m) :
    Recorded { s with owed := s.owed.eraseIdx x, jobs := s.jobs ++ [newJob s.clock m] } where
  history k := by
    dsimp only
    rw [h.history, List.map_append, List.filter_append, List.filter_append, List.filter_append,
      filter_eraseIdx h.apart found, List.append_assoc]
    rfl
  logged n inside := by
    dsimp only at inside ⊢
    rw [List.map_append, List.append_assoc] at inside
    apply h.logged n
    rcases List.mem_append.mp inside with job | rest
    · exact List.mem_append_left _ job
    · apply List.mem_append_right
      rcases List.mem_append.mp rest with new | owed
      · rw [List.mem_singleton.mp new]
        exact List.mem_of_getElem? found
      · exact List.mem_of_mem_eraseIdx owed
  apart := h.apart.sublist (List.eraseIdx_sublist _ _)
  recognised := h.recognised
  once := h.once
  named := h.named

/-- A tick works on a job that is running, and its other jobs are pending; no two ticks share one. -/
structure Held (s : World) : Prop where
  nodup : ∀ (x : ℕ) (st : Stage), s.ticks[x]? = some st → st.held.Nodup
  waiting : ∀ (x : ℕ) (st : Stage), s.ticks[x]? = some st → ∀ c ∈ st.queue,
    ∃ j : Job, s.jobs[c.id]? = some j ∧ j.mutation = c.job.mutation ∧ j.status = .PENDING
  working : ∀ (x : ℕ) (st : Stage), s.ticks[x]? = some st → ∀ c ∈ st.current,
    ∃ j : Job, s.jobs[c.id]? = some j ∧ j.mutation = c.job.mutation ∧ j.status = .RUNNING
  left : ∀ (x : ℕ) (c : Claimed) (left : List Row) (queue : List Claimed), s.ticks[x]? = some (.processing c left queue) → left.Sublist c.job.mutation.rows
  apart : ∀ (x y : ℕ) (st st' : Stage), x ≠ y → s.ticks[x]? = some st → s.ticks[y]? = some st' →
    ∀ c ∈ st.claims, ∀ d ∈ st'.claims, c.id ≠ d.id ∧ c.job.mutation.meets d.job.mutation = false
  running : ∀ (i : ℕ) (j : Job), s.jobs[i]? = some j → j.status = .RUNNING → ∃ x, Processes s x i

theorem set_tick {x y : ℕ} {st st' : Stage} (h : (setStage s x st).ticks[y]? = some st') :
    y = x ∧ st' = st ∨ y ≠ x ∧ s.ticks[y]? = some st' := by
  unfold setStage at h
  dsimp only at h
  rw [List.getElem?_set] at h
  split_ifs at h with same inside
  · exact .inl ⟨same.symm, (Option.some.inj h).symm⟩
  · exact .inr ⟨Ne.symm same, h⟩

theorem set_tick_self {x : ℕ} {st : Stage} (found : s.ticks[x]? = some st) (st' : Stage) :
    (setStage s x st').ticks[x]? = some st' := by
  obtain ⟨inside, -⟩ := List.getElem?_eq_some_iff.mp found
  exact List.getElem?_set_self inside

theorem set_tick_other {x y : ℕ} (st : Stage) (other : y ≠ x) : (setStage s x st).ticks[y]? = s.ticks[y]? :=
  List.getElem?_set_ne other.symm

theorem set_job {i k : ℕ} {f : Job → Job} {j' : Job} (h : (setJob s i f).jobs[k]? = some j') :
    ∃ j, s.jobs[k]? = some j ∧ (k = i ∧ j' = f j ∨ k ≠ i ∧ j' = j) := by
  unfold setJob at h
  dsimp only at h
  rw [List.getElem?_modify] at h
  obtain ⟨j, found, rfl⟩ := Option.map_eq_some_iff.mp h
  refine ⟨j, found, ?_⟩
  by_cases same : i = k
  · exact .inl ⟨same.symm, if_pos same⟩
  · exact .inr ⟨Ne.symm same, if_neg same⟩

theorem set_job_self {i : ℕ} {j : Job} (f : Job → Job) (found : s.jobs[i]? = some j) :
    (setJob s i f).jobs[i]? = some (f j) := by
  unfold setJob
  rw [List.getElem?_modify_eq, found]
  rfl

theorem set_job_other {i k : ℕ} (f : Job → Job) (other : k ≠ i) : (setJob s i f).jobs[k]? = s.jobs[k]? :=
  List.getElem?_modify_ne f s.jobs other.symm

theorem current_claims {st : Stage} {c : Claimed} (h : st.current = some c) : st.claims = c :: st.queue := by
  unfold Stage.claims
  rw [h]
  rfl

theorem queue_claims {st : Stage} {c : Claimed} (h : c ∈ st.queue) : c ∈ st.claims := List.mem_append_right _ h

theorem Held.narrows (h : Held s) {x : ℕ} {st st' : Stage} (found : s.ticks[x]? = some st)
    (fewer : st'.claims.Sublist st.claims) :
    (∀ (y : ℕ) (st : Stage), (s.ticks.set x st')[y]? = some st → st.held.Nodup) ∧
      ∀ (y z : ℕ) (st₁ st₂ : Stage), y ≠ z →
        (s.ticks.set x st')[y]? = some st₁ → (s.ticks.set x st')[z]? = some st₂ →
        ∀ c ∈ st₁.claims, ∀ d ∈ st₂.claims, c.id ≠ d.id ∧ c.job.mutation.meets d.job.mutation = false := by
  have old : ∀ (y : ℕ) (st₁ : Stage), (s.ticks.set x st')[y]? = some st₁ →
      ∃ st₀ : Stage, s.ticks[y]? = some st₀ ∧ st₁.claims.Sublist st₀.claims := by
    intro y st₁ here
    rcases set_tick (s := s) here with ⟨rfl, rfl⟩ | ⟨_, there⟩
    · exact ⟨st, found, fewer⟩
    · exact ⟨st₁, there, List.Sublist.refl _⟩
  constructor
  · intro y st₁ here
    obtain ⟨st₀, there, sub⟩ := old y st₁ here
    exact (h.nodup y st₀ there).sublist (sub.map _)
  · intro y z st₁ st₂ other here here' c inside d inside'
    obtain ⟨st₀, there, sub⟩ := old y st₁ here
    obtain ⟨st₀', there', sub'⟩ := old z st₂ here'
    exact h.apart y z st₀ st₀' other there there' c (sub.subset inside) d (sub'.subset inside')

theorem Held.jobs (h : Held s) (ticks : s'.ticks = s.ticks)
    (old : ∀ (i : ℕ) (j : Job), s.jobs[i]? = some j → s'.jobs[i]? = some j)
    (running : ∀ (i : ℕ) (j : Job), s'.jobs[i]? = some j → j.status = .RUNNING → s.jobs[i]? = some j) : Held s' where
  nodup := ticks ▸ h.nodup
  waiting x st found c inside := by
    obtain ⟨j, there, rest⟩ := h.waiting x st (ticks ▸ found) c inside
    exact ⟨j, old c.id j there, rest⟩
  working x st found c inside := by
    obtain ⟨j, there, rest⟩ := h.working x st (ticks ▸ found) c inside
    exact ⟨j, old c.id j there, rest⟩
  left := ticks ▸ h.left
  apart := ticks ▸ h.apart
  running i j here runs := by
    obtain ⟨x, st, c, found, rest⟩ := h.running i j (running i j here runs) runs
    exact ⟨x, st, c, ticks ▸ found, rest⟩

theorem Held.stays (h : Held s) {x : ℕ} {st st' : Stage} (found : s.ticks[x]? = some st)
    (ticks : s'.ticks = s.ticks.set x st') (jobs : s'.jobs = s.jobs)
    (current : st'.current = st.current) (queue : st'.queue = st.queue)
    (left : ∀ c left queue, st' = .processing c left queue → left.Sublist c.job.mutation.rows) : Held s' := by
  have claims : st'.claims = st.claims := by rw [Stage.claims, current, queue, Stage.claims]
  have fewer : st'.claims.Sublist st.claims := by rw [claims]
  obtain ⟨nodup, apart⟩ := h.narrows found fewer
  have split : ∀ (y : ℕ) (st₁ : Stage), s'.ticks[y]? = some st₁ →
      ∃ st₀ : Stage, s.ticks[y]? = some st₀ ∧ st₁.current = st₀.current ∧ st₁.queue = st₀.queue := by
    intro y st₁ here
    rw [ticks] at here
    rcases set_tick (s := s) here with ⟨rfl, rfl⟩ | ⟨_, there⟩
    · exact ⟨st, found, current, queue⟩
    · exact ⟨st₁, there, rfl, rfl⟩
  refine ⟨ticks ▸ nodup, ?_, ?_, ?_, ticks ▸ apart, ?_⟩
  · intro y st₁ here c inside
    obtain ⟨st₀, there, -, same⟩ := split y st₁ here
    rw [jobs]
    exact h.waiting y st₀ there c (same ▸ inside)
  · intro y st₁ here c inside
    obtain ⟨st₀, there, same, -⟩ := split y st₁ here
    rw [jobs]
    exact h.working y st₀ there c (same ▸ inside)
  · intro y c rest q here
    rw [ticks] at here
    rcases set_tick (s := s) here with ⟨_, own⟩ | ⟨_, there⟩
    · exact left c rest q own.symm
    · exact h.left y c rest q there
  · intro i j here runs
    obtain ⟨y, st₀, c, there, works, own⟩ := h.running i j (jobs ▸ here) runs
    by_cases other : y = x
    · subst other
      rw [found, Option.some.injEq] at there
      subst there
      exact ⟨y, st', c, ticks ▸ set_tick_self found st', current.trans works, own⟩
    · exact ⟨y, st₀, c, ticks ▸ (set_tick_other st' other).trans there, works, own⟩

theorem Held.claimed (h : Held s) {x : ℕ} {st : Stage} (found : s.ticks[x]? = some st) {c : Claimed}
    (inside : c ∈ st.claims) : ∃ j : Job, s.jobs[c.id]? = some j ∧ j.mutation = c.job.mutation ∧
      (j.status = .RUNNING ∨ j.status = .PENDING) := by
  rcases List.mem_append.mp inside with current | queued
  · obtain ⟨j, here, same, runs⟩ := h.working x st found c (Option.mem_toList.mp current)
    exact ⟨j, here, same, .inl runs⟩
  · obtain ⟨j, here, same, waits⟩ := h.waiting x st found c queued
    exact ⟨j, here, same, .inr waits⟩

theorem Held.marks (h : Held s) {x : ℕ} {st st' : Stage} {c : Claimed} {f : Job → Job}
    (found : s.ticks[x]? = some st) (claims : st.claims = c :: st'.queue)
    (same : ∀ j, (f j).mutation = j.mutation)
    (current : st'.current = none ∧ (∀ j, (f j).status ≠ .RUNNING) ∨
      st'.current = some c ∧ ∀ j, (f j).status = .RUNNING)
    (left : ∀ c left queue, st' = .processing c left queue → left.Sublist c.job.mutation.rows) :
    Held (setStage (setJob s c.id f) x st') := by
  have fewer : st'.claims.Sublist st.claims := by
    rw [claims]
    rcases current with ⟨ended, -⟩ | ⟨works, -⟩
    · rw [Stage.claims, ended]
      exact List.sublist_cons_self _ _
    · rw [current_claims works]
  obtain ⟨nodup, apart⟩ := h.narrows found fewer
  have own : c ∈ st.claims := claims ▸ List.mem_cons_self
  have queued : ∀ d ∈ st'.queue, d.id ≠ c.id := by
    intro d inside equal
    have once := h.nodup x st found
    rw [Stage.held, claims, List.map_cons, List.nodup_cons, ← equal] at once
    exact once.1 (List.mem_map_of_mem inside)
  obtain ⟨j₀, here₀, same₀, -⟩ := h.claimed found own
  refine ⟨nodup, ?_, ?_, ?_, apart, ?_⟩
  · intro y st₁ here d inside
    change ∃ j : Job, (setJob s c.id f).jobs[d.id]? = some j ∧ _
    rcases set_tick here with ⟨rfl, rfl⟩ | ⟨other, there⟩
    · rw [set_job_other f (queued d inside)]
      have mem : d ∈ st.claims := claims ▸ List.mem_cons_of_mem _ inside
      rcases List.mem_append.mp mem with working | waits
      · have first := current_claims (Option.mem_toList.mp working)
        rw [claims, List.cons.injEq] at first
        exact absurd (congrArg Claimed.id first.1.symm) (queued d inside)
      · exact h.waiting y st found d waits
    · rw [set_job_other f (h.apart y x st₁ st other there found d (queue_claims inside) c own).1]
      exact h.waiting y st₁ there d inside
  · intro y st₁ here d inside
    change ∃ j : Job, (setJob s c.id f).jobs[d.id]? = some j ∧ _
    rcases set_tick here with ⟨rfl, rfl⟩ | ⟨other, there⟩
    · rcases current with ⟨ended, -⟩ | ⟨works, runs⟩
      · rw [ended] at inside
        cases inside
      · rw [works] at inside
        cases inside
        exact ⟨f j₀, set_job_self f here₀, (same j₀).trans same₀, runs j₀⟩
    · rw [set_job_other f (h.apart y x st₁ st other there found d
        (by rw [current_claims inside]; exact List.mem_cons_self) c own).1]
      exact h.working y st₁ there d inside
  · intro y d rest q here
    rcases set_tick here with ⟨_, own⟩ | ⟨_, there⟩
    · exact left d rest q own.symm
    · exact h.left y d rest q there
  · intro i j' here runs
    obtain ⟨j, there, ⟨rfl, rfl⟩ | ⟨other, rfl⟩⟩ := set_job (s := s) here
    · rcases current with ⟨-, ended⟩ | ⟨works, -⟩
      · exact absurd runs (ended j)
      · exact ⟨x, st', c, set_tick_self (s := setJob s c.id f) found st', works, rfl⟩
    · obtain ⟨y, st₀, d, there', works, rfl⟩ := h.running i j' there runs
      have apart : y ≠ x := by
        rintro rfl
        rw [found, Option.some.injEq] at there'
        subst there'
        have first := current_claims works
        rw [claims, List.cons.injEq] at first
        exact other (congrArg Claimed.id first.1.symm)
      exact ⟨y, st₀, d, (set_tick_other (s := setJob s c.id f) st' apart).trans there', works, rfl⟩

theorem Held.crashes (h : Held s) {x : ℕ} {st : Stage} (found : s.ticks[x]? = some st) (idle : st.current = none) :
    Held (setStage s x (.ready [])) := by
  have fewer : (Stage.ready []).claims.Sublist st.claims := List.nil_sublist _
  obtain ⟨nodup, apart⟩ := h.narrows found fewer
  refine ⟨nodup, ?_, ?_, ?_, apart, ?_⟩
  · intro y st₁ here c inside
    rcases set_tick here with ⟨-, rfl⟩ | ⟨_, there⟩
    · cases inside
    · exact h.waiting y st₁ there c inside
  · intro y st₁ here c inside
    rcases set_tick here with ⟨-, rfl⟩ | ⟨_, there⟩
    · cases inside
    · exact h.working y st₁ there c inside
  · intro y c rest q here
    rcases set_tick here with ⟨_, own⟩ | ⟨_, there⟩
    · cases own
    · exact h.left y c rest q there
  · intro i j here runs
    obtain ⟨y, st₀, c, there, works, own⟩ := h.running i j here runs
    have apart : y ≠ x := by
      rintro rfl
      rw [found, Option.some.injEq] at there
      subst there
      rw [idle] at works
      cases works
    exact ⟨y, st₀, c, (set_tick_other _ apart).trans there, works, own⟩

theorem mem_claim {picked : List ℕ} {c : Claimed} :
    c ∈ claim s picked ↔ c.id ∈ picked ∧ s.jobs[c.id]? = some c.job := by
  unfold claim
  rw [List.mem_filterMap]
  constructor
  · intro ⟨i, inside, same⟩
    obtain ⟨j, here, rfl⟩ := Option.map_eq_some_iff.mp same
    exact ⟨inside, here⟩
  · intro ⟨inside, here⟩
    exact ⟨c.id, inside, by rw [here]; rfl⟩

theorem eligible_iff {i : ℕ} :
    eligible s i = true ↔ (∃ j, s.jobs[i]? = some j ∧ j.status = .PENDING ∧ j.runAt ≤ s.clock) ∧ locked s i = false := by
  unfold eligible due
  rw [Bool.and_eq_true, Option.any_eq_true, Bool.not_eq_true']
  simp

theorem claim_ids {picked : List ℕ} (there : ∀ i ∈ picked, eligible s i = true) :
    (claim s picked).map (·.id) = picked := by
  induction picked with
  | nil => rfl
  | cons i picked ih =>
    obtain ⟨⟨j, here, -⟩, -⟩ := eligible_iff.mp (there i List.mem_cons_self)
    have rest := ih fun k inside => there k (List.mem_cons_of_mem _ inside)
    unfold claim at rest ⊢
    rw [List.filterMap_cons, here]
    exact congrArg _ rest

theorem busy_of_claim {x : ℕ} {st : Stage} {c : Claimed} (found : s.ticks[x]? = some st) (inside : c ∈ st.claims) :
    busy s c.id = true := by
  unfold busy
  rw [List.any_eq_true]
  exact ⟨st, List.mem_of_getElem? found, List.contains_iff_mem.mpr (List.mem_map_of_mem inside)⟩

theorem related_iff {i k : ℕ} : related s i k = true ↔
    ∃ j l, s.jobs[i]? = some j ∧ s.jobs[k]? = some l ∧ j.mutation.meets l.mutation = true := by
  unfold related
  rw [Option.any_eq_true]
  simp only [Option.any_eq_true]
  constructor
  · intro ⟨j, here, l, there, meets⟩
    exact ⟨j, l, here, there, meets⟩
  · intro ⟨j, l, here, there, meets⟩
    exact ⟨j, here, l, there, meets⟩

theorem append_tick {y : ℕ} {st st' : Stage} (h : (s.ticks ++ [st])[y]? = some st') :
    y = s.ticks.length ∧ st' = st ∨ s.ticks[y]? = some st' := by
  rcases Nat.lt_or_ge y s.ticks.length with old | new
  · rw [List.getElem?_append_left old] at h
    exact .inr h
  · rw [List.getElem?_append_right new, List.getElem?_singleton] at h
    split_ifs at h with first
    exact .inl ⟨by omega, (Option.some.inj h).symm⟩

theorem Held.selects (h : Held s) {picked : List ℕ} (picks : Picks s picked)
    (orderly : Orderly s (.select picked)) :
    Held { s with ticks := s.ticks ++ [.selecting (claim s picked)] } := by
  have claims : (Stage.selecting (claim s picked)).claims = claim s picked := rfl
  have fresh : ∀ (y : ℕ) (st : Stage), s.ticks[y]? = some st → ∀ c ∈ claim s picked, ∀ d ∈ st.claims,
      c.id ≠ d.id ∧ c.job.mutation.meets d.job.mutation = false := by
    intro y st found c new d old
    obtain ⟨inside, here⟩ := mem_claim.mp new
    obtain ⟨j, there, same, -⟩ := h.claimed found old
    obtain ⟨short, -⟩ := List.getElem?_eq_some_iff.mp there
    have free := orderly c.id inside d.id short
    rw [busy_of_claim found old] at free
    constructor
    · intro equal
      exact absurd (free (.inl equal.symm)).1 Bool.noConfusion
    · by_contra meets
      refine absurd (free (.inr ?_)).1 Bool.noConfusion
      rw [related_iff]
      refine ⟨j, c.job, there, here, ?_⟩
      rw [same, meets_comm]
      exact Bool.not_eq_false _ ▸ meets
  refine ⟨?_, ?_, ?_, ?_, ?_, ?_⟩
  · intro y st here
    rcases append_tick here with ⟨-, rfl⟩ | there
    · rw [Stage.held, claims, claim_ids picks.eligible]
      exact picks.nodup
    · exact h.nodup y st there
  · intro y st here c inside
    rcases append_tick here with ⟨-, rfl⟩ | there
    · obtain ⟨picked, found⟩ := mem_claim.mp inside
      obtain ⟨⟨j, found', waits, -⟩, -⟩ := eligible_iff.mp (picks.eligible c.id picked)
      rw [found, Option.some.injEq] at found'
      exact ⟨c.job, found, rfl, found' ▸ waits⟩
    · exact h.waiting y st there c inside
  · intro y st here c inside
    rcases append_tick here with ⟨-, rfl⟩ | there
    · cases inside
    · exact h.working y st there c inside
  · intro y c rest q here
    rcases append_tick here with ⟨-, own⟩ | there
    · cases own
    · exact h.left y c rest q there
  · intro y z st₁ st₂ other here here' c inside d inside'
    rcases append_tick here with ⟨first, rfl⟩ | there
    · rcases append_tick here' with ⟨second, -⟩ | there'
      · exact absurd (first.trans second.symm) other
      · exact fresh z st₂ there' c inside d inside'
    · rcases append_tick here' with ⟨-, rfl⟩ | there'
      · obtain ⟨distinct, disjoint⟩ := fresh y st₁ there d inside' c inside
        exact ⟨distinct.symm, meets_comm.trans disjoint⟩
      · exact h.apart y z st₁ st₂ other there there' c inside d inside'
  · intro i j here runs
    obtain ⟨x, st, c, found, rest⟩ := h.running i j here runs
    obtain ⟨short, -⟩ := List.getElem?_eq_some_iff.mp found
    exact ⟨x, st, c, (List.getElem?_append_left short).trans found, rest⟩

theorem held_step {e : Event} (h : Held s) (orderly : Orderly s e) (effect : Effect s e s') : Held s' := by
  cases effect with
  | waits => exact h.jobs rfl (fun _ _ here => here) fun _ _ here _ => here
  | mutates => exact h.jobs rfl (fun _ _ here => here) fun _ _ here _ => here
  | enqueues =>
    refine h.jobs rfl (fun i j here => ?_) fun i j here runs => ?_
    · obtain ⟨short, -⟩ := List.getElem?_eq_some_iff.mp here
      exact (List.getElem?_append_left short).trans here
    · rcases Nat.lt_or_ge i s.jobs.length with old | new
      · exact (List.getElem?_append_left old).symm.trans here
      · have last := List.mem_of_getElem? ((List.getElem?_append_right new).symm.trans here)
        rw [List.mem_singleton.mp last] at runs
        cases runs
  | loses => exact orderly.elim
  | selects picks => exact h.selects picks orderly
  | moves found current queue pauses =>
    exact h.stays found rfl rfl current queue fun c left queue own => absurd own (pauses c left queue)
  | crashes found => exact h.crashes found (orderly _ found)
  | starts found =>
    refine h.marks found rfl (fun j => rfl) (.inr ⟨rfl, fun j => rfl⟩) ?_
    intro c left queue own
    cases own
    exact List.Sublist.refl _
  | removes found =>
    refine h.stays found rfl rfl rfl rfl ?_
    intro c left queue own
    cases own
    exact (List.sublist_cons_self _ _).trans (h.left _ _ _ _ found)
  | sends found =>
    refine h.stays found rfl rfl ?_ ?_ ?_
    · split_ifs <;> rfl
    · split_ifs <;> rfl
    · intro c left queue own
      split_ifs at own
      cases own
      exact List.nil_sublist _
  | completes found =>
    exact h.marks found rfl (fun j => rfl) (.inl ⟨rfl, fun j => nofun⟩) nofun
  | defers found =>
    refine h.marks found rfl (fun j => rfl) (.inl ⟨rfl, fun j => ?_⟩) nofun
    unfold deferred
    dsimp only
    split_ifs <;> nofun

theorem claimed_logged (rec : Recorded s) (held : Held s) {x : ℕ} {st : Stage} {c : Claimed}
    (found : s.ticks[x]? = some st) (inside : c ∈ st.claims) : c.job.mutation ∈ s.log := by
  obtain ⟨j, here, same, -⟩ := held.claimed found inside
  rw [← same]
  exact rec.logged _ (List.mem_append_left _ (List.mem_map_of_mem (List.mem_of_getElem? here)))

theorem recorded_step {e : Event} (rec : Recorded s) (held : Held s) (orderly : Orderly s e) (effect : Effect s e s') :
    Recorded s' := by
  cases effect with
  | waits | selects | moves | crashes => exact rec.same rfl rfl rfl rec.named
  | mutates once => exact recorded_mutate rec once orderly.1 orderly.2
  | enqueues found => exact recorded_enqueue rec found
  | loses => exact orderly.elim
  | starts | completes | defers =>
    refine rec.same rfl rfl (modify_mutation ?_ _ _) rec.named
    intro j
    rfl
  | removes found =>
    refine rec.same rfl rfl rfl ?_
    have logged := claimed_logged rec held found List.mem_cons_self
    have inside := (held.left _ _ _ _ found).subset List.mem_cons_self
    cases orderly
    exact (removeRow_docs rec.recognised rec.named logged inside).1
  | sends found kept each written =>
    refine rec.same rfl rfl rfl ?_
    have logged := claimed_logged rec held found List.mem_cons_self
    rw [written]
    refine (bulkIndex_docs rec.recognised logged rec.named fun p inside => ?_).1
    exact (held.left _ _ _ _ found).subset (List.of_mem_zip inside).1

structure Later (j j' : Job) : Prop where
  mutation : j'.mutation = j.mutation
  createdAt : j'.createdAt = j.createdAt
  completed : j.status = .COMPLETED → j'.status = .COMPLETED
  failed : j.status = .FAILED → j'.status = .FAILED

theorem Later.refl (j : Job) : Later j j := ⟨rfl, rfl, id, id⟩

theorem later_marks (held : Held s) {x : ℕ} {st : Stage} {c : Claimed} {f : Job → Job} {i : ℕ} {j' : Job}
    (here : (setJob s c.id f).jobs[i]? = some j') (found : s.ticks[x]? = some st) (inside : c ∈ st.claims)
    (mutation : ∀ j, (f j).mutation = j.mutation) (createdAt : ∀ j, (f j).createdAt = j.createdAt) :
    ∃ j, s.jobs[i]? = some j ∧ Later j j' := by
  obtain ⟨j, there, ⟨rfl, rfl⟩ | ⟨-, rfl⟩⟩ := set_job here
  · refine ⟨j, there, mutation j, createdAt j, ?_, ?_⟩
    all_goals
      intro status
      obtain ⟨j₀, there₀, -, own⟩ := held.claimed found inside
      rw [there, Option.some.injEq] at there₀
      rw [← there₀, status] at own
      simp at own
  · exact ⟨j', there, .refl j'⟩

theorem later_step {e : Event} (held : Held s) (orderly : Orderly s e) (effect : Effect s e s') {i : ℕ} {j' : Job}
    (here : s'.jobs[i]? = some j') : (∃ j, s.jobs[i]? = some j ∧ Later j j') ∨
      ∃ x m, e = .enqueue x ∧ s.owed[x]? = some m ∧ i = s.jobs.length ∧ j' = newJob s.clock m := by
  cases effect with
  | waits | mutates | selects | moves | crashes | removes | sends => exact .inl ⟨j', here, .refl j'⟩
  | loses => exact orderly.elim
  | enqueues found =>
    rcases Nat.lt_or_ge i s.jobs.length with old | new
    · exact .inl ⟨j', (List.getElem?_append_left old).symm.trans here, .refl j'⟩
    · have last := (List.getElem?_append_right new).symm.trans here
      rw [List.getElem?_singleton] at last
      split_ifs at last with first
      exact .inr ⟨_, _, rfl, found, by omega, (Option.some.inj last).symm⟩
  | starts found => exact .inl (later_marks held here found List.mem_cons_self (fun j => rfl) fun j => rfl)
  | completes found => exact .inl (later_marks held here found List.mem_cons_self (fun j => rfl) fun j => rfl)
  | defers found => exact .inl (later_marks held here found List.mem_cons_self (fun j => rfl) fun j => rfl)

/-- Unfinished jobs of a row are older than the jobs after them. -/
def Timed (s : World) : Prop := ∀ (i k : ℕ) (a b : Job), i < k → s.jobs[i]? = some a → s.jobs[k]? = some b →
  a.mutation.meets b.mutation = true → a.status ≠ .COMPLETED → a.createdAt < b.createdAt

theorem timed_step {e : Event} (timed : Timed s) (held : Held s) (orderly : Orderly s e) (effect : Effect s e s') :
    Timed s' := by
  intro i k a b before hereA hereB meets unfinished
  rcases later_step held orderly effect hereA with ⟨a₀, thereA, laterA⟩ | ⟨x, m, -, -, rfl, -⟩
  · have open₀ : a₀.status ≠ .COMPLETED := fun done => unfinished (laterA.completed done)
    rcases later_step held orderly effect hereB with ⟨b₀, thereB, laterB⟩ | ⟨x, m, rfl, found, rfl, rfl⟩
    · rw [laterA.mutation, laterB.mutation] at meets
      rw [laterA.createdAt, laterB.createdAt]
      exact timed i k a₀ b₀ before thereA thereB meets open₀
    · rw [laterA.mutation] at meets
      rw [laterA.createdAt]
      exact orderly m found a₀ (List.mem_of_getElem? thereA) open₀ meets
  · rcases later_step held orderly effect hereB with ⟨b₀, thereB, -⟩ | ⟨-, -, -, -, rfl, -⟩
    · obtain ⟨short, -⟩ := List.getElem?_eq_some_iff.mp thereB
      omega
    · omega

def Healthy (s : World) : Prop := ∀ j ∈ s.jobs, j.status ≠ .FAILED

theorem jobs_length {e : Event} (orderly : Orderly s e) (effect : Effect s e s') : s.jobs.length ≤ s'.jobs.length := by
  cases effect with
  | waits | mutates | selects | moves | crashes | removes | sends => exact Nat.le_refl _
  | loses => exact orderly.elim
  | enqueues =>
    rw [List.length_append]
    omega
  | starts | completes | defers => exact (List.length_modify _ _ _).ge

theorem healthy_before {e : Event} (held : Held s) (orderly : Orderly s e) (effect : Effect s e s')
    (healthy : Healthy s') : Healthy s := by
  intro j inside failed
  obtain ⟨i, short, rfl⟩ := List.getElem_of_mem inside
  have longer := jobs_length orderly effect
  have bound : i < s'.jobs.length := by omega
  have here : s'.jobs[i]? = some s'.jobs[i] := List.getElem?_eq_getElem bound
  rcases later_step held orderly effect here with ⟨j₀, there, later⟩ | ⟨-, -, -, -, rfl, -⟩
  · rw [List.getElem?_eq_getElem short, Option.some.injEq] at there
    exact healthy _ (List.getElem_mem _) (later.failed (there ▸ failed))
  · omega

end DataFabric.EsMutations
