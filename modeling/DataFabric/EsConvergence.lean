import DataFabric.EsMutationTicks

set_option autoImplicit false

/-!
# Convergence of the search index

In an orderly run the jobs of a row are finished in the order of its mutations.
-/
namespace DataFabric.EsMutations
open TransitionRuns JsValues

variable {s s' : World} {e : Event}

/-- The jobs behind an unfinished job of a row are unfinished, and a tick takes them after it. -/
def Ordered (s : World) : Prop := ∀ (i k : ℕ) (a b : Job), i < k → s.jobs[i]? = some a → s.jobs[k]? = some b →
  a.mutation.meets b.mutation = true → a.status ≠ .COMPLETED → b.status ≠ .COMPLETED ∧
    ∀ (x : ℕ) (st : Stage), s.ticks[x]? = some st → k ∈ st.held → [i, k].Sublist st.held

/-- Some mutation owed or some job not completed changes the row. -/
def Pending (s : World) (k : ℕ) : Prop :=
  (∃ m ∈ s.owed, m.touches k = true) ∨ ∃ j ∈ s.jobs, j.mutation.touches k = true ∧ j.status ≠ .COMPLETED

structure Sound (s : World) : Prop where
  ordered : Ordered s
  current : ∀ k, ¬ Pending s k → docsOf s.docs k = expected s.log k
  sent : ∀ (x : ℕ) (c : Claimed) (left : List Row) (queue : List Claimed),
    s.ticks[x]? = some (.processing c left queue) → ∀ r ∈ c.job.mutation.rows, r ∉ left →
      docsOf s.docs r.key = c.job.mutation.result r.key

theorem pair_sublist {l : List ℕ} {i k : ℕ} (inside : i ∈ l) (inside' : k ∈ l) (distinct : i ≠ k) :
    [i, k].Sublist l ∨ [k, i].Sublist l := by
  induction l with
  | nil => cases inside
  | cons n l ih =>
    rcases List.mem_cons.mp inside with rfl | later
    · rcases List.mem_cons.mp inside' with rfl | later'
      · exact absurd rfl distinct
      · exact .inl ((List.singleton_sublist.mpr later').cons_cons _)
    · rcases List.mem_cons.mp inside' with rfl | later'
      · exact .inr ((List.singleton_sublist.mpr later).cons_cons _)
      · exact (ih later later').imp (·.cons _) (·.cons _)

theorem sublist_tail {l : List ℕ} {i k n : ℕ} (sub : [i, k].Sublist (n :: l)) (other : i ≠ n) : [i, k].Sublist l := by
  cases sub with
  | cons _ sub => exact sub
  | cons_cons => exact absurd rfl other

theorem not_sublist {l : List ℕ} {i k : ℕ} (once : (k :: l).Nodup) (distinct : i ≠ k) : ¬ [i, k].Sublist (k :: l) := by
  intro sub
  have inside := (sublist_tail sub distinct).subset (List.mem_cons_of_mem _ List.mem_cons_self)
  exact (List.nodup_cons.mp once).1 inside

theorem picked_after (held : Held s) (timed : Timed s) (healthy : Healthy s) {picked : List ℕ}
    (picks : Picks s picked) (orderly : Orderly s (.select picked)) {i k : ℕ} {a b : Job} (before : i < k)
    (hereA : s.jobs[i]? = some a) (hereB : s.jobs[k]? = some b) (meets : a.mutation.meets b.mutation = true)
    (unfinished : a.status ≠ .COMPLETED) (selected : k ∈ picked) : [i, k].Sublist picked := by
  obtain ⟨short, -⟩ := List.getElem?_eq_some_iff.mp hereA
  have free := orderly k selected i short (.inr (related_iff.mpr ⟨a, b, hereA, hereB, meets⟩))
  have notHeld : ∀ (x : ℕ) (st : Stage), s.ticks[x]? = some st → ∀ c ∈ st.claims, c.id ≠ i := by
    intro x st found c inside equal
    have taken := busy_of_claim found inside
    rw [equal, free.1] at taken
    cases taken
  have waits : a.status = .PENDING := by
    cases status : a.status with
    | PENDING => rfl
    | RUNNING =>
      obtain ⟨x, st, c, found, works, equal⟩ := held.running i a hereA status
      have inside : c ∈ st.claims := by
        rw [current_claims works]
        exact List.mem_cons_self
      exact absurd equal (notHeld x st found c inside)
    | COMPLETED => exact absurd status unfinished
    | FAILED => exact absurd status (healthy a (List.mem_of_getElem? hereA))
  have due : a.runAt ≤ s.clock := by
    have soon := free.2
    unfold backsOff EsMutations.due at soon
    rw [hereA] at soon
    simpa [waits] using soon
  have unlocked : locked s i = false := by
    unfold locked
    rw [List.any_eq_false]
    intro st inside
    obtain ⟨x, found⟩ := List.mem_iff_getElem?.mp inside
    cases st with
    | selecting queue =>
      rw [Stage.locks, List.any_eq_true]
      intro ⟨c, mem, equal⟩
      exact notHeld x _ found c mem (of_decide_eq_true equal)
    | ready | processing | failing => exact Bool.false_ne_true
  have older := timed i k a b before hereA hereB meets unfinished
  have at₀ : createdAt s i = a.createdAt ∧ createdAt s k = b.createdAt := by
    unfold createdAt
    rw [hereA, hereB]
    exact ⟨rfl, rfl⟩
  have inside : i ∈ picked := by
    by_contra left
    have later := (picks.oldest i short (eligible_iff.mpr ⟨⟨a, hereA, waits, due⟩, unlocked⟩) left).2 k selected
    omega
  rcases pair_sublist inside selected (by omega) with sub | sub
  · exact sub
  · have later := List.pairwise_iff_forall_sublist.mp picks.sorted sub
    omega

theorem Held.other (held : Held s) {x y : ℕ} {st st' : Stage} {c : Claimed} (found : s.ticks[x]? = some st)
    (inside : c ∈ st.claims) (found' : s.ticks[y]? = some st') (inside' : c.id ∈ st'.held) : y = x := by
  by_contra distinct
  obtain ⟨d, mem, equal⟩ := List.mem_map.mp inside'
  exact (held.apart y x st' st distinct found' found d mem c inside).1 equal

theorem ordered_same (sound : Sound s) (jobs : s'.jobs = s.jobs)
    (narrows : ∀ (y : ℕ) (st : Stage), s'.ticks[y]? = some st → st.held = [] ∨
      ∃ st₀ : Stage, s.ticks[y]? = some st₀ ∧ st.held = st₀.held) : Ordered s' := by
  intro i k a b before hereA hereB meets unfinished
  rw [jobs] at hereA hereB
  obtain ⟨later, order⟩ := sound.ordered i k a b before hereA hereB meets unfinished
  refine ⟨later, fun x st found inside => ?_⟩
  rcases narrows x st found with empty | ⟨st₀, there, same⟩
  · rw [empty] at inside
    cases inside
  · rw [same] at inside ⊢
    exact order x st₀ there inside

theorem set_tick_held {x : ℕ} {st st' : Stage} (found : s.ticks[x]? = some st) (same : st'.held = st.held) (y : ℕ)
    (st₁ : Stage) (here : (setStage s x st').ticks[y]? = some st₁) : st₁.held = [] ∨
      ∃ st₀ : Stage, s.ticks[y]? = some st₀ ∧ st₁.held = st₀.held := by
  rcases set_tick here with ⟨rfl, rfl⟩ | ⟨_, there⟩
  · exact .inr ⟨st, found, same⟩
  · exact .inr ⟨st₁, there, rfl⟩

theorem ordered_ends (held : Held s) (sound : Sound s) {x : ℕ} {st st' : Stage} {c : Claimed} {f : Job → Job}
    (found : s.ticks[x]? = some st) (claims : st.claims = c :: st'.queue) (ended : st'.current = none)
    (mutation : ∀ j, (f j).mutation = j.mutation)
    (done : (∀ j, (f j).status = .COMPLETED) ∨ (∀ j, (f j).status ≠ .COMPLETED) ∧
      ∀ d ∈ st'.queue, c.job.mutation.meets d.job.mutation = false) :
    Ordered (setStage (setJob s c.id f) x st') := by
  intro i k a b before hereA hereB meets unfinished
  have own : c ∈ st.claims := claims ▸ List.mem_cons_self
  have heldNow : st.held = c.id :: st'.held := by
    rw [Stage.held, claims, Stage.held, Stage.claims, ended]
    rfl
  have once : (c.id :: st'.held).Nodup := heldNow ▸ held.nodup x st found
  obtain ⟨j, there, same, open₀⟩ := held.claimed found own
  obtain ⟨a₀, thereA, casesA⟩ := set_job (s := s) hereA
  obtain ⟨b₀, thereB, casesB⟩ := set_job (s := s) hereB
  have sameA : a.mutation = a₀.mutation := by
    rcases casesA with ⟨_, rfl⟩ | ⟨_, rfl⟩
    · exact mutation a₀
    · rfl
  have sameB : b.mutation = b₀.mutation := by
    rcases casesB with ⟨_, rfl⟩ | ⟨_, rfl⟩
    · exact mutation b₀
    · rfl
  have unfinished₀ : a₀.status ≠ .COMPLETED := by
    rcases casesA with ⟨rfl, _⟩ | ⟨_, rfl⟩
    · rw [there, Option.some.injEq] at thereA
      rw [← thereA]
      rcases open₀ with status | status <;> rw [status] <;> exact JobStatus.noConfusion
    · exact unfinished
  rw [sameA, sameB] at meets
  obtain ⟨later, order⟩ := sound.ordered i k a₀ b₀ before thereA thereB meets unfinished₀
  have distinct : i ≠ k := by omega
  have behind : k ≠ c.id := by
    rintro rfl
    have sub := order x st found (heldNow ▸ List.mem_cons_self)
    rw [heldNow] at sub
    exact not_sublist once distinct sub
  constructor
  · rcases casesB with ⟨equal, _⟩ | ⟨_, rfl⟩
    · exact absurd equal behind
    · exact later
  · intro y st₁ here inside
    rcases set_tick here with ⟨rfl, rfl⟩ | ⟨_, there'⟩
    · have sub := order y st found (heldNow ▸ List.mem_cons_of_mem _ inside)
      rw [heldNow] at sub
      refine sublist_tail sub ?_
      rintro rfl
      rcases done with completed | ⟨_, last⟩
      · rcases casesA with ⟨_, rfl⟩ | ⟨other, _⟩
        · exact unfinished (completed a₀)
        · exact other rfl
      · obtain ⟨d, mem, rfl⟩ := List.mem_map.mp inside
        rw [Stage.claims, ended, Option.toList_none, List.nil_append] at mem
        obtain ⟨l, thereD, sameD, -⟩ := held.claimed found (claims ▸ List.mem_cons_of_mem _ mem)
        rw [there, Option.some.injEq] at thereA
        rw [thereB, Option.some.injEq] at thereD
        rw [← thereA, same, thereD, sameD, last d mem] at meets
        cases meets
    · exact order y st₁ there' inside

theorem ordered_step (held : Held s) (timed : Timed s) (sound : Sound s) (healthy : Healthy s')
    (orderly : Orderly s e) (effect : Effect s e s') : Ordered s' := by
  have healthy₀ := healthy_before held orderly effect healthy
  cases effect with
  | waits | mutates =>
    exact ordered_same sound rfl fun y st here => .inr ⟨st, here, rfl⟩
  | enqueues =>
    intro i k a b before hereA hereB meets unfinished
    have short : i < s.jobs.length := by
      obtain ⟨bound, -⟩ := List.getElem?_eq_some_iff.mp hereB
      rw [List.length_append, List.length_singleton] at bound
      omega
    have thereA : s.jobs[i]? = some a := (List.getElem?_append_left short).symm.trans hereA
    rcases Nat.lt_or_ge k s.jobs.length with old | new
    · exact sound.ordered i k a b before thereA ((List.getElem?_append_left old).symm.trans hereB) meets unfinished
    · have last := List.mem_of_getElem? ((List.getElem?_append_right new).symm.trans hereB)
      constructor
      · rw [List.mem_singleton.mp last]
        exact JobStatus.noConfusion
      · intro x st found inside
        obtain ⟨c, mem, rfl⟩ := List.mem_map.mp inside
        obtain ⟨j, there, -⟩ := held.claimed found mem
        obtain ⟨bound, -⟩ := List.getElem?_eq_some_iff.mp there
        omega
  | loses => exact orderly.elim
  | selects picks =>
    intro i k a b before hereA hereB meets unfinished
    obtain ⟨later, order⟩ := sound.ordered i k a b before hereA hereB meets unfinished
    refine ⟨later, fun x st found inside => ?_⟩
    rcases append_tick found with ⟨-, rfl⟩ | there
    · have own : (Stage.selecting (claim s _)).held = _ := claim_ids picks.eligible
      rw [own] at inside ⊢
      exact picked_after held timed healthy₀ picks orderly before hereA hereB meets unfinished inside
    · exact order x st there inside
  | moves found current queue =>
    refine ordered_same sound rfl (set_tick_held found ?_)
    rw [Stage.held, Stage.claims, current, queue]
    rfl
  | crashes found =>
    refine ordered_same sound rfl fun y st here => ?_
    rcases set_tick here with ⟨_, rfl⟩ | ⟨_, there⟩
    · exact .inl rfl
    · exact .inr ⟨st, there, rfl⟩
  | @starts x c queue found =>
    intro i k a b before hereA hereB meets unfinished
    obtain ⟨j, there, -, waits⟩ := held.waiting x _ found c List.mem_cons_self
    obtain ⟨a₀, thereA, casesA⟩ := set_job (s := s) hereA
    obtain ⟨b₀, thereB, casesB⟩ := set_job (s := s) hereB
    have sameA : a.mutation = a₀.mutation ∧ a₀.status ≠ .COMPLETED := by
      rcases casesA with ⟨rfl, rfl⟩ | ⟨_, rfl⟩
      · rw [there, Option.some.injEq] at thereA
        rw [← thereA, waits]
        exact ⟨rfl, JobStatus.noConfusion⟩
      · exact ⟨rfl, unfinished⟩
    have sameB : b.mutation = b₀.mutation ∧ (b₀.status ≠ .COMPLETED → b.status ≠ .COMPLETED) := by
      rcases casesB with ⟨_, rfl⟩ | ⟨_, rfl⟩
      · exact ⟨rfl, fun _ => JobStatus.noConfusion⟩
      · exact ⟨rfl, id⟩
    rw [sameA.1, sameB.1] at meets
    obtain ⟨later, order⟩ := sound.ordered i k a₀ b₀ before thereA thereB meets sameA.2
    refine ⟨sameB.2 later, fun y st here inside => ?_⟩
    have sameHeld : (Stage.processing c c.job.mutation.rows queue).held = (Stage.ready (c :: queue)).held := rfl
    rcases set_tick_held (s := s) found sameHeld y st here with empty | ⟨st₀, own, same⟩
    · rw [empty] at inside
      cases inside
    · rw [same] at inside ⊢
      exact order y st₀ own inside
  | removes found => exact ordered_same sound rfl (set_tick_held found rfl)
  | sends found =>
    refine ordered_same sound rfl (set_tick_held found ?_)
    split_ifs <;> rfl
  | completes found =>
    exact ordered_ends held sound found rfl rfl (fun j => rfl) (.inl fun j => rfl)
  | @defers x c queue found =>
    have again : c.terminal = false := by
      by_contra last
      obtain ⟨j, there, -⟩ := held.claimed found List.mem_cons_self
      have now := List.mem_of_getElem? (set_job_self (deferred s.clock c) there)
      refine healthy _ now ?_
      rw [deferred, if_pos (Bool.not_eq_false _ ▸ last)]
    refine ordered_ends held sound found rfl rfl (fun j => rfl) (.inr ⟨fun j => ?_, ?_⟩)
    · rw [deferred, again]
      exact JobStatus.noConfusion
    · have clear := orderly _ found
      change (!c.terminal && queue.any fun d => c.job.mutation.meets d.job.mutation) = false at clear
      rw [again] at clear
      intro d inside
      by_contra both
      have meets : (queue.any fun d => c.job.mutation.meets d.job.mutation) = true :=
        List.any_eq_true.mpr ⟨d, inside, Bool.not_eq_false _ ▸ both⟩
      simp [meets] at clear

theorem pending_claimed (held : Held s) {x k : ℕ} {st : Stage} {c : Claimed} (found : s.ticks[x]? = some st)
    (inside : c ∈ st.claims) (touched : c.job.mutation.touches k = true) : Pending s k := by
  obtain ⟨j, here, same, status⟩ := held.claimed found inside
  refine .inr ⟨j, List.mem_of_getElem? here, same ▸ touched, ?_⟩
  rcases status with status | status <;> rw [status] <;> exact JobStatus.noConfusion

theorem pending_marks {c : Claimed} (f : Job → Job) (mutation : ∀ j, (f j).mutation = j.mutation)
    (unfinished : ∀ j, (f j).status ≠ .COMPLETED) {k : ℕ} (h : Pending s k) : Pending (setJob s c.id f) k := by
  refine h.imp_right fun ⟨j, inside, touched, status⟩ => ?_
  obtain ⟨i, here⟩ := List.mem_iff_getElem?.mp inside
  by_cases own : i = c.id
  · subst own
    exact ⟨f j, List.mem_of_getElem? (set_job_self f here), mutation j ▸ touched, unfinished j⟩
  · exact ⟨j, List.mem_of_getElem? ((set_job_other f own).trans here), touched, status⟩

theorem expected_append {log : List Mutation} {m : Mutation} {k : ℕ} (apart : m.touches k = false) :
    expected (log ++ [m]) k = expected log k := by
  unfold expected
  rw [List.filter_append, List.filter_cons_of_neg (by simp [apart]), List.filter_nil, List.append_nil]

theorem mem_eraseIdx {owed : List Mutation} {x : ℕ} {m n : Mutation} (found : owed[x]? = some m) (inside : n ∈ owed) :
    n = m ∨ n ∈ owed.eraseIdx x := by
  obtain ⟨y, there⟩ := List.mem_iff_getElem?.mp inside
  by_cases same : y = x
  · subst same
    rw [found, Option.some.injEq] at there
    exact .inl there.symm
  · exact .inr (List.mem_eraseIdx_iff_getElem?.mpr ⟨y, same, there⟩)

theorem getLast_jobs {jobs : List Job} {i k : ℕ} {j : Job} (here : jobs[i]? = some j) (touched : j.mutation.touches k = true)
    (last : ∀ l b, i < l → jobs[l]? = some b → b.mutation.touches k = false) :
    ((jobs.map (·.mutation)).filter (·.touches k)).getLast? = some j.mutation := by
  induction jobs generalizing i with
  | nil => cases here
  | cons a jobs ih =>
    rw [List.map_cons]
    cases i with
    | zero =>
      cases here
      have none : (jobs.map (·.mutation)).filter (·.touches k) = [] := by
        rw [List.filter_eq_nil_iff]
        intro m inside
        obtain ⟨b, mem, rfl⟩ := List.mem_map.mp inside
        obtain ⟨l, there⟩ := List.mem_iff_getElem?.mp mem
        rw [last (l + 1) b (by omega) there]
        exact Bool.false_ne_true
      have keep (l : List Mutation) : (j.mutation :: l).filter (·.touches k) = j.mutation :: l.filter (·.touches k) :=
        List.filter_cons_of_pos touched
      rw [keep, none]
      rfl
    | succ i =>
      have rest := ih here fun l b after there => last (l + 1) b (by omega) there
      rw [List.filter_cons]
      split_ifs
      · rw [List.getLast?_cons, rest]
        rfl
      · exact rest

theorem sent_unchanged (held : Held s) (sound : Sound s) {x : ℕ} {c : Claimed} {st : Stage} {docs : List Doc}
    (found : s.ticks[x]? = some st) (inside : c ∈ st.claims) {y : ℕ} {d : Claimed} {left : List Row}
    {queue : List Claimed} (other : y ≠ x) (there : s.ticks[y]? = some (.processing d left queue))
    (same : ∀ k, c.job.mutation.touches k = false → docsOf docs k = docsOf s.docs k) {r : Row}
    (own : r ∈ d.job.mutation.rows) (done : r ∉ left) : docsOf docs r.key = d.job.mutation.result r.key := by
  have apart := (held.apart y x _ _ other there found d List.mem_cons_self c inside).2
  rw [same r.key (untouched apart own)]
  exact sound.sent y d left queue there r own done

theorem request_docs (rec : Recorded s) (held : Held s) {x : ℕ} {c : Claimed} {left : List Row} {queue : List Claimed}
    (found : s.ticks[x]? = some (.processing c left queue)) {k : ℕ} (apart : c.job.mutation.touches k = false) :
    (∀ r ∈ left, docsOf (removeRow c.job.mutation s.docs r) k = docsOf s.docs k) ∧
      ∀ items : List Bool, docsOf (bulkIndex c.job.mutation (s.docs, s.generated) (left.zip items)).1 k =
        docsOf s.docs k := by
  have logged := claimed_logged rec held found List.mem_cons_self
  have inside := (held.left x c left queue found).subset
  have others : ∀ r ∈ left, r.key ≠ k := by
    intro r mem same
    rw [touches_iff.mpr ⟨r, inside mem, same⟩] at apart
    cases apart
  constructor
  · intro r mem
    rw [(removeRow_docs rec.recognised rec.named logged (inside mem)).2 k, if_neg (others r mem).symm]
  · intro items
    refine (bulkIndex_docs rec.recognised logged rec.named fun p mem => ?_).2 k fun p mem => ?_
    · exact inside (List.of_mem_zip mem).1
    · exact others p.1 (List.of_mem_zip mem).1

theorem current_completes (rec : Recorded s) (held : Held s) (sound : Sound s) {x : ℕ} {c : Claimed}
    {queue : List Claimed} (found : s.ticks[x]? = some (.processing c [] queue)) {k : ℕ}
    (settled : ¬ Pending (setJob s c.id (.mark .COMPLETED)) k) : docsOf s.docs k = expected s.log k := by
  obtain ⟨j, here, same, runs⟩ := held.working x _ found c rfl
  have others : ∀ (l : ℕ) (b : Job), l ≠ c.id → s.jobs[l]? = some b → b.mutation.touches k = true →
      b.status = .COMPLETED := by
    intro l b other there touched
    by_contra unfinished
    exact settled (.inr ⟨b, List.mem_of_getElem? ((set_job_other _ other).trans there), touched, unfinished⟩)
  have noneOwed : s.owed.filter (·.touches k) = [] := by
    rw [List.filter_eq_nil_iff]
    exact fun m inside touched => settled (.inl ⟨m, inside, touched⟩)
  cases touched : c.job.mutation.touches k with
  | false =>
    refine sound.current k ?_
    rintro (⟨m, inside, own⟩ | ⟨b, inside, own, unfinished⟩)
    · exact settled (.inl ⟨m, inside, own⟩)
    · obtain ⟨l, there⟩ := List.mem_iff_getElem?.mp inside
      refine unfinished (others l b ?_ there own)
      rintro rfl
      rw [here, Option.some.injEq] at there
      rw [← there, same, touched] at own
      cases own
  | true =>
    obtain ⟨r, inside, rfl⟩ := touches_iff.mp touched
    have last : ((s.jobs.map (·.mutation)).filter (·.touches r.key)).getLast? = some c.job.mutation := by
      rw [← same] at touched ⊢
      refine getLast_jobs here touched fun l b after there => ?_
      by_contra own
      have own' : b.mutation.touches r.key = true := Bool.not_eq_false _ ▸ own
      have unfinished := (sound.ordered c.id l j b after here there (meets_iff.mpr ⟨r.key, touched, own'⟩)
        (by rw [runs]; exact JobStatus.noConfusion)).1
      exact unfinished (others l b (by omega) there own')
    rw [sound.sent x c [] queue found r inside List.not_mem_nil, expected, rec.history, List.filter_append, noneOwed,
      List.append_nil, last]
    rfl

theorem current_step (rec : Recorded s) (held : Held s) (sound : Sound s) (orderly : Orderly s e)
    (effect : Effect s e s') {k : ℕ} (settled : ¬ Pending s' k) : docsOf s'.docs k = expected s'.log k := by
  cases effect with
  | waits | selects | moves | crashes => exact sound.current k settled
  | loses => exact orderly.elim
  | @mutates m =>
    cases touched : m.touches k with
    | true =>
      refine absurd (.inl ⟨m, ?_, touched⟩) settled
      cases sent : m.enqueued with
      | false => rw [touches_enqueued sent] at touched; cases touched
      | true => simp
    | false =>
      dsimp only
      rw [expected_append touched]
      refine sound.current k fun pending => settled (pending.imp_left fun ⟨n, inside, own⟩ => ⟨n, ?_, own⟩)
      dsimp only
      split_ifs
      · exact List.mem_append_left _ inside
      · exact inside
  | @enqueues x m found =>
    refine sound.current k fun pending => settled ?_
    rcases pending with ⟨n, inside, own⟩ | ⟨j, inside, own⟩
    · rcases mem_eraseIdx found inside with rfl | left
      · exact .inr ⟨newJob s.clock n, List.mem_append_right _ List.mem_cons_self, own, nofun⟩
      · exact .inl ⟨n, left, own⟩
    · exact .inr ⟨j, List.mem_append_left _ inside, own⟩
  | starts =>
    exact sound.current k fun pending => settled (pending_marks (.mark .RUNNING) (fun j => rfl) (fun j => nofun) pending)
  | @defers x c =>
    refine sound.current k fun pending => settled (pending_marks (deferred s.clock c) (fun j => rfl) (fun j => ?_) pending)
    unfold deferred
    dsimp only
    split_ifs <;> exact JobStatus.noConfusion
  | completes found => exact current_completes rec held sound found settled
  | removes found =>
    have apart := Bool.eq_false_of_not_eq_true fun touched =>
      settled (pending_claimed held found List.mem_cons_self touched)
    cases orderly
    exact ((request_docs rec held found apart).1 _ List.mem_cons_self).trans (sound.current k settled)
  | sends found kept each written =>
    have apart := Bool.eq_false_of_not_eq_true fun touched =>
      settled (pending_claimed held found List.mem_cons_self touched)
    rw [written]
    exact ((request_docs rec held found apart).2 _).trans (sound.current k settled)

theorem sent_step (rec : Recorded s) (held : Held s) (sound : Sound s) (orderly : Orderly s e) (effect : Effect s e s')
    {y : ℕ} {d : Claimed} {left : List Row} {queue : List Claimed}
    (here : s'.ticks[y]? = some (.processing d left queue)) {r : Row} (own : r ∈ d.job.mutation.rows)
    (done : r ∉ left) : docsOf s'.docs r.key = d.job.mutation.result r.key := by
  cases effect with
  | waits | mutates | enqueues => exact sound.sent y d left queue here r own done
  | loses => exact orderly.elim
  | selects =>
    rcases append_tick here with ⟨-, same⟩ | there
    · cases same
    · exact sound.sent y d left queue there r own done
  | moves found current queue' pauses =>
    rcases set_tick here with ⟨-, same⟩ | ⟨-, there⟩
    · exact absurd same.symm (pauses d left queue)
    · exact sound.sent y d left queue there r own done
  | crashes | completes | defers =>
    rcases set_tick here with ⟨-, same⟩ | ⟨-, there⟩
    · cases same
    · exact sound.sent y d left queue there r own done
  | starts =>
    rcases set_tick here with ⟨-, same⟩ | ⟨-, there⟩
    · cases same
      exact absurd own done
    · exact sound.sent y d left queue there r own done
  | @removes x c q left' queue' applied found delete =>
    cases orderly
    have apart (k : ℕ) (h : c.job.mutation.touches k = false) := (request_docs rec held found h).1 q List.mem_cons_self
    have logged := claimed_logged rec held found List.mem_cons_self
    have inside := (held.left x c (q :: left') queue' found).subset
    rcases set_tick here with ⟨-, same⟩ | ⟨other, there⟩
    · cases same
      dsimp only [setStage]
      rw [if_pos rfl, (removeRow_docs rec.recognised rec.named logged (inside List.mem_cons_self)).2]
      split_ifs with first
      · rw [Mutation.result, if_pos delete]
      · refine sound.sent x _ _ _ found r own fun mem => ?_
        rcases List.mem_cons.mp mem with rfl | later
        · exact first rfl
        · exact done later
    · exact sent_unchanged held sound found List.mem_cons_self other there apart own done
  | @sends x c left' queue' items accepted es found kept each written =>
    have apart (k : ℕ) (h : c.job.mutation.touches k = false) := (request_docs rec held found h).2 items
    have logged := claimed_logged rec held found List.mem_cons_self
    have sub := held.left x c left' queue' found
    rw [written]
    rcases set_tick here with ⟨-, same⟩ | ⟨other, there⟩
    · cases accepted with
      | false => cases same
      | true =>
        cases same
        have flags := orderly rfl
        have mem : ∀ p ∈ left'.zip items, p.1 ∈ d.job.mutation.rows := fun p h => sub.subset (List.of_mem_zip h).1
        have once := rec.once _ logged
        have written : (left'.zip items).map (·.1) = left' := List.map_fst_zip each.ge
        by_cases now : r ∈ left'
        · rw [← written] at now
          obtain ⟨p, inZip, rfl⟩ := List.mem_map.mp now
          have keys : ((left'.zip items).map (·.1.key)).Nodup := by
            have split : (left'.zip items).map (·.1.key) = ((left'.zip items).map (·.1)).map (·.key) := by
              rw [List.map_map]
              rfl
            rw [split, written]
            exact once.sublist (sub.map _)
          rw [result_row once kept own]
          exact bulkIndex_all rec.recognised logged rec.named mem keys
            (fun p h => flags p.2 (List.of_mem_zip h).2) p inZip
        · have others : ∀ p ∈ left'.zip items, p.1.key ≠ r.key := by
            intro p h same
            have equal := List.inj_on_of_nodup_map once (mem p h) own same
            exact now (equal ▸ (List.of_mem_zip h).1)
          exact ((bulkIndex_docs rec.recognised logged rec.named mem).2 r.key others).trans
            (sound.sent x d left' _ found r own now)
    · exact sent_unchanged held sound found List.mem_cons_self other there apart own done

structure Invariant (s : World) : Prop where
  recorded : Recorded s
  held : Held s
  timed : Timed s
  sound : Healthy s → Sound s

theorem invariant_initial : Invariant initial := by
  have noTick (x : ℕ) (st : Stage) : initial.ticks[x]? ≠ some st := nofun
  have noJob (i : ℕ) (j : Job) : initial.jobs[i]? ≠ some j := nofun
  refine ⟨⟨fun _ => rfl, ?_, .nil, ?_, ?_, ?_⟩, ⟨?_, ?_, ?_, ?_, ?_, ?_⟩, ?_, fun _ => ⟨?_, fun _ _ => rfl, ?_⟩⟩
  · exact fun m inside => absurd inside List.not_mem_nil
  · exact fun m inside => absurd inside List.not_mem_nil
  · exact fun m inside => absurd inside List.not_mem_nil
  · exact fun d inside => absurd inside List.not_mem_nil
  · exact fun x st found => absurd found (noTick x st)
  · exact fun x st found => absurd found (noTick x st)
  · exact fun x st found => absurd found (noTick x st)
  · exact fun x c left queue found => absurd found (noTick x _)
  · exact fun x y st st' _ found => absurd found (noTick x st)
  · exact fun i j here => absurd here (noJob i j)
  · exact fun i k a b _ here => absurd here (noJob i a)
  · exact fun i k a b _ here => absurd here (noJob i a)
  · exact fun x c left queue found => absurd found (noTick x _)

theorem invariant_step (h : Invariant s) (orderly : Orderly s e) (stepped : step s e = some s') : Invariant s' := by
  obtain ⟨rec, held, timed, sound⟩ := h
  have effect := step_effect stepped
  refine ⟨recorded_step rec held orderly effect, held_step held orderly effect, timed_step timed held orderly effect, ?_⟩
  intro healthy
  have sound₀ := sound (healthy_before held orderly effect healthy)
  exact ⟨ordered_step held timed sound₀ healthy orderly effect,
    fun k settled => current_step rec held sound₀ orderly effect settled,
    fun y d left queue here r own done => sent_step rec held sound₀ orderly effect here own done⟩

theorem invariant_run {es : List Event} (h : run step initial es = some s) (orderly : Throughout step Orderly initial es) :
    Invariant s :=
  run_preserves_under h orderly invariant_initial fun _ _ _ _ inv own stepped => invariant_step inv own stepped

theorem Held.exclusive (h : Held s) : Exclusive s := by
  intro x y i ⟨st, c, found, works, own⟩ ⟨st', d, found', works', own'⟩
  by_contra other
  have inside : c ∈ st.claims := current_claims works ▸ List.mem_cons_self
  have inside' : d ∈ st'.claims := current_claims works' ▸ List.mem_cons_self
  exact (h.apart x y st st' other found found' c inside d inside').1 (own.trans own'.symm)

theorem Held.unlocked (h : Held s) {x : ℕ} {st : Stage} {c : Claimed} (found : s.ticks[x]? = some st)
    (works : st.current = some c) : locked s c.id = false := by
  unfold locked
  rw [List.any_eq_false]
  intro st' inside locks
  obtain ⟨y, found'⟩ := List.mem_iff_getElem?.mp inside
  cases st' with
  | selecting queue =>
    obtain ⟨d, mem, own⟩ := List.any_eq_true.mp locks
    have taken : c.id ∈ (Stage.selecting queue).held := List.mem_map.mpr ⟨d, mem, of_decide_eq_true own⟩
    obtain rfl := h.other found (current_claims works ▸ List.mem_cons_self) found' taken
    rw [found, Option.some.injEq] at found'
    rw [found'] at works
    cases works
  | ready | processing | failing => cases locks

theorem deferred_status (clock : ℕ) (c : Claimed) (j : Job) : (deferred clock c j).status ≠ .RUNNING := by
  unfold deferred
  dsimp only
  split_ifs <;> exact JobStatus.noConfusion

theorem Held.releases (h : Held s) : Releases s := by
  intro i j here runs
  obtain ⟨x, st, c, found, works, rfl⟩ := h.running i j here runs
  refine ⟨x, ⟨st, c, found, works, rfl⟩, ?_⟩
  have free := h.unlocked found works
  have ended (s₁ : World) (queue : List Claimed) (jobs : s₁.jobs = s.jobs) (clock : s₁.clock = s.clock) :
      ∀ j', (setStage (setJob s₁ c.id (deferred s₁.clock c)) x (.ready queue)).jobs[c.id]? = some j' →
        j'.status ≠ .RUNNING := by
    intro j' now
    obtain ⟨j₀, -, ⟨-, rfl⟩ | ⟨other, -⟩⟩ := set_job now
    · exact deferred_status _ _ _
    · exact absurd rfl other
  cases st with
  | selecting | ready => cases works
  | processing d left queue =>
    cases works
    have there := set_tick_self found (.failing c queue)
    have free' : locked (setStage s x (.failing c queue)) c.id = false := by
      unfold locked at free ⊢
      rw [List.any_eq_false] at free ⊢
      intro st inside
      rcases List.mem_or_eq_of_mem_set inside with old | rfl
      · exact free st old
      · exact Bool.false_ne_true
    refine ⟨[.fail x, .defer x], _, ?_, ?_, ended (setStage s x (.failing c queue)) queue rfl rfl⟩
    · intro e inside
      rcases List.mem_pair.mp inside with rfl | rfl <;> rfl
    · simp [step, found, there, free']
  | failing d queue =>
    cases works
    refine ⟨[.defer x], _, ?_, ?_, ended s queue rfl rfl⟩
    · intro e inside
      rw [List.mem_singleton.mp inside]
      rfl
    · simp [step, found, free]

/-- In an orderly run the index converges, and no job is processed twice at a time or left running. -/
theorem mutations_converge (es : List Event) (s : World) (orderly : Throughout step Orderly initial es)
    (h : run step initial es = some s) : Correct s := by
  have inv := invariant_run h orderly
  refine ⟨inv.held.exclusive, inv.held.releases, fun ⟨owed, completed⟩ key => ?_⟩
  have healthy : Healthy s := fun j inside => by
    rw [completed j inside]
    nofun
  refine (inv.sound healthy).current key ?_
  rintro (⟨m, inside, -⟩ | ⟨j, inside, -, unfinished⟩)
  · rw [owed] at inside
    cases inside
  · exact unfinished (completed j inside)

def order (name : String) : Row := ⟨0, .obj [("id", .num 1), ("customer", .str name)]⟩

def inserted : Mutation := ⟨"acme", "tenant_acme_sales", "orders", .INSERT, [order "Ann"]⟩

def corrected : Mutation := ⟨"acme", "tenant_acme_sales", "orders", .UPDATE, [order "Anna"]⟩

def twoJobs : List Event :=
  [.mutate inserted, .enqueue 0, .wait 1, .mutate corrected, .enqueue 0, .select [0, 1], .commit 0,
    .start 0, .bulk 0 [true] true, .complete 0, .start 0, .bulk 0 [true] true, .complete 0]

theorem order_converges : ∃ s, run step initial twoJobs = some s ∧ Settled s ∧ Correct s := by
  have orderly : Throughout step Orderly initial twoJobs := throughout_of_checks (by decide +kernel)
  have done : (run step initial twoJobs).any (fun s => decide (Settled s)) = true := by decide +kernel
  obtain ⟨s, found, settled⟩ := Option.any_eq_true _ _ |>.mp done
  exact ⟨s, found, of_decide_eq_true settled, mutations_converge twoJobs s orderly found⟩

/-- The second tick selects the job before the first has marked it. -/
def overlap : List Event :=
  [.mutate inserted, .enqueue 0, .select [0], .commit 0, .select [0], .commit 1, .start 0, .start 1]

theorem job_processed_twice : ¬ ∀ es s, run step initial es = some s → Correct s := by
  intro claim
  have both : (run step initial overlap).any (fun s => decide (s.ticks.map (·.current.map (·.id)) = [some 0, some 0])) = true := by
    decide +kernel
  obtain ⟨s, found, same⟩ := Option.any_eq_true _ _ |>.mp both
  have ticks := of_decide_eq_true same
  have processes (x : ℕ) (own : (s.ticks.map (·.current.map (·.id)))[x]? = some (some 0)) : Processes s x 0 := by
    rw [List.getElem?_map] at own
    obtain ⟨st, here, current⟩ := Option.map_eq_some_iff.mp own
    obtain ⟨c, works, equal⟩ := Option.map_eq_some_iff.mp current
    exact ⟨st, c, here, works, equal⟩
  have equal := (claim overlap s found).1 0 1 0 (processes 0 (by rw [ticks]; rfl)) (processes 1 (by rw [ticks]; rfl))
  cases equal

end DataFabric.EsMutations
