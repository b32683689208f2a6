import DataFabric.CdcCapture

set_option autoImplicit false

/-! # What a drain keeps in order -/
namespace DataFabric.CdcDrains

open NumberedLogs CdcCapture

variable {α δ : Type*} {apply : δ → Entry α → Option δ} {batchSize : ℕ+}
variable {log log' : List (Entry α)} {c c' : Consumer α δ}

/-- The numbers a consumer holds agree with its saved position. -/
def InStep (c : Consumer α δ) : Prop :=
  match c.phase with
  | .idle => True
  | .reading seq _ => c.saved = seq
  | .applying rest seq _ _ =>
    c.saved ≤ seq ∧ (rest.Pairwise fun a b => a.seq < b.seq) ∧ ∀ x ∈ rest, seq < x.seq
  | .pruning seq => c.saved = seq

/-- The entries of `R` are in the log, above the consumer and in or behind its batch. -/
structure Ahead (R : Entry α → Prop) (log : List (Entry α)) (c : Consumer α δ) : Prop where
  stored : ∀ e, R e → e ∈ log
  beyond : ∀ e, R e → c.current < e.seq
  fetched : ∀ e, R e → e ∈ c.batch ∨ ∀ x ∈ c.batch, x.seq < e.seq

def Takes (c : Consumer α δ) (e : Entry α) : Prop := c.batch.head? = some e

def Within (n : ℕ) (c : Consumer α δ) : Prop :=
  c.current < n ∧ ∀ x ∈ c.batch, x.seq < n

theorem saved_le_current (h : InStep c) : c.saved ≤ c.current := by
  unfold InStep at h
  unfold Consumer.current
  cases hphase : c.phase with
  | idle => exact le_rfl
  | reading seq applied =>
    rw [hphase] at h
    exact le_of_eq h
  | applying rest seq applied short =>
    rw [hphase] at h
    exact h.1
  | pruning seq =>
    rw [hphase] at h
    exact le_of_eq h

theorem crash_current_le (h : InStep c) : c.crash.current ≤ c.current := by
  change c.saved ≤ c.current
  exact saved_le_current h

theorem inStep_crash (c : Consumer α δ) : InStep c.crash := trivial

theorem inStep_consume (hnum : Numbered log) (hin : InStep c)
    (h : consume apply batchSize log c = some (log', c')) : InStep c' := by
  unfold InStep at hin
  rcases consume_cases h with ⟨hp, -, rfl⟩ | ⟨seq, applied, hp, -, -, rfl⟩ |
    ⟨seq, applied, hp, -, -, rfl⟩ | ⟨e, rest, seq, applied, short, sink, hp, -, -, rfl⟩ |
    ⟨seq, applied, short, hp, -, rfl⟩ | ⟨seq, hp, -, rfl⟩ <;> simp only [hp] at hin
  · exact rfl
  · unfold InStep
    by_cases hzero : applied = 0
    · simp [hzero]
    · simp [hzero, hin]
  · refine ⟨le_of_eq hin, ?_, fun x hx => (mem_readBatch hx).2⟩
    exact (pending_strict hnum seq).sublist (List.take_sublist _ _)
  · obtain ⟨hle, hsorted, hbelow⟩ := hin
    rw [List.pairwise_cons] at hsorted
    have hhead := hbelow e List.mem_cons_self
    refine ⟨?_, hsorted.2, hsorted.1⟩
    change c.saved ≤ e.seq
    omega
  · unfold InStep
    cases short <;> rfl
  · trivial

theorem ahead_mono {R R' : Entry α → Prop} (h : Ahead R log c) (hsub : ∀ e, R' e → R e) :
    Ahead R' log c where
  stored e he := h.stored e (hsub e he)
  beyond e he := h.beyond e (hsub e he)
  fetched e he := h.fetched e (hsub e he)

theorem ahead_log {R : Entry α → Prop} (h : Ahead R log c) (hkept : ∀ e, R e → e ∈ log') :
    Ahead R log' c := ⟨hkept, h.beyond, h.fetched⟩

theorem ahead_consume {R : Entry α → Prop} (hnum : Numbered log) (hin : InStep c)
    (hahead : Ahead R log c) (h : consume apply batchSize log c = some (log', c')) :
    Ahead (fun e => R e ∧ ¬ Takes c e) log' c' := by
  obtain ⟨hstored, hbeyond, hfetched⟩ := hahead
  unfold InStep at hin
  unfold Consumer.current at hbeyond
  unfold Consumer.batch at hfetched
  rcases consume_cases h with ⟨hp, rfl, rfl⟩ | ⟨seq, applied, hp, hnone, rfl, rfl⟩ |
    ⟨seq, applied, hp, -, rfl, rfl⟩ | ⟨e, rest, seq, applied, short, sink, hp, -, rfl, rfl⟩ |
    ⟨seq, applied, short, hp, rfl, rfl⟩ | ⟨seq, hp, rfl, rfl⟩ <;>
    simp only [hp] at hin hbeyond hfetched
  · exact ⟨fun x hx => hstored x hx.1, fun x hx => hbeyond x hx.1, fun x _ => .inr nofun⟩
  · have hempty : ∀ x, ¬ R x := by
      intro x hx
      have hmem := mem_pending.mpr ⟨hstored x hx, hbeyond x hx⟩
      rw [hnone] at hmem
      exact List.not_mem_nil hmem
    exact ⟨fun x hx => absurd hx.1 (hempty x), fun x hx => absurd hx.1 (hempty x),
      fun x hx => absurd hx.1 (hempty x)⟩
  · exact ⟨fun x hx => hstored x hx.1, fun x hx => hbeyond x hx.1,
      fun x hx => readBatch_rest hnum (hstored x hx.1) (hbeyond x hx.1)⟩
  · have hrest : ∀ x, R x ∧ ¬ Takes c x → x ∈ rest ∨ ∀ y ∈ e :: rest, y.seq < x.seq := by
      intro x hx
      rcases hfetched x hx.1 with hmem | hlt
      · rcases List.mem_cons.mp hmem with rfl | hmem
        · have htakes : Takes c x := by
            unfold Takes Consumer.batch
            rw [hp]
            rfl
          exact absurd htakes hx.2
        · exact .inl hmem
      · exact .inr hlt
    rw [List.pairwise_cons] at hin
    refine ⟨fun x hx => hstored x hx.1, fun x hx => ?_, fun x hx => ?_⟩
    · rcases hrest x hx with hmem | hlt
      · exact hin.2.1.1 x hmem
      · exact hlt e List.mem_cons_self
    · exact (hrest x hx).imp_right fun hlt y hy => hlt y (List.mem_cons_of_mem e hy)
  · refine ⟨fun x hx => hstored x hx.1, fun x hx => ?_, fun x _ => .inr ?_⟩
    · unfold Consumer.current
      cases short <;> exact hbeyond x hx.1
    · cases short <;> nofun
  · exact ⟨fun x hx => mem_pruneUpTo.mpr ⟨hstored x hx.1, hbeyond x hx.1⟩,
      fun x hx => hin ▸ hbeyond x hx.1, fun x _ => .inr nofun⟩

theorem ahead_crash {R : Entry α → Prop} (hin : InStep c) (h : Ahead R log c) :
    Ahead R log c.crash :=
  ⟨h.stored, fun e he => lt_of_le_of_lt (crash_current_le hin) (h.beyond e he),
    fun _ _ => .inr nofun⟩

theorem ahead_append {R R' : Entry α → Prop} {new : List (Entry α)} (h : Ahead R log c)
    (hsub : ∀ e, R' e → R e ∨ e ∈ new) (hnew : ∀ e ∈ new, Within e.seq c) :
    Ahead R' (log ++ new) c where
  stored e he := List.mem_append.mpr ((hsub e he).imp_left (h.stored e))
  beyond e he := (hsub e he).elim (h.beyond e) fun hmem => (hnew e hmem).1
  fetched e he := (hsub e he).elim (h.fetched e) fun hmem => .inr (hnew e hmem).2

theorem within_crash {n : ℕ} (hin : InStep c) (h : Within n c) : Within n c.crash :=
  ⟨lt_of_le_of_lt (crash_current_le hin) h.1, nofun⟩

theorem within_consume {n : ℕ} (hin : InStep c) (hwithin : Within n c)
    (hread : ∀ seq applied, c.phase = .reading seq applied →
      ∀ e ∈ readBatch log seq batchSize, e.seq < n)
    (h : consume apply batchSize log c = some (log', c')) : Within n c' := by
  obtain ⟨hcurrent, hbatch⟩ := hwithin
  unfold InStep at hin
  unfold Consumer.current at hcurrent
  unfold Consumer.batch at hbatch
  rcases consume_cases h with ⟨hp, -, rfl⟩ | ⟨seq, applied, hp, -, -, rfl⟩ |
    ⟨seq, applied, hp, -, -, rfl⟩ | ⟨e, rest, seq, applied, short, sink, hp, -, -, rfl⟩ |
    ⟨seq, applied, short, hp, -, rfl⟩ | ⟨seq, hp, -, rfl⟩ <;>
    simp only [hp] at hin hcurrent hbatch
  · exact ⟨hcurrent, nofun⟩
  · unfold Within Consumer.current Consumer.batch
    by_cases hzero : applied = 0
    · simp [hzero, hin, hcurrent]
    · simp [hzero, hcurrent]
  · exact ⟨hcurrent, hread seq applied hp⟩
  · exact ⟨hbatch e List.mem_cons_self, fun x hx => hbatch x (List.mem_cons_of_mem e hx)⟩
  · cases short <;> exact ⟨hcurrent, nofun⟩
  · refine ⟨?_, nofun⟩
    change c.saved < n
    rwa [hin]

theorem current_consume (hin : InStep c) (h : consume apply batchSize log c = some (log', c')) :
    c.current ≤ c'.current ∧ ∀ e, Takes c e → c'.current = e.seq := by
  unfold InStep at hin
  unfold Takes Consumer.current Consumer.batch
  rcases consume_cases h with ⟨hp, -, rfl⟩ | ⟨_, applied, hp, -, -, rfl⟩ | ⟨_, _, hp, -, -, rfl⟩ |
    ⟨e, _, _, _, _, _, hp, -, -, rfl⟩ | ⟨_, _, short, hp, -, rfl⟩ | ⟨_, hp, -, rfl⟩ <;>
    simp only [hp] at hin ⊢
  · exact ⟨le_rfl, nofun⟩
  · by_cases hzero : applied = 0 <;> simp [hzero, hin]
  · exact ⟨le_rfl, nofun⟩
  · refine ⟨le_of_lt (hin.2.2 e List.mem_cons_self), fun x hx => ?_⟩
    cases hx
    rfl
  · cases short <;> exact ⟨le_rfl, nofun⟩
  · exact ⟨le_of_eq hin.symm, nofun⟩

theorem read_consume (h : consume apply batchSize log c = some (log', c')) : c.read ⊆ c'.read := by
  rcases consume_cases h with ⟨-, -, rfl⟩ | ⟨_, _, -, -, -, rfl⟩ | ⟨_, _, -, -, -, rfl⟩ |
    ⟨_, _, _, _, _, _, -, -, -, rfl⟩ | ⟨_, _, _, -, -, rfl⟩ | ⟨_, -, -, rfl⟩
  case inr.inr.inl => exact List.subset_append_left _ _
  all_goals exact List.Subset.refl _

theorem log_consume_cases (h : consume apply batchSize log c = some (log', c')) :
    log' = log ∨ ∃ seq, c.phase = .pruning seq ∧ log' = pruneUpTo log seq := by
  rcases consume_cases h with ⟨-, rfl, -⟩ | ⟨_, _, -, -, rfl, -⟩ | ⟨_, _, -, -, rfl, -⟩ |
    ⟨_, _, _, _, _, _, -, -, rfl, -⟩ | ⟨_, _, _, -, rfl, -⟩ | ⟨seq, hp, rfl, -⟩
  case inr.inr.inr.inr.inr => exact .inr ⟨seq, hp, rfl⟩
  all_goals exact .inl rfl

theorem log_consume (h : consume apply batchSize log c = some (log', c')) : log'.Sublist log := by
  rcases log_consume_cases h with rfl | ⟨seq, -, rfl⟩
  · exact List.Sublist.refl _
  · exact List.filter_sublist

theorem batch_read_consume (hread : c.batch ⊆ c.read)
    (h : consume apply batchSize log c = some (log', c')) : c'.batch ⊆ c'.read := by
  unfold Consumer.batch at hread
  rcases consume_cases h with ⟨-, -, rfl⟩ | ⟨_, applied, -, -, -, rfl⟩ | ⟨_, _, -, -, -, rfl⟩ |
    ⟨e, rest, _, _, _, _, hp, -, -, rfl⟩ | ⟨_, _, short, -, -, rfl⟩ | ⟨_, -, -, rfl⟩
  · exact List.nil_subset _
  · unfold Consumer.batch
    by_cases hzero : applied = 0 <;> simp [hzero]
  · exact List.subset_append_right _ _
  · rw [hp] at hread
    exact fun x hx => hread (List.mem_cons_of_mem e hx)
  · unfold Consumer.batch
    cases short <;> exact List.nil_subset _
  · exact List.nil_subset _

theorem skip_consume {e : Entry α} (hin : InStep c) (hle : e.seq ≤ c.saved) (hread : e ∉ c.read)
    (h : consume apply batchSize log c = some (log', c')) :
    e.seq ≤ c'.saved ∧ e ∉ c'.read := by
  unfold InStep at hin
  rcases consume_cases h with ⟨-, -, rfl⟩ | ⟨_, _, -, -, -, rfl⟩ | ⟨seq, applied, hp, -, -, rfl⟩ |
    ⟨_, _, _, _, _, _, -, -, -, rfl⟩ | ⟨seq, _, _, hp, -, rfl⟩ | ⟨_, -, -, rfl⟩
  case inr.inr.inl =>
    simp only [hp] at hin
    refine ⟨hle, fun hmem => ?_⟩
    rcases List.mem_append.mp hmem with hold | hnew
    · exact hread hold
    · have hlt := (mem_readBatch hnew).2
      omega
  case inr.inr.inr.inr.inl =>
    simp only [hp] at hin
    exact ⟨le_trans hle hin.1, hread⟩
  all_goals exact ⟨hle, hread⟩

/-- Nothing in the log is above a drain that comes to its end. -/
def Exhausted (log : List (Entry α)) (c : Consumer α δ) : Prop :=
  match c.phase with
  | .idle => ∀ e ∈ log, e.seq ≤ c.saved
  | .reading _ _ => True
  | .applying rest seq _ short => short = true → ∀ e ∈ log, e ∈ rest ∨ e.seq ≤ seq
  | .pruning seq => ∀ e ∈ log, e.seq ≤ seq

theorem exhausted_consume (hin : InStep c) (hexhausted : c.phase = .idle ∨ Exhausted log c)
    (h : consume apply batchSize log c = some (log', c')) : Exhausted log' c' := by
  unfold InStep at hin
  unfold Exhausted at hexhausted ⊢
  rcases consume_cases h with ⟨hp, rfl, rfl⟩ | ⟨seq, applied, hp, hnone, rfl, rfl⟩ |
    ⟨seq, applied, hp, -, rfl, rfl⟩ | ⟨e, rest, seq, applied, short, sink, hp, -, rfl, rfl⟩ |
    ⟨seq, applied, short, hp, rfl, rfl⟩ | ⟨seq, hp, rfl, rfl⟩ <;>
    simp only [hp, reduceCtorEq, false_or] at hin hexhausted ⊢
  · have hall : ∀ e ∈ log', e.seq ≤ seq := by
      intro e he
      by_contra hlt
      have hmem := mem_pending.mpr ⟨he, not_le.mp hlt⟩
      rw [hnone] at hmem
      exact List.not_mem_nil hmem
    by_cases hzero : applied = 0
    · simpa only [hzero, if_true, hin] using hall
    · simpa only [hzero, if_false] using hall
  · intro hshort e he
    rw [decide_eq_true_eq] at hshort
    by_cases hlt : seq < e.seq
    · rw [readBatch_short hshort]
      exact .inl (mem_pending.mpr ⟨he, hlt⟩)
    · exact .inr (by omega)
  · intro hshort x hx
    rcases hexhausted hshort x hx with hmem | hle
    · rcases List.mem_cons.mp hmem with rfl | hmem
      · exact .inr le_rfl
      · exact .inl hmem
    · have hlt := hin.2.2 e List.mem_cons_self
      exact .inr (by omega)
  · cases short with
    | true => exact fun x hx => (hexhausted rfl x hx).resolve_left List.not_mem_nil
    | false => trivial
  · intro x hx
    rw [hin]
    exact hexhausted x (mem_pruneUpTo.mp hx).1

section Undisturbed

theorem drains_succ (n : ℕ) (x : List (Entry α) × Consumer α δ) :
    drains apply batchSize (n + 1) x =
      (consume apply batchSize x.1 x.2).bind (drains apply batchSize n) := rfl

theorem drains_add (m n : ℕ) (x : List (Entry α) × Consumer α δ) :
    drains apply batchSize (m + n) x =
      (drains apply batchSize m x).bind (drains apply batchSize n) := by
  induction m generalizing x with
  | zero => rw [Nat.zero_add]; rfl
  | succ m ih =>
    rw [Nat.succ_add, drains_succ, drains_succ]
    cases consume apply batchSize x.1 x.2 with
    | none => rfl
    | some y => exact ih y

theorem skip_drains {e : Entry α} {n : ℕ} (hnum : Numbered log) (hin : InStep c) (hle : e.seq ≤ c.saved)
    (hread : e ∉ c.read) (h : drains apply batchSize n (log, c) = some (log', c')) : e ∉ c'.read := by
  induction n generalizing log c with
  | zero =>
    obtain ⟨rfl, rfl⟩ := Prod.mk.inj (Option.some.inj h)
    exact hread
  | succ n ih =>
    rw [drains_succ] at h
    obtain ⟨⟨mid, cmid⟩, hstep, hrest⟩ := Option.bind_eq_some_iff.mp h
    have hskip := skip_consume hin hle hread hstep
    have hnum' : Numbered mid := hnum.sublist ((log_consume hstep).map _)
    exact ih hnum' (inStep_consume hnum hin hstep) hskip.1 hskip.2 hrest

theorem drains_batch {rest : List (Entry α)} {seq applied : ℕ} {short : Bool} {sink : δ}
    (hp : c.phase = .applying rest seq applied short)
    (happly : rest.foldlM apply c.sink = some sink) :
    drains apply batchSize rest.length (log, c) = some (log, { c with
      phase := .applying [] (lastNumber seq rest) (applied + rest.length) short, sink }) := by
  induction rest generalizing c seq applied with
  | nil =>
    obtain ⟨saved, phase, read, sink'⟩ := c
    cases hp
    cases happly
    rfl
  | cons e rest ih =>
    rw [List.foldlM_cons] at happly
    obtain ⟨mid, hmid, hrest⟩ := Option.bind_eq_some_iff.mp happly
    rw [List.length_cons, drains, consume_apply hp hmid, Option.bind_some, ih rfl hrest, lastNumber_cons]
    congr 4
    omega

theorem drains_round {applied : ℕ} {sink : δ} (hp : c.phase = .reading c.saved applied)
    (hbatch : readBatch log c.saved batchSize ≠ [])
    (happly : (readBatch log c.saved batchSize).foldlM apply c.sink = some sink) :
    drains apply batchSize ((readBatch log c.saved batchSize).length + 2) (log, c) =
      some (log, ⟨lastNumber c.saved (readBatch log c.saved batchSize),
        if (readBatch log c.saved batchSize).length < batchSize
        then .pruning (lastNumber c.saved (readBatch log c.saved batchSize))
        else .reading (lastNumber c.saved (readBatch log c.saved batchSize))
          (applied + (readBatch log c.saved batchSize).length),
        c.read ++ readBatch log c.saved batchSize, sink⟩) := by
  have happlied := @drains_batch _ _ apply batchSize log
    ⟨c.saved, .applying (readBatch log c.saved batchSize) c.saved applied
      (decide ((readBatch log c.saved batchSize).length < batchSize)),
      c.read ++ readBatch log c.saved batchSize, c.sink⟩ _ _ _ _ sink rfl happly
  rw [drains_succ, consume_fetch hp hbatch, Option.bind_some, drains_add, happlied,
    Option.bind_some, drains_succ, consume_save rfl, Option.bind_some]
  simp only [decide_eq_true_eq]
  rfl

theorem drains_finish (hnum : Numbered log) {applied : ℕ} {sink : δ}
    (hp : c.phase = .reading c.saved applied)
    (happly : (pending log c.saved).foldlM apply c.sink = some sink) :
    ∃ n log' c', drains apply batchSize n (log, c) = some (log', c') ∧ c'.phase = .idle ∧
      c'.sink = sink ∧ c'.saved = lastNumber c.saved (pending log c.saved) ∧
      c'.read = c.read ++ pending log c.saved := by
  induction hlen : (pending log c.saved).length using Nat.strong_induction_on
    generalizing c applied with
  | _ len ih =>
  by_cases hbatch : readBatch log c.saved batchSize = []
  · have hnone : pending log c.saved = [] := readBatch_eq_nil batchSize.2 hbatch
    rw [hnone] at happly ⊢
    cases happly
    have hdone := @consume_done _ _ apply batchSize log c c.saved applied hp hbatch
    rw [List.append_nil]
    by_cases hzero : applied = 0
    · refine ⟨1, log, ⟨c.saved, .idle, c.read, c.sink⟩, ?_, rfl, rfl, rfl, rfl⟩
      rw [drains_succ, hdone, if_pos hzero]
      rfl
    · refine ⟨2, pruneUpTo log c.saved, ⟨c.saved, .idle, c.read, c.sink⟩, ?_, rfl, rfl, rfl, rfl⟩
      rw [drains_succ, hdone, if_neg hzero, Option.bind_some, drains_succ, consume_prune rfl]
      rfl
  · have hsplit : pending log c.saved =
        readBatch log c.saved batchSize ++ (pending log c.saved).drop batchSize :=
      (List.take_append_drop _ _).symm
    rw [hsplit, List.foldlM_append] at happly
    obtain ⟨mid, hmid, hrest⟩ := Option.bind_eq_some_iff.mp happly
    have hround := drains_round hp hbatch hmid
    by_cases hshort : (readBatch log c.saved batchSize).length < batchSize
    · have hdrop : (pending log c.saved).drop batchSize = [] := by
        have hself := hsplit
        rw [readBatch_short hshort] at hself
        exact List.self_eq_append_right.mp hself
      rw [hdrop] at hrest hsplit
      cases hrest
      rw [if_pos hshort] at hround
      rw [hsplit, List.append_nil]
      refine ⟨(readBatch log c.saved batchSize).length + 2 + 1,
        pruneUpTo log (lastNumber c.saved (readBatch log c.saved batchSize)),
        ⟨lastNumber c.saved (readBatch log c.saved batchSize), .idle,
          c.read ++ readBatch log c.saved batchSize, sink⟩, ?_, rfl, rfl, rfl, rfl⟩
      rw [drains_add, hround, Option.bind_some, drains_succ, consume_prune rfl]
      rfl
    · rw [if_neg hshort] at hround
      have hnext := pending_next hnum c.saved batchSize
      have hpos : 0 < (readBatch log c.saved batchSize).length := List.length_pos_of_ne_nil hbatch
      have hsum := congrArg List.length hsplit
      rw [List.length_append] at hsum
      obtain ⟨n, log', c', hn, hidle, hsink, hsaved, hread⟩ :=
        @ih ((pending log c.saved).drop batchSize).length (by omega)
          ⟨lastNumber c.saved (readBatch log c.saved batchSize),
            .reading (lastNumber c.saved (readBatch log c.saved batchSize))
              (applied + (readBatch log c.saved batchSize).length),
            c.read ++ readBatch log c.saved batchSize, mid⟩
          _ rfl (by rw [hnext]; exact hrest) (by rw [hnext])
      refine ⟨(readBatch log c.saved batchSize).length + 2 + n, log', c', ?_, hidle, hsink, ?_, ?_⟩
      · rw [drains_add, hround, Option.bind_some, hn]
      · rw [hsaved, hnext, ← lastNumber_append, ← hsplit]
      · rw [hread, hnext, List.append_assoc, ← hsplit]

/-- Left alone, the consumer finishes its batch, applies what else is pending and comes to rest; on
the way it meets every entry that was ahead of it. -/
def RunsThrough (apply : δ → Entry α → Option δ) (batchSize : ℕ+) (log : List (Entry α))
    (c : Consumer α δ) : Prop :=
  ∃ n log' c' later, drains apply batchSize n (log, c) = some (log', c') ∧ c'.phase = .idle ∧
    (c.batch ++ later).foldlM apply c.sink = some c'.sink ∧ c'.read = c.read ++ later ∧
    ∀ R, Ahead R log c → ∀ e, R e → e ∈ c.batch ∨ e ∈ later

theorem foldlM_total (htotal : ∀ s e, ∃ s', apply s e = some s') (es : List (Entry α)) (s : δ) :
    ∃ s', es.foldlM apply s = some s' := by
  induction es generalizing s with
  | nil => exact ⟨s, rfl⟩
  | cons e es ih =>
    obtain ⟨mid, hmid⟩ := htotal s e
    obtain ⟨s', hs'⟩ := ih mid
    exact ⟨s', by rw [List.foldlM_cons, hmid]; exact hs'⟩

variable (htotal : ∀ s e, ∃ s', apply s e = some s')
include htotal

theorem runsThrough_reading (hnum : Numbered log) {applied : ℕ}
    (hp : c.phase = .reading c.saved applied) : RunsThrough apply batchSize log c := by
  obtain ⟨sink, hsink⟩ := foldlM_total htotal (pending log c.saved) c.sink
  obtain ⟨n, log', c', hn, hidle, hsink', -, hread⟩ := drains_finish hnum hp hsink
  have hbatch : c.batch = [] := by unfold Consumer.batch; rw [hp]
  refine ⟨n, log', c', pending log c.saved, hn, hidle, ?_, hread, ?_⟩
  · rw [hbatch, hsink']
    exact hsink
  · intro R hahead e he
    have hbeyond := hahead.beyond e he
    unfold Consumer.current at hbeyond
    simp only [hp] at hbeyond
    exact .inr (mem_pending.mpr ⟨hahead.stored e he, hbeyond⟩)

omit htotal in
theorem runsThrough_after (hstep : consume apply batchSize log c = some (log', c'))
    (hsink : c'.sink = c.sink) (hread : c'.read = c.read) (hbatch : c.batch = []) (hbatch' : c'.batch = [])
    (hahead : ∀ R, Ahead R log c → Ahead R log' c') (h : RunsThrough apply batchSize log' c') :
    RunsThrough apply batchSize log c := by
  obtain ⟨n, log'', c'', later, hn, hidle, happly, hreads, hall⟩ := h
  rw [hsink, hbatch'] at happly
  refine ⟨n + 1, log'', c'', later, ?_, hidle, ?_, hread ▸ hreads, ?_⟩
  · rw [drains_succ, hstep, Option.bind_some, hn]
  · rw [hbatch]
    exact happly
  · intro R hR e he
    rw [hbatch, ← hbatch']
    exact hall R (hahead R hR) e he

theorem runsThrough_idle (hnum : Numbered log) (hp : c.phase = .idle) :
    RunsThrough apply batchSize log c := by
  have hbatch : c.batch = [] := by unfold Consumer.batch; rw [hp]
  refine runsThrough_after (consume_idle hp) rfl rfl hbatch rfl ?_
    (runsThrough_reading htotal hnum rfl)
  intro R hR
  refine ⟨hR.stored, fun e he => ?_, fun _ _ => .inr nofun⟩
  have hbeyond := hR.beyond e he
  unfold Consumer.current at hbeyond
  simp only [hp] at hbeyond
  exact hbeyond

theorem runsThrough_pruning (hnum : Numbered log) (hin : InStep c) {seq : ℕ}
    (hp : c.phase = .pruning seq) : RunsThrough apply batchSize log c := by
  have hbatch : c.batch = [] := by unfold Consumer.batch; rw [hp]
  have hstep := @consume_prune _ _ apply batchSize log c seq hp
  refine runsThrough_after hstep rfl rfl hbatch rfl ?_
    (runsThrough_idle htotal (numbered_prune hnum seq) rfl)
  intro R hR
  refine ahead_mono (ahead_consume hnum hin hR hstep) fun e he => ⟨he, ?_⟩
  unfold Takes
  rw [hbatch]
  nofun

theorem runsThrough_applying (hnum : Numbered log)
    {rest : List (Entry α)} {seq applied : ℕ} {short : Bool}
    (hp : c.phase = .applying rest seq applied short) : RunsThrough apply batchSize log c := by
  obtain ⟨mid, hmid⟩ := foldlM_total htotal rest c.sink
  have hbatch : c.batch = rest := by unfold Consumer.batch; rw [hp]
  -- the consumer once the batch is applied and its position saved
  let next : Consumer α δ := ⟨lastNumber seq rest, if short then .pruning (lastNumber seq rest)
    else .reading (lastNumber seq rest) (applied + rest.length), c.read, mid⟩
  have hnext : drains apply batchSize (rest.length + 1) (log, c) = some (log, next) := by
    rw [drains_add, drains_batch hp hmid, Option.bind_some, drains_succ, consume_save rfl,
      Option.bind_some]
    rfl
  have hquiet : next.batch = [] := by
    unfold Consumer.batch
    cases short <;> rfl
  have hthrough : RunsThrough apply batchSize log next := by
    cases short with
    | true => exact runsThrough_pruning htotal hnum rfl rfl
    | false => exact runsThrough_reading htotal hnum rfl
  obtain ⟨n, log', c', later, hn, hidle, happly, hread, hall⟩ := hthrough
  rw [hquiet, List.nil_append] at happly
  refine ⟨rest.length + 1 + n, log', c', later, ?_, hidle, ?_, hread, ?_⟩
  · rw [drains_add, hnext, Option.bind_some, hn]
  · rw [hbatch, List.foldlM_append, hmid]
    exact happly
  · intro R hR e he
    by_cases hmem : e ∈ rest
    · exact .inl (hbatch ▸ hmem)
    · have hahead : Ahead (fun e => R e ∧ e ∉ rest) log next := by
        refine ⟨fun x hx => hR.stored x hx.1, fun x hx => ?_, fun _ _ => .inr ?_⟩
        · have hcurrent : next.current = lastNumber seq rest := by
            unfold Consumer.current
            cases short <;> rfl
          have hbeyond := hR.beyond x hx.1
          have hfetched := (hR.fetched x hx.1).resolve_left (hbatch ▸ hx.2)
          rw [hbatch] at hfetched
          unfold Consumer.current at hbeyond
          simp only [hp] at hbeyond
          rw [hcurrent]
          by_cases hnil : rest = []
          · subst hnil
            exact hbeyond
          · obtain ⟨l, hl, hlast⟩ := @lastNumber_mem α seq rest hnil
            rw [hlast]
            exact hfetched l hl
        · rw [hquiet]
          nofun
      have hlater := hall _ hahead e ⟨he, hmem⟩
      rw [hquiet] at hlater
      exact .inr (hlater.resolve_left List.not_mem_nil)

theorem runsThrough (hnum : Numbered log) (hin : InStep c) : RunsThrough apply batchSize log c := by
  cases hp : c.phase with
  | idle => exact runsThrough_idle htotal hnum hp
  | reading seq applied =>
    unfold InStep at hin
    simp only [hp] at hin
    exact runsThrough_reading htotal hnum (hin ▸ hp)
  | applying rest seq applied short => exact runsThrough_applying htotal hnum hp
  | pruning seq => exact runsThrough_pruning htotal hnum hin hp

end Undisturbed

end DataFabric.CdcDrains
