import Mathlib.Data.List.Basic

set_option autoImplicit false

/-!
# Scripts of statements around one transaction

A program sends its statements through one connection that holds a transaction, or past it through a
pool whose statements commit at once; it may swallow the error of a statement.
-/
namespace DataFabric.TransactionScripts

inductive Via | transaction | pool
  deriving DecidableEq, Repr

structure Step (ε : Type*) where
  statement : ε
  via : Via
  /-- Its error is swallowed. -/
  caught : Bool
  deriving DecidableEq, Repr

/-- `working` is what the transaction sees of its own part of the database; `shared` is the part that
only the pool writes. -/
structure Session (σ τ : Type*) where
  working : σ
  shared : τ
  aborted : Bool

/-- What the database makes of a statement of the transaction and of one of the pool, each refused with
`none`, and of the commit. -/
structure Engine (σ τ ε : Type*) where
  write : σ → τ → ε → Option σ
  serve : σ → τ → ε → Option τ
  commits : σ → τ → Bool

inductive Ending | success | thrown
  deriving DecidableEq, Repr

variable {σ τ ε : Type*} (g : Engine σ τ ε) (committed : σ)

def attempt (s : Session σ τ) (e : Step ε) : Option (Session σ τ) :=
  match e.via with
  | .transaction =>
    if s.aborted then none
    else (g.write s.working s.shared e.statement).map fun w => { s with working := w }
  | .pool => (g.serve committed s.shared e.statement).map fun t => { s with shared := t }

/-- A refused statement aborts the transaction it was sent in. -/
def refuse (s : Session σ τ) (e : Step ε) : Session σ τ :=
  match e.via with
  | .transaction => { s with aborted := true }
  | .pool => s

def runSteps : Session σ τ → List (Step ε) → Except (Session σ τ) (Session σ τ)
  | s, [] => .ok s
  | s, e :: es =>
    match attempt g committed s e with
    | some s' => runSteps s' es
    | none => if e.caught then runSteps (refuse s e) es else .error (refuse s e)

def begin_ (d : σ × τ) : Session σ τ := ⟨d.1, d.2, false⟩

/-- An error rolls the transaction back and is thrown again; the commit of an aborted transaction
rolls back without an error. -/
def transact (d : σ × τ) (steps : List (Step ε)) : Ending × σ × τ :=
  match runSteps g d.1 (begin_ d) steps with
  | .error s => (.thrown, d.1, s.shared)
  | .ok s =>
    if s.aborted then (.success, d.1, s.shared)
    else if g.commits s.working s.shared then (.success, s.working, s.shared)
    else (.thrown, d.1, s.shared)

def Before (d : σ × τ) (steps : List (Step ε)) (pre : List (Step ε)) (e : Step ε) (s : Session σ τ) :
    Prop :=
  (∃ post, steps = pre ++ e :: post) ∧ runSteps g d.1 (begin_ d) pre = .ok s

/-- A thrown error leaves the database as it was; a swallowed one neither makes a later statement
fail nor has the rest discarded. -/
structure AllOrNothing (d : σ × τ) (steps : List (Step ε)) : Prop where
  restores : (transact g d steps).1 = .thrown → (transact g d steps).2 = d
  unrefused : ∀ pre e s, Before g d steps pre e s → e.via = .transaction → s.aborted = false
  kept : ∀ s, runSteps g d.1 (begin_ d) steps = .ok s → s.aborted = false

/-- No swallowed statement is refused, and when another one is, or the commit, the pool has changed
nothing. -/
structure Sound (d : σ × τ) (steps : List (Step ε)) : Prop where
  caught : ∀ pre e s, Before g d steps pre e s → e.via = .transaction → e.caught = true →
    (attempt g d.1 s e).isSome = true
  refused : ∀ pre e s, Before g d steps pre e s → attempt g d.1 s e = none → e.caught = false →
    s.shared = d.2
  commit : ∀ s, runSteps g d.1 (begin_ d) steps = .ok s → g.commits s.working s.shared = false →
    s.shared = d.2

/-- After a swallowed statement of the transaction comes another statement of it. -/
def Followed (steps : List (Step ε)) : Prop :=
  ∀ pre e post, steps = pre ++ e :: post → e.via = .transaction → e.caught = true →
    ∃ e' post', post = e' :: post' ∧ e'.via = .transaction

variable {g committed} {s s' : Session σ τ} {e : Step ε} {es pre post : List (Step ε)} {d : σ × τ}

theorem attempt_aborted (h : attempt g committed s e = some s') : s'.aborted = s.aborted := by
  unfold attempt at h
  split at h
  · split at h
    · cases h
    · obtain ⟨w, _, rfl⟩ := Option.map_eq_some_iff.mp h
      rfl
  · obtain ⟨t, _, rfl⟩ := Option.map_eq_some_iff.mp h
    rfl

theorem refuse_shared : (refuse s e).shared = s.shared := by
  unfold refuse
  split <;> rfl

theorem runSteps_append : runSteps g committed s (pre ++ post) =
    (runSteps g committed s pre).bind fun s' => runSteps g committed s' post := by
  induction pre generalizing s with
  | nil => rfl
  | cons e pre ih =>
    rw [List.cons_append, runSteps, runSteps]
    cases attempt g committed s e with
    | some s₁ => exact ih
    | none =>
      cases e.caught with
      | true => exact ih
      | false => rfl

theorem runSteps_refused (hpre : runSteps g committed s pre = .ok s') (h : attempt g committed s' e = none)
    (hcaught : e.caught = false) : runSteps g committed s (pre ++ e :: post) = .error (refuse s' e) := by
  rw [runSteps_append, hpre]
  change runSteps g committed s' (e :: post) = _
  rw [runSteps, h, hcaught]
  rfl

theorem runSteps_error (h : runSteps g committed s es = .error s') : ∃ pre e post s₀, es = pre ++ e :: post ∧
    runSteps g committed s pre = .ok s₀ ∧ attempt g committed s₀ e = none ∧ e.caught = false ∧
      s' = refuse s₀ e := by
  induction es generalizing s with
  | nil => cases h
  | cons e es ih =>
    rw [runSteps] at h
    cases hattempt : attempt g committed s e with
    | some s₁ =>
      rw [hattempt] at h
      obtain ⟨pre, e', post, s₀, rfl, hpre, hrest⟩ := ih h
      refine ⟨e :: pre, e', post, s₀, rfl, ?_, hrest⟩
      rw [runSteps, hattempt]
      exact hpre
    | none =>
      rw [hattempt] at h
      cases hcaught : e.caught with
      | false =>
        rw [hcaught] at h
        exact ⟨[], e, es, s, rfl, rfl, hattempt, hcaught, (Except.error.inj h).symm⟩
      | true =>
        rw [hcaught] at h
        obtain ⟨pre, e', post, s₀, rfl, hpre, hrest⟩ := ih h
        refine ⟨e :: pre, e', post, s₀, rfl, ?_, hrest⟩
        rw [runSteps, hattempt, hcaught]
        exact hpre

theorem unaborted (hs : s.aborted = false) (hrun : runSteps g committed s es = .ok s')
    (hcaught : ∀ pre e post s₀, es = pre ++ e :: post → runSteps g committed s pre = .ok s₀ →
      e.via = .transaction → e.caught = true → (attempt g committed s₀ e).isSome = true) :
    s'.aborted = false := by
  induction es generalizing s with
  | nil =>
    cases hrun
    exact hs
  | cons e es ih =>
    rw [runSteps] at hrun
    have hlater (s₁ : Session σ τ) (hnext : runSteps g committed s [e] = .ok s₁) (pre : List (Step ε))
        (e' : Step ε) (post : List (Step ε)) (s₀ : Session σ τ) (hes : es = pre ++ e' :: post)
        (hpre : runSteps g committed s₁ pre = .ok s₀) :=
      hcaught (e :: pre) e' post s₀ (by rw [hes]; rfl) (by
        rw [show e :: pre = [e] ++ pre from rfl, runSteps_append, hnext]
        exact hpre)
    cases hattempt : attempt g committed s e with
    | some s₁ =>
      rw [hattempt] at hrun
      refine ih ((attempt_aborted hattempt).trans hs) hrun (hlater s₁ ?_)
      rw [runSteps, hattempt]
      rfl
    | none =>
      rw [hattempt] at hrun
      cases hswallowed : e.caught with
      | false =>
        rw [hswallowed] at hrun
        cases hrun
      | true =>
        rw [hswallowed] at hrun
        cases hvia : e.via with
        | transaction =>
          have hsome := hcaught [] e es s rfl rfl hvia hswallowed
          rw [hattempt] at hsome
          cases hsome
        | pool =>
          have hsame : refuse s e = s := by rw [refuse, hvia]
          rw [hsame] at hrun
          refine ih hs hrun (hlater s ?_)
          rw [runSteps, hattempt, hswallowed, hsame]
          rfl

theorem transact_thrown {steps : List (Step ε)} (h : (transact g d steps).1 = .thrown) :
    (transact g d steps).2.1 = d.1 := by
  unfold transact at h ⊢
  split at h
  · rfl
  · split_ifs at h ⊢
    rfl

theorem transact_refused {steps : List (Step ε)} (hbefore : Before g d steps pre e s)
    (h : attempt g d.1 s e = none) (hcaught : e.caught = false) : (transact g d steps).1 = .thrown := by
  obtain ⟨⟨post, rfl⟩, hpre⟩ := hbefore
  rw [transact, runSteps_refused hpre h hcaught]

theorem transact_uncommitted {steps : List (Step ε)} (hrun : runSteps g d.1 (begin_ d) steps = .ok s)
    (haborted : s.aborted = false) (hcommits : g.commits s.working s.shared = false) :
    (transact g d steps).1 = .thrown := by
  rw [transact, hrun]
  dsimp only
  rw [haborted, hcommits]
  rfl

theorem Followed.cons (h : Followed es) (he : e.via = .transaction → e.caught = true →
    ∃ e' post', es = e' :: post' ∧ e'.via = .transaction) : Followed (e :: es) := by
  intro pre e' post hsplit hvia hcaught
  cases pre with
  | nil =>
    cases hsplit
    exact he hvia hcaught
  | cons e'' pre => exact h pre e' post (List.cons.inj hsplit).2 hvia hcaught

variable {steps : List (Step ε)}

theorem allOrNothing_of_sound (h : Sound g d steps) : AllOrNothing g d steps := by
  refine ⟨fun hthrown => ?_, fun pre e s ⟨⟨post, hsteps⟩, hpre⟩ _ => ?_, fun s hs => ?_⟩
  · unfold transact at hthrown ⊢
    cases hrun : runSteps g d.1 (begin_ d) steps with
    | error s =>
      obtain ⟨pre, e, post, s₀, hsteps, hpre, hattempt, hcaught, rfl⟩ := runSteps_error hrun
      have hshared := h.refused pre e s₀ ⟨⟨post, hsteps⟩, hpre⟩ hattempt hcaught
      exact Prod.ext rfl (refuse_shared.trans hshared)
    | ok s =>
      rw [hrun] at hthrown
      dsimp only at hthrown ⊢
      cases haborted : s.aborted with
      | true =>
        rw [haborted] at hthrown
        cases hthrown
      | false =>
        rw [haborted] at hthrown
        cases hcommits : g.commits s.working s.shared with
        | true =>
          rw [hcommits] at hthrown
          cases hthrown
        | false => exact Prod.ext rfl (h.commit s hrun hcommits)
  · refine unaborted (s := begin_ d) rfl hpre fun pre' e' post' s₀ hsplit hpre' => ?_
    refine h.caught pre' e' s₀ ⟨⟨post' ++ e :: post, ?_⟩, hpre'⟩
    rw [hsteps, hsplit, List.append_assoc]
    rfl
  · exact unaborted (s := begin_ d) rfl hs fun pre' e' post' s₀ hsplit hpre' =>
      h.caught pre' e' s₀ ⟨⟨post', hsplit⟩, hpre'⟩

theorem sound_of_allOrNothing (hf : Followed steps) (h : AllOrNothing g d steps) : Sound g d steps := by
  refine ⟨fun pre e s ⟨⟨post, hsteps⟩, hpre⟩ hvia hcaught => ?_,
    fun pre e s ⟨⟨post, hsteps⟩, hpre⟩ hattempt hcaught => ?_, fun s hs hcommits => ?_⟩
  · obtain ⟨e', post', rfl, hvia'⟩ := hf pre e post hsteps hvia hcaught
    by_contra hnone
    rw [Bool.not_eq_true, Option.isSome_eq_false_iff, Option.isNone_iff_eq_none] at hnone
    have hnext : runSteps g d.1 (begin_ d) (pre ++ [e]) = .ok (refuse s e) := by
      rw [runSteps_append, hpre]
      change runSteps g d.1 s [e] = _
      rw [runSteps, hnone, hcaught]
      rfl
    have haborted := h.unrefused (pre ++ [e]) e' (refuse s e)
      ⟨⟨post', by rw [hsteps, List.append_assoc]; rfl⟩, hnext⟩ hvia'
    rw [refuse, hvia] at haborted
    cases haborted
  · have hrun : runSteps g d.1 (begin_ d) steps = .error (refuse s e) := by
      rw [hsteps]
      exact runSteps_refused hpre hattempt hcaught
    have hrestores := h.restores
    rw [transact, hrun] at hrestores
    exact refuse_shared.symm.trans (congrArg Prod.snd (hrestores rfl))
  · have hrestores := h.restores
    rw [transact, hs] at hrestores
    dsimp only at hrestores
    rw [h.kept s hs, hcommits] at hrestores
    exact congrArg Prod.snd (hrestores rfl)

end DataFabric.TransactionScripts
