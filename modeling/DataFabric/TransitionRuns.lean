import Mathlib.Data.Set.Basic

set_option autoImplicit false

/-! # Runs of a state machine and the invariant rule -/
namespace DataFabric.TransitionRuns

variable {σ ε : Type*}

/-- A run applies its events in order; a refused event ends it. -/
def run (step : σ → ε → Option σ) : σ → List ε → Option σ
  | s, [] => some s
  | s, e :: es => (step s e).bind fun s' => run step s' es

inductive Reachable (init : Set σ) (step : σ → ε → Option σ) : σ → Prop
  | init {s : σ} : s ∈ init → Reachable init step s
  | step {s s' : σ} {e : ε} : Reachable init step s → step s e = some s' → Reachable init step s'

variable {init : Set σ} {step : σ → ε → Option σ}

@[simp] theorem run_nil (s : σ) : run step s [] = some s := rfl

@[simp] theorem run_cons (s : σ) (e : ε) (es : List ε) :
    run step s (e :: es) = (step s e).bind fun s' => run step s' es := rfl

theorem reachable_run {s s' : σ} {es : List ε} (hs : Reachable init step s)
    (h : run step s es = some s') : Reachable init step s' := by
  induction es generalizing s with
  | nil =>
    rw [run_nil, Option.some.injEq] at h
    exact h ▸ hs
  | cons e es ih =>
    rw [run_cons, Option.bind_eq_some_iff] at h
    obtain ⟨m, hm, hrest⟩ := h
    exact ih (.step hs hm) hrest

theorem run_append (s : σ) (es fs : List ε) :
    run step s (es ++ fs) = (run step s es).bind fun s' => run step s' fs := by
  induction es generalizing s with
  | nil => rfl
  | cons e es ih =>
    rw [List.cons_append, run_cons, run_cons, Option.bind_assoc]
    exact congrArg _ (funext fun s' => ih s')

theorem run_preserves {P : σ → Prop} {s s' : σ} {es : List ε} (h : run step s es = some s') (hs : P s)
    (hstep : ∀ e ∈ es, ∀ s s', P s → step s e = some s' → P s') : P s' := by
  induction es generalizing s with
  | nil =>
    rw [run_nil, Option.some.injEq] at h
    exact h ▸ hs
  | cons e es ih =>
    rw [run_cons, Option.bind_eq_some_iff] at h
    obtain ⟨m, hm, hrest⟩ := h
    exact ih hrest (hstep e List.mem_cons_self _ _ hs hm)
      fun e' he' => hstep e' (List.mem_cons_of_mem _ he')

theorem run_split {s s' : σ} {es : List ε} {e : ε} (h : run step s es = some s') (he : e ∈ es) :
    ∃ pre post m m', es = pre ++ e :: post ∧ run step s pre = some m ∧ step m e = some m' ∧
      run step m' post = some s' := by
  obtain ⟨pre, post, rfl⟩ := List.append_of_mem he
  rw [run_append, Option.bind_eq_some_iff] at h
  obtain ⟨m, hm, hrest⟩ := h
  rw [run_cons, Option.bind_eq_some_iff] at hrest
  obtain ⟨m', hm', hpost⟩ := hrest
  exact ⟨pre, post, m, m', rfl, hm, hm', hpost⟩

/-- A condition on the state before an event, met by every event of a run. -/
def Throughout (step : σ → ε → Option σ) (P : σ → ε → Prop) (s : σ) (es : List ε) : Prop :=
  ∀ pre e post m, es = pre ++ e :: post → run step s pre = some m → P m e

theorem throughout_nil {P : σ → ε → Prop} {s : σ} : Throughout step P s [] := by
  intro pre e post m h _
  cases pre <;> cases h

theorem throughout_cons {P : σ → ε → Prop} {s : σ} {e : ε} {es : List ε} (he : P s e)
    (hrest : ∀ s', step s e = some s' → Throughout step P s' es) : Throughout step P s (e :: es) := by
  intro pre e' post m h hpre
  cases pre with
  | nil =>
    cases h
    cases hpre
    exact he
  | cons e'' pre =>
    cases h
    obtain ⟨s', hs', hpre⟩ := Option.bind_eq_some_iff.mp hpre
    exact hrest s' hs' pre e' post m rfl hpre

def checks (step : σ → ε → Option σ) (P : σ → ε → Prop) [∀ s e, Decidable (P s e)] : σ → List ε → Bool
  | _, [] => true
  | s, e :: es => decide (P s e) && (step s e).all fun s' => checks step P s' es

theorem throughout_of_checks {P : σ → ε → Prop} [∀ s e, Decidable (P s e)] {s : σ} {es : List ε}
    (h : checks step P s es = true) : Throughout step P s es := by
  induction es generalizing s with
  | nil => exact throughout_nil
  | cons e es ih =>
    rw [checks, Bool.and_eq_true, decide_eq_true_eq] at h
    refine throughout_cons h.1 fun s' hs' => ih ?_
    have hall := h.2
    rw [hs'] at hall
    exact hall

theorem Throughout.after {P : σ → ε → Prop} {s m m' : σ} {e : ε} {pre post : List ε}
    (h : Throughout step P s (pre ++ e :: post)) (hpre : run step s pre = some m)
    (hstep : step m e = some m') : Throughout step P m' post := by
  intro pre' e' post' k hpost hrun
  refine h (pre ++ e :: pre') e' post' k ?_ ?_
  · rw [hpost, List.append_assoc, List.cons_append]
  · rw [run_append, hpre, Option.bind_some, run_cons, hstep]
    exact hrun

theorem Throughout.tail {P : σ → ε → Prop} {s m : σ} {e : ε} {es : List ε} (h : Throughout step P s (e :: es))
    (hstep : step s e = some m) : Throughout step P m es := by
  rw [← List.nil_append (e :: es)] at h
  exact h.after rfl hstep

theorem run_preserves_under {P : σ → Prop} {Q : σ → ε → Prop} {s s' : σ} {es : List ε}
    (h : run step s es = some s') (hQ : Throughout step Q s es) (hs : P s)
    (hstep : ∀ e ∈ es, ∀ s s', P s → Q s e → step s e = some s' → P s') : P s' := by
  induction es generalizing s with
  | nil =>
    rw [run_nil, Option.some.injEq] at h
    exact h ▸ hs
  | cons e es ih =>
    rw [run_cons, Option.bind_eq_some_iff] at h
    obtain ⟨m, hm, hrest⟩ := h
    have he : Q s e := hQ [] e es s rfl rfl
    exact ih hrest (hQ.tail hm) (hstep e List.mem_cons_self _ _ hs he hm)
      fun e' he' => hstep e' (List.mem_cons_of_mem _ he')

theorem reachable_of_run {P : σ → Bool} {s : σ} {es : List ε} (hs : s ∈ init)
    (h : (run step s es).any P = true) : ∃ s', Reachable init step s' ∧ P s' = true := by
  rw [Option.any_eq_true] at h
  obtain ⟨s', hrun, hP⟩ := h
  exact ⟨s', reachable_run (.init hs) hrun, hP⟩

theorem invariant {P : σ → Prop} (hinit : ∀ s ∈ init, P s)
    (hstep : ∀ s e s', P s → step s e = some s' → P s') {s : σ} (h : Reachable init step s) :
    P s := by
  induction h with
  | init hs => exact hinit _ hs
  | step _ hs ih => exact hstep _ _ _ ih hs

/-- The machine that refuses the events a condition on the state before them excludes. -/
def restrict (allowed : σ → ε → Prop) [∀ s e, Decidable (allowed s e)] (step : σ → ε → Option σ) :
    σ → ε → Option σ := fun s e => if allowed s e then step s e else none

theorem restrict_some {allowed : σ → ε → Prop} [∀ s e, Decidable (allowed s e)] {s s' : σ} {e : ε}
    (h : restrict allowed step s e = some s') : allowed s e ∧ step s e = some s' := by
  unfold restrict at h
  by_cases ha : allowed s e
  · exact ⟨ha, by rwa [if_pos ha] at h⟩
  · rw [if_neg ha] at h
    cases h

end DataFabric.TransitionRuns
