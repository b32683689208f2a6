import DataFabric.TriggerFirings

set_option autoImplicit false

/-! # Two generated triggers compared at a firing -/
namespace DataFabric.TriggerBodies
open TriggerCompilers TriggerFirings

/-- A row trigger before a DELETE, whose function has to return the old row. -/
def stopsDelete (timing : Timing) (op : Operation) : Bool := timing ≠ .after && op = .delete

/-- Refused together, and otherwise with one job recorded and the row operation left alone. -/
def SameBody (a b : Main) (stops : Bool) : Prop :=
  ∀ m, ∃ refused, Main.refuses m a = some refused ∧ Main.refuses m b = some refused ∧
    (refused = false → Main.job a = Main.job b ∧ stops = false)

/-- The outcome of a call or of a statement is nobody's but its own. -/
def Called (main : Main) : Prop := ∀ m, Main.refuses m main = some (m.raises main)

theorem called_perform (q : Qualified) (args : List String) : Called (.perform q args) := fun _ => rfl

theorem called_statement (sql : String) : Called (.statement sql) := fun _ => rfl

open Classical in
/-- A meaning in which one body raises and nothing else does. -/
noncomputable def raisesOnly (main : Main) (b : Bool) : Meaning :=
  ⟨fun _ => false, fun x => if x = main then b else false, fun _ => .proceeds⟩

theorem raisesOnly_self (main : Main) (b : Bool) : (raisesOnly main b).raises main = b := if_pos rfl

theorem raisesOnly_other {main x : Main} (b : Bool) (h : x ≠ main) : (raisesOnly main b).raises x = false :=
  if_neg h

theorem sameBody_called {a b : Main} {stops : Bool} (ha : Called a) (hb : Called b) :
    SameBody a b stops ↔ a = b ∧ stops = false := by
  constructor
  · intro h
    have ⟨_, ha', hb', _⟩ := h (raisesOnly a true)
    have ⟨_, hf, _, hstops⟩ := h (raisesOnly a false)
    rw [ha] at ha' hf
    rw [hb] at hb'
    have hraises : (raisesOnly a true).raises b = true := by
      rw [Option.some.inj (hb'.trans ha'.symm), raisesOnly_self]
    have hab : b = a := by
      by_contra hne
      rw [raisesOnly_other true hne] at hraises
      cases hraises
    refine ⟨hab.symm, (hstops ?_).2⟩
    rw [← Option.some.inj hf, raisesOnly_self]
  · rintro ⟨rfl, hstops⟩ m
    exact ⟨m.raises a, ha m, ha m, fun _ => ⟨rfl, hstops⟩⟩

theorem not_sameBody_called {a b : Main} {stops : Bool} (ha : Called a)
    (hb : ∀ x, Main.refuses (raisesOnly a x) b = Main.refuses (raisesOnly a false) b) :
    ¬ SameBody a b stops := by
  intro h
  have ⟨_, ht, ht', _⟩ := h (raisesOnly a true)
  have ⟨_, hf, hf', _⟩ := h (raisesOnly a false)
  rw [ha] at ht hf
  rw [hb true] at ht'
  have hval : (raisesOnly a true).raises a = (raisesOnly a false).raises a :=
    Option.some.inj (ht.trans (ht'.symm.trans (hf'.trans hf.symm)))
  rw [raisesOnly_self, raisesOnly_self] at hval
  cases hval

theorem sameBody_symm {a b : Main} {stops : Bool} (h : SameBody a b stops) : SameBody b a stops := by
  intro m
  have ⟨refused, ha, hb, hf⟩ := h m
  exact ⟨refused, hb, ha, fun hr => ⟨(hf hr).1.symm, (hf hr).2⟩⟩

theorem sameBody_enqueue {j j' : EnqueuedJob} {stops : Bool} :
    SameBody (.enqueue j) (.enqueue j') stops ↔ j = j' ∧ stops = false := by
  constructor
  · intro h
    have ⟨refused, ha, _, hf⟩ := h (raisesOnly (.enqueue j) false)
    have hjob := hf (Option.some.inj ha).symm
    exact ⟨Option.some.inj hjob.1, hjob.2⟩
  · rintro ⟨rfl, hstops⟩ m
    exact ⟨false, rfl, rfl, fun _ => ⟨rfl, hstops⟩⟩

theorem not_sameBody_enqueue {j : EnqueuedJob} {b : Main} {stops : Bool} (hb : Main.job b = none) :
    ¬ SameBody (.enqueue j) b stops := by
  intro h
  have ⟨refused, ha, _, hf⟩ := h (raisesOnly (.enqueue j) false)
  have hjob := (hf (Option.some.inj ha).symm).1
  rw [hb] at hjob
  cases hjob

theorem sameBody_raise {c c' : RowCondition} {m m' : String} {stops : Bool} :
    SameBody (.raise c m) (.raise c' m') stops ↔ ∀ tests, ∃ met, RowCondition.holds tests c = some met ∧
      RowCondition.holds tests c' = some met ∧ (met = false → stops = false) := by
  constructor
  · intro h tests
    have ⟨met, ha, hb, hf⟩ := h ⟨tests, fun _ => false, fun _ => .proceeds⟩
    exact ⟨met, ha, hb, fun hm => (hf hm).2⟩
  · intro h m
    have ⟨met, ha, hb, hf⟩ := h m.holds
    exact ⟨met, ha, hb, fun hm => ⟨rfl, hf hm⟩⟩

def shown (main : Main) (refused stops : Bool) : Firing :=
  { fires := true, job := if refused then none else Main.job main
    outcome := if refused then .refused else if stops then .suppressed else .proceeds }

theorem shown_injective {a b : Main} {r r' stops : Bool} (h : shown a r false = shown b r' stops) :
    r = r' ∧ (r' = false → Main.job a = Main.job b ∧ stops = false) := by
  have hjob := congrArg Firing.job h
  have hout := congrArg Firing.outcome h
  match r, r', stops with
  | true, true, _ => exact ⟨rfl, fun hr => nomatch hr⟩
  | false, false, false => exact ⟨rfl, fun _ => ⟨hjob, rfl⟩⟩
  | true, false, true | true, false, false | false, true, _ | false, false, true => cases hout

theorem bodyFire_plain (m : Meaning) (main : Main) (returns : Returns) (securityDefiner stops : Bool) :
    Body.fire m ⟨none, main, returns, securityDefiner⟩ stops =
      (Main.refuses m main).map fun refused => shown main refused stops := by
  change (Main.refuses m main).bind _ = _
  cases Main.refuses m main <;> rfl

theorem suppresses_new (timing : Timing) (op : Operation) :
    suppresses .new timing .row op = stopsDelete timing op := by
  simp [suppresses, stopsDelete]

def whenHolds (tests : Test → Bool) (w : Option RowCondition) : Option Bool :=
  match w with
  | none => some true
  | some c => RowCondition.holds tests c

structure BackendTrigger (a : CompiledTrigger) (main : Main) : Prop where
  function : ∃ q securityDefiner, a.function = some (q, ⟨none, main, .newOrOld, securityDefiner⟩)
  unconditional : a.trigger.when_ = none

structure EngineTrigger (b : CompiledTrigger) (autoDrop w : Option RowCondition) (main : Main)
    (timing : Timing) : Prop where
  function : ∃ q, b.function = some (q, ⟨autoDrop, main, .new, false⟩)
  when_ : b.trigger.when_ = w
  timing : b.trigger.timing = timing
  level : b.trigger.level = .row

section

variable {a b : CompiledTrigger} {ma mb : Main} {autoDrop w : Option RowCondition} {timing : Timing}

theorem backend_fire (ha : BackendTrigger a ma) (m : Meaning) (op : Operation) :
    CompiledTrigger.fire m a op = (Main.refuses m ma).map fun refused => shown ma refused false := by
  obtain ⟨q, sd, hf⟩ := ha.function
  unfold CompiledTrigger.fire
  rw [ha.unconditional, hf]
  exact bodyFire_plain m ma .newOrOld sd false

theorem engine_fire (hb : EngineTrigger b autoDrop w mb timing) (m : Meaning) (op : Operation) :
    CompiledTrigger.fire m b op = (whenHolds m.holds w).bind fun fires =>
      if fires then Body.fire m ⟨autoDrop, mb, .new, false⟩ (stopsDelete timing op)
      else some { fires := false, outcome := .proceeds } := by
  obtain ⟨q, hf⟩ := hb.function
  unfold CompiledTrigger.fire
  rw [hb.when_, hf, hb.timing, hb.level]
  simp only [suppresses_new]
  cases w with
  | none => rfl
  | some c => rfl

theorem engine_fire_plain (hb : EngineTrigger b none w mb timing) (m : Meaning) (op : Operation)
    (hw : whenHolds m.holds w = some true) : CompiledTrigger.fire m b op =
      (Main.refuses m mb).map fun refused => shown mb refused (stopsDelete timing op) := by
  rw [engine_fire hb, hw]
  exact bodyFire_plain m mb .new false _

theorem engine_fire_shown (hb : EngineTrigger b autoDrop w mb timing) {m : Meaning} {op : Operation}
    {r : Bool} (h : CompiledTrigger.fire m b op = some (shown ma r false)) :
    whenHolds m.holds w = some true ∧ autoDrop = none := by
  rw [engine_fire hb] at h
  obtain ⟨fires, hw, h⟩ := Option.bind_eq_some_iff.mp h
  cases fires with
  | false => cases h
  | true =>
    refine ⟨hw, ?_⟩
    cases autoDrop with
    | none => rfl
    | some c =>
      obtain ⟨cleanup, hcleanup, h⟩ := Option.bind_eq_some_iff.mp h
      obtain ⟨refused, _, h⟩ := Option.bind_eq_some_iff.mp h
      obtain ⟨x, _, hx⟩ := Option.map_eq_some_iff.mp hcleanup
      rw [← hx] at h
      cases h

theorem sameFiring_iff (ha : BackendTrigger a ma) (hb : EngineTrigger b autoDrop w mb timing) (op : Operation) :
    (∀ m, ∃ f, CompiledTrigger.fire m a op = some f ∧ CompiledTrigger.fire m b op = some f) ↔
      (∀ tests, whenHolds tests w = some true) ∧ autoDrop = none ∧ SameBody ma mb (stopsDelete timing op) := by
  constructor
  · intro h
    have hall : ∀ m, ∃ r, Main.refuses m ma = some r ∧ CompiledTrigger.fire m b op = some (shown ma r false) := by
      intro m
      have ⟨f, hfa, hfb⟩ := h m
      rw [backend_fire ha] at hfa
      obtain ⟨r, hr, hf⟩ := Option.map_eq_some_iff.mp hfa
      exact ⟨r, hr, hf ▸ hfb⟩
    have hwhen : ∀ tests, whenHolds tests w = some true := by
      intro tests
      have ⟨_, _, hfb⟩ := hall ⟨tests, fun _ => false, fun _ => .proceeds⟩
      exact (engine_fire_shown hb hfb).1
    have ⟨_, _, hfb⟩ := hall ⟨fun _ => false, fun _ => false, fun _ => .proceeds⟩
    have hdrop := (engine_fire_shown hb hfb).2
    subst hdrop
    refine ⟨hwhen, rfl, fun m => ?_⟩
    have ⟨r, hr, hfb⟩ := hall m
    rw [engine_fire_plain hb m op (hwhen m.holds)] at hfb
    obtain ⟨r', hr', hshown⟩ := Option.map_eq_some_iff.mp hfb
    have ⟨heq, hf⟩ := shown_injective hshown.symm
    exact ⟨r, hr, heq ▸ hr', fun hrf => hf (heq ▸ hrf)⟩
  · rintro ⟨hwhen, rfl, hsame⟩ m
    have ⟨r, hra, hrb, hf⟩ := hsame m
    refine ⟨shown ma r false, ?_, ?_⟩
    · rw [backend_fire ha, hra]
      rfl
    · rw [engine_fire_plain hb m op (hwhen m.holds), hrb, Option.map_some]
      cases r with
      | true => rfl
      | false => rw [shown, shown, (hf rfl).1, (hf rfl).2]

theorem existing_differs (hf : a.function = none) (hw : a.trigger.when_ = none)
    (hb : EngineTrigger b autoDrop w mb timing) (op : Operation) :
    ¬ ∀ m, ∃ f, CompiledTrigger.fire m a op = some f ∧ CompiledTrigger.fire m b op = some f := by
  intro h
  have hfire : ∀ outcome : Outcome, CompiledTrigger.fire ⟨fun _ => false, fun _ => false, fun _ => outcome⟩ a op =
      some { fires := true, outcome } := by
    intro outcome
    unfold CompiledTrigger.fire
    rw [hw, hf]
    rfl
  have hsame : ∀ outcome : Outcome, CompiledTrigger.fire ⟨fun _ => false, fun _ => false, fun _ => outcome⟩ b op =
      CompiledTrigger.fire ⟨fun _ => false, fun _ => false, fun _ => .refused⟩ b op := by
    intro outcome
    rw [engine_fire hb, engine_fire hb]
    unfold Body.fire
    cases mb <;> rfl
  have ⟨_, ha, hb⟩ := h ⟨fun _ => false, fun _ => false, fun _ => .proceeds⟩
  have ⟨_, ha', hb'⟩ := h ⟨fun _ => false, fun _ => false, fun _ => .refused⟩
  rw [hfire] at ha ha'
  rw [hsame, hb', ← Option.some.inj ha, ← Option.some.inj ha'] at hb
  cases hb

end

end DataFabric.TriggerBodies
