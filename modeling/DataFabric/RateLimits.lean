import DataFabric.OrderedRecords
import DataFabric.SeparatedNames
import Mathlib.Data.List.Induction
import Mathlib.Data.Rat.Defs
import Mathlib.Logic.Function.Basic
import Mathlib.Tactic.Linarith

set_option autoImplicit false

/-!
# The rate limiter in memory

Calls are counted per tenant in aligned windows of four lengths, under one key a window.
-/
namespace DataFabric.RateLimits
open OrderedRecords

inductive Period | min | hour | day | month
  deriving DecidableEq, Repr

namespace Period

def key : Period → String
  | min => "min"
  | hour => "hour"
  | day => "day"
  | month => "month"

def windowMs : Period → ℕ
  | min => 60 * 1000
  | hour => 60 * 60 * 1000
  | day => 24 * 60 * 60 * 1000
  | month => 30 * 24 * 60 * 60 * 1000

end Period

def windowKey (p : Period) (tenantId : String) (window : ℕ) : String :=
  "rate:" ++ p.key ++ ":" ++ tenantId ++ ":" ++ toString window

structure Entry where
  count : ℕ
  expiresAt : ℕ
  deriving DecidableEq, Repr

abbrev Store := String → Option Entry

def collect (now : ℕ) (store : Store) : Store := fun k => (store k).filter (now ≤ ·.expiresAt)

def counted (windowMs now : ℕ) : Option Entry → Entry
  | some existing => { existing with count := existing.count + 1 }
  | none => ⟨1, now + windowMs⟩

def incrementInMemory (store : Store) (key : String) (windowMs now : ℕ) : Store × ℕ :=
  let kept := collect now store
  let entry := counted windowMs now ((kept key).filter (now ≤ ·.expiresAt))
  (Function.update kept key (some entry), entry.count)

def limitOf (limits : Record String ℚ) : Period → Option ℚ
  | .min => limits.get? "rate_limit_per_min"
  | .hour => limits.get? "rate_limit_per_hour"
  | .day => limits.get? "rate_limit_per_day"
  -- `limits.rate_limit_per_month || limits.request_per_month`
  | .month => (limits.get? "rate_limit_per_month").filter (· ≠ 0) <|> limits.get? "request_per_month"

def periods : List Period := [.min, .hour, .day, .month]

/-- The period whose limit refuses the call, none for a call that is allowed. -/
def checkPeriods (limits : Record String ℚ) (tenantId : String) (now : ℕ) :
    List Period → Store → Store × Option Period
  | [], store => (store, none)
  | p :: rest, store =>
    match (limitOf limits p).filter (· ≠ -1) with
    | none => checkPeriods limits tenantId now rest store
    | some limit =>
      let r := incrementInMemory store (windowKey p tenantId (now / p.windowMs)) p.windowMs now
      if limit < r.2 then (r.1, some p) else checkPeriods limits tenantId now rest r.1

def checkRateLimit (limits : Record String ℚ) (tenantId : String) (now : ℕ) (store : Store) :
    Store × Option Period :=
  checkPeriods limits tenantId now periods store

structure Call where
  tenantId : String
  now : ℕ
  deriving DecidableEq, Repr

abbrev Log := List (Call × Option Period)

variable (limits : String → Record String ℚ)

def step (state : Store × Log) (c : Call) : Store × Log :=
  let r := checkRateLimit (limits c.tenantId) c.tenantId c.now state.1
  (r.1, state.2 ++ [(c, r.2)])

def run (calls : List Call) : Store × Log := calls.foldl (step limits) (fun _ => none, [])

def declared (l : Record String ℚ) : Period → Option ℚ
  | .min => l.get? "rate_limit_per_min"
  | .hour => l.get? "rate_limit_per_hour"
  | .day => l.get? "rate_limit_per_day"
  | .month => l.get? "rate_limit_per_month" <|> l.get? "request_per_month"

/-- A call of the tenant that lies in the window and was allowed. -/
def Admitted (p : Period) (tenantId : String) (window : ℕ) (a : Call × Option Period) : Prop :=
  a.1.tenantId = tenantId ∧ a.1.now / p.windowMs = window ∧ a.2 = none

instance (p : Period) (tenantId : String) (window : ℕ) : DecidablePred (Admitted p tenantId window) :=
  fun a => inferInstanceAs (Decidable (a.1.tenantId = tenantId ∧ a.1.now / p.windowMs = window ∧ a.2 = none))

def admittedIn (log : Log) (p : Period) (tenantId : String) (window : ℕ) : ℕ :=
  log.countP (Admitted p tenantId window)

def answersTo (tenantId : String) (log : Log) : Log := log.filter (·.1.tenantId = tenantId)

/-- The count of every window still open at the time is at least what it was. -/
def Remembers (now : ℕ) (before after : Store) : Prop :=
  ∀ p tenantId window e, now < (window + 1) * p.windowMs →
    before (windowKey p tenantId window) = some e →
      ∃ e', after (windowKey p tenantId window) = some e' ∧ e.count ≤ e'.count

structure Obeyed (calls : List Call) : Prop where
  bounded : ∀ tenantId p window l, declared (limits tenantId) p = some l → 0 ≤ l →
    (admittedIn (run limits calls).2 p tenantId window : ℚ) ≤ l
  isolated : ∀ tenantId, answersTo tenantId (run limits calls).2 =
    (run limits (calls.filter (·.tenantId = tenantId))).2
  remembered : ∀ c, (∀ d ∈ calls, d.now ≤ c.now) →
    Remembers c.now (run limits calls).1 (run limits (calls ++ [c])).1

def Shut (l : Record String ℚ) : Prop :=
  ∃ k ∈ ["rate_limit_per_min", "rate_limit_per_hour", "rate_limit_per_day", "request_per_month"],
    ∃ q, l.get? k = some q ∧ q ≠ -1 ∧ q < 1

theorem colon_notMem_digits (n : ℕ) : ':' ∉ (toString n).toList := by
  intro h
  rw [Nat.toString_eq_repr, Nat.toList_repr] at h
  exact absurd (Nat.isDigit_of_mem_toDigits (by decide) (by decide) h) (by decide)

theorem toString_inj {m n : ℕ} (h : (toString m).toList = (toString n).toList) : m = n := by
  rw [Nat.toString_eq_repr, Nat.toString_eq_repr, Nat.toList_repr, Nat.toList_repr] at h
  have values := congrArg (Nat.ofDigitChars 10 · 0) h
  simpa only [Nat.ofDigitChars_ten_toDigits] using values

theorem windowKey_inj {p q : Period} {s t : String} {m n : ℕ} :
    windowKey p s m = windowKey q t n ↔ p = q ∧ s = t ∧ m = n := by
  constructor
  · intro h
    have texts := congrArg String.toList h
    simp only [windowKey, String.toList_append, List.append_assoc] at texts
    have first := List.append_cancel_left texts
    have outer := SeparatedNames.glue_inj_left (by cases p <;> decide) (by cases q <;> decide) first
    have inner := SeparatedNames.glue_inj_right (colon_notMem_digits m) (colon_notMem_digits n) outer.2
    refine ⟨?_, String.toList_inj.mp inner.1, ?_⟩
    · have keys := outer.1
      revert keys
      cases p <;> cases q <;> decide
    · exact toString_inj inner.2
  · rintro ⟨rfl, rfl, rfl⟩
    rfl

theorem windowMs_pos (p : Period) : 0 < p.windowMs := by
  cases p <;> decide

theorem lt_windowEnd (p : Period) (now : ℕ) : now < (now / p.windowMs + 1) * p.windowMs := by
  rw [Nat.mul_comm]
  exact Nat.lt_mul_div_succ now (windowMs_pos p)

section Increment
variable {s s' : Store} {k key : String} {w now later : ℕ}

theorem filter_filter (o : Option Entry) (h : now ≤ later) :
    (o.filter (now ≤ ·.expiresAt)).filter (later ≤ ·.expiresAt) = o.filter (later ≤ ·.expiresAt) := by
  cases o with
  | none => rfl
  | some e =>
    by_cases live : now ≤ e.expiresAt
    · simp [Option.filter, live]
    · have dead : ¬ later ≤ e.expiresAt := by omega
      simp [Option.filter, live, dead]

theorem collect_collect (h : now ≤ later) : collect later (collect now s) = collect later s :=
  funext fun k => filter_filter (s k) h

theorem collect_some {e : Entry} (live : now ≤ e.expiresAt) (h : s k = some e) : collect now s k = some e := by
  simp [collect, h, Option.filter, live]

theorem increment_eq :
    incrementInMemory s key w now =
      (Function.update (collect now s) key (some (counted w now (collect now s key))),
        (counted w now (collect now s key)).count) := by
  have same : (collect now s key).filter (now ≤ ·.expiresAt) = collect now s key :=
    filter_filter (s key) le_rfl
  rw [incrementInMemory, same]

theorem counted_live (h : ∀ e, s key = some e → now ≤ e.expiresAt) : now ≤ (counted w now (s key)).expiresAt := by
  cases found : s key with
  | none => exact Nat.le_add_right now w
  | some e => exact h e found

theorem collect_live {e : Entry} (h : collect now s key = some e) : s key = some e ∧ now ≤ e.expiresAt := by
  have kept := Option.filter_eq_some_iff.mp h
  exact ⟨kept.1, by simpa using kept.2⟩

theorem increment_other (hk : k ≠ key) : (incrementInMemory s key w now).1 k = collect now s k := by
  rw [increment_eq]
  exact Function.update_of_ne hk _ _

theorem increment_self :
    (incrementInMemory s key w now).1 key = some (counted w now (collect now s key)) := by
  rw [increment_eq]
  exact Function.update_self _ _ _

theorem collect_increment :
    collect now (incrementInMemory s key w now).1 = (incrementInMemory s key w now).1 := by
  funext k
  by_cases hk : k = key
  · subst hk
    have live : now ≤ (counted w now (collect now s k)).expiresAt := counted_live fun e h => (collect_live h).2
    exact (collect_some live increment_self).trans increment_self.symm
  · rw [collect, increment_other hk]
    exact filter_filter (s k) le_rfl

def countAt (s : Store) (k : String) : ℕ := (s k).elim 0 (·.count)

theorem countAt_some {e : Entry} (h : s k = some e) : countAt s k = e.count := by
  rw [countAt, h]
  rfl

theorem countAt_congr (h : s k = s' k) : countAt s k = countAt s' k := by
  rw [countAt, countAt, h]

theorem counted_count (o : Option Entry) : (counted w now o).count = o.elim 0 (·.count) + 1 := by
  cases o with
  | none => rfl
  | some e => rfl

theorem increment_count : (incrementInMemory s key w now).2 = countAt (collect now s) key + 1 := by
  rw [increment_eq]
  exact counted_count _

theorem countAt_increment : countAt (incrementInMemory s key w now).1 key = countAt (collect now s) key + 1 := by
  rw [countAt, increment_self]
  exact counted_count _

theorem increment_grows (key : String) (w : ℕ) {e : Entry} (live : now ≤ e.expiresAt) (h : s k = some e) :
    ∃ e', (incrementInMemory s key w now).1 k = some e' ∧ e.count ≤ e'.count ∧ e'.expiresAt = e.expiresAt := by
  have kept := collect_some live h
  by_cases hk : k = key
  · subst hk
    refine ⟨counted w now (collect now s k), ?_, ?_, ?_⟩
    · exact increment_self
    · rw [kept]
      exact Nat.le_succ e.count
    · rw [kept]
      rfl
  · exact ⟨e, (increment_other hk).trans kept, le_rfl, rfl⟩

end Increment

section Call
variable {l : Record String ℚ} {t u : String} {now later : ℕ} {ps : List Period} {s s' : Store} {k : String}

def activeLimit (l : Record String ℚ) (p : Period) : Option ℚ := (limitOf l p).filter (· ≠ -1)

theorem checkPeriods_skip {p : Period} (h : activeLimit l p = none) :
    checkPeriods l t now (p :: ps) s = checkPeriods l t now ps s := by
  rw [activeLimit] at h
  rw [checkPeriods, h]

theorem checkPeriods_count {p : Period} {q : ℚ} (h : activeLimit l p = some q) :
    checkPeriods l t now (p :: ps) s =
      if q < (incrementInMemory s (windowKey p t (now / p.windowMs)) p.windowMs now).2 then
        ((incrementInMemory s (windowKey p t (now / p.windowMs)) p.windowMs now).1, some p)
      else checkPeriods l t now ps (incrementInMemory s (windowKey p t (now / p.windowMs)) p.windowMs now).1 := by
  rw [activeLimit] at h
  rw [checkPeriods, h]

theorem checkPeriods_induct {P : Store → Prop} (start : P s)
    (next : ∀ p ∈ ps, ∀ r, P r → P (incrementInMemory r (windowKey p t (now / p.windowMs)) p.windowMs now).1) :
    P (checkPeriods l t now ps s).1 := by
  induction ps generalizing s with
  | nil => exact start
  | cons p rest ih =>
    have later := fun r hr => ih (s := r) hr fun q hq => next q (List.mem_cons_of_mem p hq)
    cases limit : activeLimit l p with
    | none =>
      rw [checkPeriods_skip limit]
      exact later s start
    | some q =>
      have counted := next p List.mem_cons_self s start
      rw [checkPeriods_count limit]
      split
      · exact counted
      · exact later _ counted

theorem checkPeriods_frame (other : ∀ p ∈ ps, k ≠ windowKey p t (now / p.windowMs)) :
    collect now (checkPeriods l t now ps s).1 k = collect now s k := by
  apply checkPeriods_induct (P := fun r => collect now r k = collect now s k) rfl
  intro p hp r hr
  rw [collect_increment, increment_other (other p hp), hr]

theorem checkPeriods_grows (l : Record String ℚ) (t : String) (ps : List Period) {e : Entry} (live : now ≤ e.expiresAt)
    (h : s k = some e) :
    ∃ e', (checkPeriods l t now ps s).1 k = some e' ∧ e.count ≤ e'.count ∧ e'.expiresAt = e.expiresAt := by
  apply checkPeriods_induct
    (P := fun r => ∃ e', r k = some e' ∧ e.count ≤ e'.count ∧ e'.expiresAt = e.expiresAt) ⟨e, h, le_rfl, rfl⟩
  intro p _ r hr
  obtain ⟨e₁, found, more, same⟩ := hr
  obtain ⟨e₂, found', more', same'⟩ := increment_grows (windowKey p t (now / p.windowMs)) p.windowMs
    (same ▸ live : now ≤ e₁.expiresAt) found
  exact ⟨e₂, found', more.trans more', same'.trans same⟩

def Lasting (s : Store) : Prop :=
  ∀ p tenantId window e, s (windowKey p tenantId window) = some e → (window + 1) * p.windowMs ≤ e.expiresAt

theorem increment_lasting {p : Period} (h : Lasting s) :
    Lasting (incrementInMemory s (windowKey p t (now / p.windowMs)) p.windowMs now).1 := by
  intro q u window e found
  by_cases own : windowKey q u window = windowKey p t (now / p.windowMs)
  · obtain ⟨rfl, rfl, rfl⟩ := windowKey_inj.mp own
    rw [increment_self] at found
    obtain rfl := Option.some.inj found
    cases old : collect now s (windowKey q u (now / q.windowMs)) with
    | none =>
      have low := Nat.div_mul_le_self now q.windowMs
      change _ ≤ now + q.windowMs
      rw [Nat.add_mul]
      omega
    | some e => exact h q u _ e (collect_live old).1
  · rw [increment_other own] at found
    exact h q u window e (collect_live found).1

theorem checkPeriods_lasting (h : Lasting s) : Lasting (checkPeriods l t now ps s).1 :=
  checkPeriods_induct h fun _ _ _ hr => increment_lasting hr

theorem collect_open {p : Period} {window : ℕ} (h : Lasting s) (within : now < (window + 1) * p.windowMs) :
    collect now s (windowKey p t window) = s (windowKey p t window) := by
  cases found : s (windowKey p t window) with
  | none => simp [collect, found]
  | some e =>
    have lasts := h p t window e found
    exact collect_some (by omega) found

theorem checkPeriods_remembers (h : Lasting s) : Remembers now s (checkPeriods l t now ps s).1 := by
  intro p u window e within found
  have lasts := h p u window e found
  obtain ⟨e', found', more, _⟩ := checkPeriods_grows l t ps (by omega : now ≤ e.expiresAt) found
  exact ⟨e', found', more⟩

theorem checkPeriods_countAt (h : Lasting s) {p : Period} {window : ℕ} (within : now < (window + 1) * p.windowMs) :
    countAt s (windowKey p u window) ≤ countAt (checkPeriods l t now ps s).1 (windowKey p u window) := by
  cases found : s (windowKey p u window) with
  | none => simp [countAt, found]
  | some e =>
    obtain ⟨e', found', more⟩ := checkPeriods_remembers h p u window e within found
    rw [countAt_some found, countAt_some found']
    exact more

theorem checkPeriods_allowed (distinct : ps.Nodup) (allowed : (checkPeriods l t now ps s).2 = none) {p : Period}
    (hp : p ∈ ps) {q : ℚ} (limit : activeLimit l p = some q) :
    countAt (collect now s) (windowKey p t (now / p.windowMs)) + 1 =
        countAt (collect now (checkPeriods l t now ps s).1) (windowKey p t (now / p.windowMs)) ∧
      (countAt (collect now s) (windowKey p t (now / p.windowMs)) + 1 : ℚ) ≤ q := by
  induction ps generalizing s with
  | nil => cases hp
  | cons p₀ rest ih =>
    rw [List.nodup_cons] at distinct
    have apart : ∀ p' ∈ rest, windowKey p₀ t (now / p₀.windowMs) ≠ windowKey p' t (now / p'.windowMs) := by
      intro p' hp' same
      rw [(windowKey_inj.mp same).1] at distinct
      exact distinct.1 hp'
    cases limit₀ : activeLimit l p₀ with
    | none =>
      rw [checkPeriods_skip limit₀] at allowed ⊢
      rcases List.mem_cons.mp hp with rfl | hrest
      · rw [limit] at limit₀
        cases limit₀
      · exact ih distinct.2 allowed hrest
    | some q₀ =>
      rw [checkPeriods_count limit₀] at allowed ⊢
      by_cases exceeded : q₀ < (incrementInMemory s (windowKey p₀ t (now / p₀.windowMs)) p₀.windowMs now).2
      · rw [if_pos exceeded] at allowed
        cases allowed
      · rw [if_neg exceeded] at allowed ⊢
        rcases List.mem_cons.mp hp with rfl | hrest
        · rw [limit] at limit₀
          cases limit₀
          rw [increment_count] at exceeded
          have frame := checkPeriods_frame (l := l) (s := (incrementInMemory s
            (windowKey p t (now / p.windowMs)) p.windowMs now).1) apart
          refine ⟨?_, by push_cast at exceeded; linarith⟩
          rw [countAt_congr frame, collect_increment, countAt_increment]
        · have later := ih distinct.2 allowed hrest
          have other : countAt (collect now (incrementInMemory s
              (windowKey p₀ t (now / p₀.windowMs)) p₀.windowMs now).1) (windowKey p t (now / p.windowMs)) =
              countAt (collect now s) (windowKey p t (now / p.windowMs)) := by
            rw [collect_increment]
            exact countAt_congr (increment_other fun same => apart p hrest same.symm)
          rwa [other] at later

def SameCounts (t : String) (now : ℕ) (s s' : Store) : Prop :=
  ∀ p window, collect now s (windowKey p t window) = collect now s' (windowKey p t window)

theorem sameCounts_later (h : SameCounts t now s s') (hl : now ≤ later) : SameCounts t later s s' := by
  intro p window
  rw [← collect_collect hl, collect, h p window, ← collect, collect_collect hl]

theorem increment_sameCounts (h : SameCounts t now s s') (p : Period) (window w : ℕ) :
    (incrementInMemory s (windowKey p t window) w now).2 = (incrementInMemory s' (windowKey p t window) w now).2 ∧
      SameCounts t now (incrementInMemory s (windowKey p t window) w now).1
        (incrementInMemory s' (windowKey p t window) w now).1 := by
  refine ⟨?_, fun q window' => ?_⟩
  · rw [increment_count, increment_count, countAt_congr (h p window)]
  · rw [collect_increment, collect_increment]
    by_cases own : windowKey q t window' = windowKey p t window
    · rw [own, increment_self, increment_self, h p window]
    · rw [increment_other own, increment_other own, h q window']

theorem checkPeriods_sameCounts (l : Record String ℚ) (ps : List Period) (h : SameCounts t now s s') :
    (checkPeriods l t now ps s).2 = (checkPeriods l t now ps s').2 ∧
      SameCounts t now (checkPeriods l t now ps s).1 (checkPeriods l t now ps s').1 := by
  induction ps generalizing s s' with
  | nil => exact ⟨rfl, h⟩
  | cons p rest ih =>
    cases limit : activeLimit l p with
    | none =>
      rw [checkPeriods_skip limit, checkPeriods_skip limit]
      exact ih h
    | some q =>
      have counted := increment_sameCounts h p (now / p.windowMs) p.windowMs
      rw [checkPeriods_count limit, checkPeriods_count limit, counted.1]
      split
      · exact ⟨rfl, counted.2⟩
      · exact ih counted.2

theorem checkPeriods_other (hu : t ≠ u) : SameCounts t now (checkPeriods l u now ps s).1 s :=
  fun _ _ => checkPeriods_frame fun _ _ same => hu (windowKey_inj.mp same).2.1

theorem checkPeriods_first (distinct : ps.Nodup)
    (fresh : ∀ p ∈ ps, collect now s (windowKey p t (now / p.windowMs)) = none)
    (wide : ∀ p ∈ ps, ∀ q, activeLimit l p = some q → 1 ≤ q) : (checkPeriods l t now ps s).2 = none := by
  induction ps generalizing s with
  | nil => rfl
  | cons p rest ih =>
    rw [List.nodup_cons] at distinct
    have wide' := fun p' hp' => wide p' (List.mem_cons_of_mem p hp')
    cases limit : activeLimit l p with
    | none =>
      rw [checkPeriods_skip limit]
      exact ih distinct.2 (fun p' hp' => fresh p' (List.mem_cons_of_mem p hp')) wide'
    | some q =>
      have one : (incrementInMemory s (windowKey p t (now / p.windowMs)) p.windowMs now).2 = 1 := by
        rw [increment_count, countAt, fresh p List.mem_cons_self]
        rfl
      have low := wide p List.mem_cons_self q limit
      rw [checkPeriods_count limit, one, if_neg (by push_cast; linarith)]
      refine ih distinct.2 (fun p' hp' => ?_) wide'
      rw [collect_increment, increment_other fun same => ?_]
      · exact fresh p' (List.mem_cons_of_mem p hp')
      · rw [(windowKey_inj.mp same).1] at hp'
        exact distinct.1 hp'

end Call

section Run
variable {limits} {calls : List Call} {state : Store × Log} {now later : ℕ}

theorem run_snoc (calls : List Call) (c : Call) : run limits (calls ++ [c]) = step limits (run limits calls) c := by
  rw [run, run, List.foldl_append]
  rfl

theorem exists_last (calls : List Call) : ∃ now, ∀ c ∈ calls, c.now ≤ now := by
  induction calls with
  | nil => exact ⟨0, by simp⟩
  | cons c rest ih =>
    obtain ⟨now, last⟩ := ih
    refine ⟨max c.now now, fun d hd => ?_⟩
    rcases List.mem_cons.mp hd with rfl | hrest
    · exact le_max_left _ _
    · exact (last d hrest).trans (le_max_right _ _)

/-- Every admitted call of an open window is counted, and what was admitted stays within the limits. -/
structure Inv (limits : String → Record String ℚ) (state : Store × Log) (now : ℕ) : Prop where
  lasting : Lasting state.1
  counted : ∀ p t window q, activeLimit (limits t) p = some q → now < (window + 1) * p.windowMs →
    admittedIn state.2 p t window ≤ countAt state.1 (windowKey p t window)
  within : ∀ p t window q, activeLimit (limits t) p = some q → 0 < admittedIn state.2 p t window →
    (admittedIn state.2 p t window : ℚ) ≤ q

theorem inv_later (h : Inv limits state now) (hl : now ≤ later) : Inv limits state later :=
  ⟨h.lasting, fun p t window q limit within => h.counted p t window q limit (by omega), h.within⟩

theorem admittedIn_snoc (log : Log) (a : Call × Option Period) (p : Period) (t : String) (window : ℕ) :
    admittedIn (log ++ [a]) p t window = admittedIn log p t window + if Admitted p t window a then 1 else 0 := by
  rw [admittedIn, List.countP_append, List.countP_singleton]
  simp [admittedIn]

theorem step_inv (c : Call) (h : Inv limits state c.now) : Inv limits (step limits state c) c.now := by
  have distinct : periods.Nodup := by decide
  refine ⟨checkPeriods_lasting h.lasting, fun p t window q limit within => ?_, fun p t window q limit some => ?_⟩
  · have before := h.counted p t window q limit within
    rw [step, admittedIn_snoc]
    split
    · rename_i admitted
      obtain ⟨rfl, rfl, allowed⟩ := admitted
      have counts := checkPeriods_allowed distinct allowed (p := p) (by cases p <;> decide) limit
      rw [countAt_congr (collect_open h.lasting within),
        countAt_congr (collect_open (checkPeriods_lasting h.lasting) within)] at counts
      exact (Nat.succ_le_succ before).trans counts.1.le
    · exact before.trans (checkPeriods_countAt h.lasting within)
  · rw [step, admittedIn_snoc] at some ⊢
    split
    · rename_i admitted
      obtain ⟨rfl, rfl, allowed⟩ := admitted
      have within := lt_windowEnd p c.now
      have before := h.counted p c.tenantId _ q limit within
      have counts := checkPeriods_allowed distinct allowed (p := p) (by cases p <;> decide) limit
      rw [countAt_congr (collect_open h.lasting within)] at counts
      have cast : (admittedIn state.2 p c.tenantId (c.now / p.windowMs) : ℚ) ≤
        countAt state.1 (windowKey p c.tenantId (c.now / p.windowMs)) := by exact_mod_cast before
      push_cast
      linarith [counts.2]
    · rename_i refused
      rw [if_neg refused] at some
      exact h.within p t window q limit some

theorem run_inv (ordered : calls.Pairwise fun c d => c.now ≤ d.now) (last : ∀ c ∈ calls, c.now ≤ now) :
    Inv limits (run limits calls) now := by
  induction calls using List.reverseRecOn generalizing now with
  | nil =>
    refine ⟨fun p t window e found => ?_, fun p t window q _ _ => Nat.zero_le _, fun p t window q _ some => ?_⟩
    · cases found
    · cases some
  | append_singleton calls c ih =>
    have parts := List.pairwise_append.mp ordered
    have before := ih parts.1 fun d hd => parts.2.2 d hd c (List.mem_singleton_self c)
    rw [run_snoc]
    exact inv_later (step_inv c before) (last c (by simp))

theorem run_remembers (ordered : calls.Pairwise fun c d => c.now ≤ d.now) (c : Call)
    (last : ∀ d ∈ calls, d.now ≤ c.now) : Remembers c.now (run limits calls).1 (run limits (calls ++ [c])).1 := by
  rw [run_snoc]
  exact checkPeriods_remembers (run_inv ordered last).lasting

theorem answersTo_snoc (t : String) (log : Log) (a : Call × Option Period) :
    answersTo t (log ++ [a]) = answersTo t log ++ if a.1.tenantId = t then [a] else [] := by
  rw [answersTo, List.filter_append, List.filter_singleton]
  simp [answersTo]

theorem run_isolated (ordered : calls.Pairwise fun c d => c.now ≤ d.now) (t : String)
    (last : ∀ c ∈ calls, c.now ≤ now) :
    answersTo t (run limits calls).2 = (run limits (calls.filter (·.tenantId = t))).2 ∧
      SameCounts t now (run limits calls).1 (run limits (calls.filter (·.tenantId = t))).1 := by
  induction calls using List.reverseRecOn generalizing now with
  | nil => exact ⟨rfl, fun p window => rfl⟩
  | append_singleton calls c ih =>
    have parts := List.pairwise_append.mp ordered
    obtain ⟨answers, counts⟩ := ih parts.1 fun d hd => parts.2.2 d hd c (List.mem_singleton_self c)
    rw [List.filter_append, List.filter_singleton, run_snoc, step, answersTo_snoc, answers]
    have lastly : c.now ≤ now := last c (by simp)
    by_cases own : c.tenantId = t
    · subst own
      have same := checkPeriods_sameCounts (limits c.tenantId) periods counts
      rw [if_pos rfl, decide_eq_true rfl, cond_true, run_snoc, step]
      refine ⟨?_, sameCounts_later same.2 lastly⟩
      rw [checkRateLimit, checkRateLimit, same.1]
    · rw [if_neg own, decide_eq_false own, cond_false, List.append_nil, List.append_nil]
      refine ⟨rfl, sameCounts_later (fun p window => ?_) lastly⟩
      exact (checkPeriods_other (Ne.symm own) p window).trans (counts p window)

end Run

section Limits
variable {limits} {l : Record String ℚ} {q : ℚ}

theorem activeLimit_declared {p : Period} (h : declared l p = some q) (nonneg : 0 ≤ q)
    (zero : l.get? "rate_limit_per_month" ≠ some 0) : activeLimit l p = some q := by
  have stated : limitOf l p = some q := by
    cases p with
    | min | hour | day => exact h
    | month =>
      rw [limitOf]
      cases month : l.get? "rate_limit_per_month" with
      | none =>
        rw [declared, month] at h
        exact h
      | some m =>
        rw [declared, month] at h
        rw [month] at zero
        cases h
        have nonzero : q ≠ 0 := fun same => zero (by rw [same])
        simp [Option.filter, nonzero]
  have limited : q ≠ -1 := by
    intro same
    rw [same] at nonneg
    exact absurd nonneg (by decide +kernel)
  rw [activeLimit, stated]
  simp [Option.filter, limited]

theorem shut_active (h : Shut l) (zero : l.get? "rate_limit_per_month" = some 0) :
    ∃ p q, activeLimit l p = some q ∧ q < 1 := by
  obtain ⟨k, hk, q, found, limited, low⟩ := h
  have active : ∀ p, limitOf l p = some q → ∃ p q, activeLimit l p = some q ∧ q < 1 := by
    intro p stated
    refine ⟨p, q, ?_, low⟩
    rw [activeLimit, stated]
    simp [Option.filter, limited]
  simp only [List.mem_cons, List.not_mem_nil, or_false] at hk
  rcases hk with rfl | rfl | rfl | rfl
  · exact active .min found
  · exact active .hour found
  · exact active .day found
  · apply active .month
    rw [limitOf, zero, found]
    rfl

theorem active_open (h : ¬ Shut l) (zero : l.get? "rate_limit_per_month" = some 0) (p : Period)
    (active : activeLimit l p = some q) : 1 ≤ q := by
  obtain ⟨stated, limited⟩ := Option.filter_eq_some_iff.mp active
  rw [decide_eq_true_iff] at limited
  by_contra low
  have opened : ∀ k ∈ ["rate_limit_per_min", "rate_limit_per_hour", "rate_limit_per_day", "request_per_month"],
      l.get? k ≠ some q := fun k hk found => h ⟨k, hk, q, found, limited, not_le.mp low⟩
  cases p with
  | min => exact opened _ (by decide) stated
  | hour => exact opened _ (by decide) stated
  | day => exact opened _ (by decide) stated
  | month =>
    rw [limitOf, zero] at stated
    exact opened "request_per_month" (by decide) stated

theorem shut_admits_none {calls : List Call} (ordered : calls.Pairwise fun c d => c.now ≤ d.now) {t : String}
    {p : Period} (active : activeLimit (limits t) p = some q) (low : q < 1) (p' : Period) (window : ℕ) :
    admittedIn (run limits calls).2 p' t window = 0 := by
  by_contra some
  obtain ⟨a, ha, admitted⟩ := List.countP_pos_iff.mp (Nat.pos_of_ne_zero some)
  obtain ⟨tenant, _, allowed⟩ := of_decide_eq_true admitted
  have counted : 0 < admittedIn (run limits calls).2 p t (a.1.now / p.windowMs) :=
    List.countP_pos_iff.mpr ⟨a, ha, decide_eq_true ⟨tenant, rfl, allowed⟩⟩
  obtain ⟨now, last⟩ := exists_last calls
  have bound := (run_inv ordered last).within p t _ q active counted
  have one : (1 : ℚ) ≤ admittedIn (run limits calls).2 p t (a.1.now / p.windowMs) := by exact_mod_cast counted
  linarith

/-- The limits hold in every run when no monthly limit is 0, or another limit refuses every call. -/
theorem obeyed_iff (limits : String → Record String ℚ) :
    (∀ calls : List Call, calls.Pairwise (fun c d => c.now ≤ d.now) → Obeyed limits calls) ↔
      ∀ t, (limits t).get? "rate_limit_per_month" = some 0 → Shut (limits t) := by
  constructor
  · intro obeyed t zero
    by_contra opened
    have distinct : periods.Nodup := by decide
    have allowed : (checkPeriods (limits t) t 0 periods fun _ => none).2 = none :=
      checkPeriods_first distinct (fun p _ => rfl) fun p _ q active => active_open opened zero p active
    have month : declared (limits t) .month = some 0 := by
      rw [declared, zero]
      rfl
    have none := (obeyed [⟨t, 0⟩] (List.pairwise_singleton _ _)).bounded t .month 0 0 month le_rfl
    have one : admittedIn (run limits [⟨t, 0⟩]).2 .month t 0 = 1 := by
      rw [← List.nil_append [Call.mk t 0], run_snoc, step, admittedIn_snoc, if_pos ⟨rfl, Nat.zero_div _, allowed⟩]
      rfl
    rw [one] at none
    exact absurd none (by decide +kernel)
  · intro shut calls ordered
    obtain ⟨now, last⟩ := exists_last calls
    refine ⟨fun t p window l stated nonneg => ?_, fun t => (run_isolated ordered t last).1, run_remembers ordered⟩
    by_cases zero : (limits t).get? "rate_limit_per_month" = some 0
    · obtain ⟨p', q, active, low⟩ := shut_active (shut t zero) zero
      rw [shut_admits_none ordered active low p window]
      exact_mod_cast nonneg
    · rcases Nat.eq_zero_or_pos (admittedIn (run limits calls).2 p t window) with none | some
      · rw [none]
        exact_mod_cast nonneg
      · exact (run_inv ordered last).within p t window l (activeLimit_declared stated nonneg zero) some

def monthlyZero : Record String ℚ where
  entries := [("rate_limit_per_min", 10), ("rate_limit_per_month", 0)]
  distinct := by decide

theorem month_forgotten : ¬ Obeyed (fun _ => monthlyZero) [⟨"acme", 0⟩] := by
  intro obeyed
  have none := obeyed.bounded "acme" .month 0 0 rfl le_rfl
  exact absurd none (by decide +kernel)

end Limits

end DataFabric.RateLimits
