import DataFabric.LimitsResolver
import Mathlib.Data.List.Induction

set_option autoImplicit false

/-!
# What becomes of a rejected licence

The daemon keeps its state in memory and writes it to the settings, where the licence manager reads it.
-/
namespace DataFabric.LicenseValidations
open LimitsResolver (LicenseStatus)

inductive Status | valid | grace_period | invalid
  deriving DecidableEq, Repr

structure LicenseValidationState where
  status : Status
  errorMessage : Option String
  lastSuccessAt : Option ℤ
  deriving DecidableEq, Repr

/-- The key that is installed, as it decodes; an instant is none if its text is no date. -/
structure License where
  signed : Bool
  issuedAt : Option (Option ℤ)
  expiresAt : Option (Option ℤ)
  boundInstanceId : Option String
  callbackValidationEnabled : Option Bool
  validationUrl : Option String

structure ResponseData where
  instanceId : String
  /-- Without a number the comparison is with NaN. -/
  timestamp : Option ℤ
  valid : Bool
  reason : Option String
  deriving DecidableEq

/-- What the request to the portal comes to: it fails, or there is a response, whose signature fits or does not. -/
inductive Reply
  | failed (message : String)
  | response (status : ℕ) (body : Option (Option ResponseData × Option Bool))

inductive Answer
  | success
  | rejection (reason : String)
  deriving DecidableEq

def expired (lic : License) (now : ℤ) : Bool := lic.expiresAt.any fun at_ => at_.any (· < now)

def verifyLicense (lic : License) (now : ℤ) : Option License :=
  if lic.signed && !expired lic now then some lic else none

/-- The field as a condition reads it. -/
def filled (field : Option String) : Option String := field.filter (· ≠ "")

def callbackUrl (lic : License) : Option String :=
  if lic.callbackValidationEnabled = some false then none else filled lic.validationUrl

/-- The request and the checks on its response; an error is thrown. -/
def answer (instanceId : String) (now : ℤ) : Reply → Except String Answer
  | .failed message => .error message
  | .response 200 (some (some data, some fits)) =>
    if !fits then .error "Invalid response signature. Response may have been spoofed!"
    else if data.instanceId ≠ instanceId then
      .error "Instance ID mismatch in validation response. Replay attack detected."
    else if data.timestamp.any fun sent => |now - sent| > 5 * 60 * 1000 then
      .error "Validation signature timestamp is stale. Replay attack detected."
    else if data.valid then .ok .success
    else .ok (.rejection ((filled data.reason).getD "License validation rejected by portal."))
  | .response 200 (some _) =>
    .error "Validation response signature is missing. Potential MITM interception detected!"
  | .response status _ => .error ("Unexpected portal response code: " ++ toString status)

/-- Days since the last success, or since the key was issued; none stands for NaN. -/
def diffDays (lic : License) (lastSuccessAt : Option ℤ) (now : ℤ) : Option ℤ :=
  let baseDate : Option ℤ := lastSuccessAt.elim (lic.issuedAt.getD (some now)) some
  baseDate.map fun at_ => (|now - at_| + 86399999) / 86400000

def validate (instanceId : String) (installed : Option License) (now : ℤ) (reply : Reply)
    (state : LicenseValidationState) : LicenseValidationState :=
  match installed with
  | none => ⟨.valid, none, state.lastSuccessAt⟩
  | some lic =>
    match verifyLicense lic now with
    | none => ⟨.invalid, some "License key is cryptographically invalid or has expired.", state.lastSuccessAt⟩
    | some lic =>
      if (callbackUrl lic).isNone then ⟨.valid, none, some now⟩
      else
        match answer instanceId now reply with
        | .ok .success => ⟨.valid, none, some now⟩
        | .ok (.rejection reason) => ⟨.invalid, some reason, state.lastSuccessAt⟩
        | .error _ =>
          let days := diffDays lic state.lastSuccessAt now
          if days.any (60 < ·) then
            ⟨.invalid, some "License validation has failed for more than 60 days. Please verify server internet connectivity or contact support.",
              state.lastSuccessAt⟩
          else
            ⟨.grace_period, some ("Connection to licensing portal failed. Service will be blocked in " ++
              days.elim "NaN" (fun d => toString (60 - d)) ++ " day(s) if validation does not succeed."),
              state.lastSuccessAt⟩

def evaluate (installed : Option License) (instanceId : String) (now : ℤ) (row : Option LicenseValidationState) :
    LicenseStatus :=
  match installed with
  | none => .none
  | some lic =>
    match verifyLicense lic now with
    | none => if expired lic now then .expired else .invalid
    | some lic =>
      if (filled lic.boundInstanceId).any (· ≠ instanceId) then .wrong_instance
      else if row.any (·.status = .invalid) && (callbackUrl lic).isSome then .revoked
      else .valid

structure World where
  state : LicenseValidationState
  row : Option LicenseValidationState

/-- A tick of the daemon, or a restart, at whose start the daemon ticks. -/
inductive Event
  | tick (now : ℤ) (reply : Reply)
  | restart

section

variable (lic : License) (instanceId : String)

def step (w : World) : Event → World
  | .tick now reply =>
    let state := validate instanceId (some lic) now reply w.state
    ⟨state, some state⟩
  | .restart => { w with state := ⟨.valid, none, none⟩ }

def after (w : World) (es : List Event) : World := es.foldl (step lic instanceId) w

/-- The answer of the portal that a tick gets and trusts; an error where it fails. -/
def heard : Event → Option (Except String Answer)
  | .tick now reply =>
    if (verifyLicense lic now).isSome && (callbackUrl lic).isSome then some (answer instanceId now reply) else none
  | .restart => none

def Rejects (e : Event) : Prop := ∃ reason, heard lic instanceId e = some (.ok (.rejection reason))

def Succeeds (e : Event) : Prop := heard lic instanceId e = some (.ok .success)

def Revoked (w : World) : Prop :=
  w.row.map (·.status) = some .invalid ∧ ∀ now, evaluate (some lic) instanceId now w.row ≠ .valid

/-- From a rejection until the next success the licence stays revoked. -/
def Sticky (w : World) (es : List Event) : Prop :=
  ∀ before e mid later, es = before ++ e :: mid ++ later → Rejects lic instanceId e →
    (∀ x ∈ mid, ¬ Succeeds lic instanceId x) → Revoked lic instanceId (after lic instanceId w (before ++ e :: mid))

def GraceOver (w : World) : Event → Prop
  | .tick now reply => ∀ message, heard lic instanceId (.tick now reply) = some (.error message) →
      ∃ days, diffDays lic w.state.lastSuccessAt now = some days ∧ 60 < days
  | .restart => True

/-- Between a rejection and the next success a tick fails only when the grace period is over. -/
def HoldsWhen (w : World) (es : List Event) : Prop :=
  ∀ before e mid x later, es = before ++ e :: mid ++ x :: later → Rejects lic instanceId e →
    (∀ y ∈ mid, ¬ Succeeds lic instanceId y) → GraceOver lic instanceId (after lic instanceId w (before ++ e :: mid)) x

end

section

variable {lic : License} {instanceId : String} {w : World}

theorem rejects_callback {e : Event} (h : Rejects lic instanceId e) : (callbackUrl lic).isSome = true := by
  obtain ⟨reason, hheard⟩ := h
  cases e with
  | restart => cases hheard
  | tick now reply =>
    unfold heard at hheard
    dsimp only at hheard
    by_cases hasked : ((verifyLicense lic now).isSome && (callbackUrl lic).isSome) = true
    · exact (Bool.and_eq_true_iff.mp hasked).2
    · rw [if_neg hasked] at hheard
      cases hheard

theorem verifyLicense_same {now : ℤ} {lic' : License} (h : verifyLicense lic now = some lic') : lic' = lic := by
  unfold verifyLicense at h
  split at h
  · exact (Option.some.inj h).symm
  · cases h

theorem revoked_of (hcallback : (callbackUrl lic).isSome = true) (h : w.row.map (·.status) = some .invalid) :
    Revoked lic instanceId w := by
  refine ⟨h, fun now hvalid => ?_⟩
  obtain ⟨row, hrow, hstatus⟩ := Option.map_eq_some_iff.mp h
  unfold evaluate at hvalid
  dsimp only at hvalid
  cases hverify : verifyLicense lic now with
  | none =>
    rw [hverify] at hvalid
    dsimp only at hvalid
    split at hvalid <;> cases hvalid
  | some lic' =>
    rw [hverify, verifyLicense_same hverify] at hvalid
    dsimp only at hvalid
    rw [hrow, Option.any_some, hstatus, hcallback] at hvalid
    split at hvalid <;> cases hvalid

theorem tick_status (hcallback : (callbackUrl lic).isSome = true) (now : ℤ) (reply : Reply) :
    (heard lic instanceId (.tick now reply) = none ∧
        (validate instanceId (some lic) now reply w.state).status = .invalid) ∨
      heard lic instanceId (.tick now reply) = some (.ok .success) ∨
      (Rejects lic instanceId (.tick now reply) ∧
        (validate instanceId (some lic) now reply w.state).status = .invalid) ∨
      ∃ message, heard lic instanceId (.tick now reply) = some (.error message) ∧
        (validate instanceId (some lic) now reply w.state).status =
          if (diffDays lic w.state.lastSuccessAt now).any (60 < ·) then .invalid else .grace_period := by
  obtain ⟨url, hurl⟩ := Option.isSome_iff_exists.mp hcallback
  unfold Rejects heard validate
  dsimp only
  rw [hcallback, Bool.and_true]
  cases hverify : verifyLicense lic now with
  | none => exact .inl ⟨rfl, rfl⟩
  | some lic' =>
    rw [verifyLicense_same hverify]
    dsimp only
    rw [Option.isSome_some, if_pos rfl, hurl, Option.isNone_some, if_neg Bool.false_ne_true]
    cases hanswer : answer instanceId now reply with
    | error message =>
      refine .inr (.inr (.inr ⟨message, rfl, ?_⟩))
      dsimp only
      split <;> rfl
    | ok a =>
      cases a with
      | success => exact .inr (.inl rfl)
      | rejection reason => exact .inr (.inr (.inl ⟨⟨reason, rfl⟩, rfl⟩))

theorem rejected_step {e : Event} (h : Rejects lic instanceId e) :
    (step lic instanceId w e).row.map (·.status) = some .invalid := by
  cases e with
  | restart =>
    obtain ⟨reason, hheard⟩ := h
    cases hheard
  | tick now reply =>
    obtain ⟨reason, hheard⟩ := id h
    rcases tick_status (w := w) (rejects_callback h) now reply with ⟨hnone, -⟩ | hsuccess | ⟨-, hstatus⟩ | ⟨m, herror, -⟩
    · rw [hheard] at hnone
      cases hnone
    · rw [hheard] at hsuccess
      cases hsuccess
    · exact congrArg some hstatus
    · rw [hheard] at herror
      cases herror

theorem invalid_step (hcallback : (callbackUrl lic).isSome = true) (h : w.row.map (·.status) = some .invalid)
    {x : Event} (hx : ¬ Succeeds lic instanceId x) (hgrace : GraceOver lic instanceId w x) :
    (step lic instanceId w x).row.map (·.status) = some .invalid := by
  cases x with
  | restart => exact h
  | tick now reply =>
    rcases tick_status (w := w) hcallback now reply with ⟨-, hstatus⟩ | hsuccess | ⟨-, hstatus⟩ | ⟨m, herror, hstatus⟩
    · exact congrArg some hstatus
    · exact absurd hsuccess hx
    · exact congrArg some hstatus
    · obtain ⟨days, hdays, hlate⟩ := hgrace m herror
      rw [hdays, Option.any_some, if_pos (decide_eq_true hlate)] at hstatus
      exact congrArg some hstatus

theorem grace_step (hcallback : (callbackUrl lic).isSome = true) {x : Event}
    (hgrace : ¬ GraceOver lic instanceId w x) : ¬ Succeeds lic instanceId x ∧
      (step lic instanceId w x).row.map (·.status) = some .grace_period := by
  cases x with
  | restart => exact absurd trivial hgrace
  | tick now reply =>
    unfold GraceOver at hgrace
    push Not at hgrace
    obtain ⟨message, hheard, hdays⟩ := hgrace
    refine ⟨fun hsuccess => ?_, ?_⟩
    · rw [Succeeds, hheard] at hsuccess
      cases hsuccess
    rcases tick_status (w := w) hcallback now reply with ⟨hnone, -⟩ | hsuccess | ⟨⟨r, hreject⟩, -⟩ | ⟨m, -, hstatus⟩
    · rw [hheard] at hnone
      cases hnone
    · rw [hheard] at hsuccess
      cases hsuccess
    · rw [hheard] at hreject
      cases hreject
    · rw [if_neg] at hstatus
      · exact congrArg some hstatus
      · intro hlate
        obtain ⟨days, hsome, hgt⟩ := (Option.any_eq_true _ _).mp hlate
        exact absurd (of_decide_eq_true hgt) (not_lt.mpr (hdays days hsome))

theorem after_concat (w : World) (es : List Event) (x : Event) :
    after lic instanceId w (es ++ [x]) = step lic instanceId (after lic instanceId w es) x := by
  unfold after
  rw [List.foldl_append]
  rfl

theorem invalid_run {es : List Event} (h : HoldsWhen lic instanceId w es) {before mid later : List Event} {e : Event}
    (hes : es = before ++ e :: mid ++ later) (he : Rejects lic instanceId e)
    (hmid : ∀ x ∈ mid, ¬ Succeeds lic instanceId x) :
    (after lic instanceId w (before ++ e :: mid)).row.map (·.status) = some .invalid := by
  induction mid using List.reverseRecOn generalizing later with
  | nil =>
    rw [after_concat]
    exact rejected_step he
  | append_singleton mid x ih =>
    have hsplit : es = before ++ e :: mid ++ x :: later := by
      rw [hes, ← List.cons_append, ← List.append_assoc, List.append_assoc _ [x], List.singleton_append]
    have hearlier : ∀ y ∈ mid, ¬ Succeeds lic instanceId y := fun y hy => hmid y (List.mem_append_left _ hy)
    rw [← List.cons_append, ← List.append_assoc, after_concat]
    exact invalid_step (rejects_callback he) (ih hsplit hearlier)
      (hmid x (List.mem_append_right _ (List.mem_singleton.mpr rfl))) (h before e mid x later hsplit he hearlier)

end

/-- In every run: from each rejection until the next success the licence stays revoked if and only if every tick
that fails in between finds the grace period over. -/
theorem sticky_iff (lic : License) (instanceId : String) (w : World) (es : List Event) :
    Sticky lic instanceId w es ↔ HoldsWhen lic instanceId w es := by
  constructor
  · intro h before e mid x later hes he hmid
    by_contra hgrace
    obtain ⟨hsuccess, hstatus⟩ := grace_step (rejects_callback he) hgrace
    have hlonger : ∀ y ∈ mid ++ [x], ¬ Succeeds lic instanceId y := by
      intro y hy
      rcases List.mem_append.mp hy with hy | hy
      · exact hmid y hy
      · rw [List.mem_singleton.mp hy]
        exact hsuccess
    have hrevoked := (h before e (mid ++ [x]) later (by rw [hes]; simp) he hlonger).1
    rw [← List.cons_append, ← List.append_assoc, after_concat, hstatus] at hrevoked
    cases hrevoked
  · intro h before e mid later hes he hmid
    exact revoked_of (rejects_callback he) (invalid_run h hes he hmid)

/-- A key with a validation URL, issued at the epoch and never expiring. -/
def issued : License := ⟨true, some (some 0), none, none, none, some "https://licensing.example.com/api/licenses/validate"⟩

def rejection : Event := .tick 0 (.response 200 (some (some ⟨"i", some 0, false, none⟩, some true)))

/-- A day after the rejection the portal is out of reach: the licence is in its grace period. -/
theorem revocation_forgotten : ¬ ∀ (lic : License) (instanceId : String) (w : World) (es : List Event),
    Sticky lic instanceId w es := by
  intro h
  have hrevoked := (h issued "i" ⟨⟨.valid, none, none⟩, none⟩ [rejection, .tick 86400000 (.failed "timeout")] []
    rejection [.tick 86400000 (.failed "timeout")] [] rfl ⟨_, rfl⟩ fun x hx hsuccess => by
      rw [List.mem_singleton.mp hx] at hsuccess
      cases hsuccess).1
  exact absurd hrevoked (by decide +kernel)

end DataFabric.LicenseValidations
