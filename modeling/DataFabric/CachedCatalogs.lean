import DataFabric.JsValues
import DataFabric.PassedStates
import Mathlib

set_option autoImplicit false

/-!
# Catalog reads through the cache

Many requests share the cache. Between two steps of one of them others may have read, changed the catalog or cleared
a tenant's keys, and the cache may fail to answer any of them.
-/
namespace DataFabric.CachedCatalogs
open JsValues TransitionRuns PassedStates

def metaTtl : ℕ := 3600

/-- What `meta:<tenant>:*` matches; a tenant has no character that a pattern reads otherwise. -/
def ofTenant (tenant key : String) : Bool := ("meta:" ++ tenant ++ ":").toList.isPrefixOf key.toList

structure Entry where
  value : JsValue
  expires : ℕ

/-- A reader of `cached` between its producer and its `cacheSet`. -/
structure Flight where
  key : String
  value : JsValue
  readAt : ℕ

/-- A request that changes the catalog, until it has cleared the tenant's keys. -/
structure Clearing where
  tenant : String
  /-- What `KEYS` gave it. -/
  listed : Option (String → Bool)

structure Caching where
  now : ℕ
  /-- What the producer of a key gives. -/
  catalog : String → JsValue
  redis : String → Option Entry
  flights : ℕ → Option Flight
  clearings : ℕ → Option Clearing

inductive Event
  | pass (seconds : ℕ)
  /-- One of the statements of a request. -/
  | change (clearing : ℕ) (tenant : String) (content : String → JsValue)
  /-- A change that no request announces. -/
  | changeSilently (content : String → JsValue)
  /-- A reader that missed, or could not ask. -/
  | produce (reader : ℕ) (key : String)
  | store (reader : ℕ) (answered : Bool)
  /-- Without an answer the request is done; so is one that fails before it clears anything. -/
  | listKeys (clearing : ℕ) (answered : Bool)
  | deleteKeys (clearing : ℕ) (answered : Bool)

def live (s : Caching) (key : String) : Bool := (s.redis key).any fun e => s.now < e.expires

def cacheGet (s : Caching) (key : String) (answered : Bool) : Option JsValue :=
  match answered, s.redis key with
  | true, some e => if s.now < e.expires ∧ e.value ≠ .null then some e.value else none
  | _, _ => none

def changed (s : Caching) (clearing : ℕ) (tenant : String) (content : String → JsValue) : Caching :=
  { s with
    catalog := fun key => if ofTenant tenant key then content key else s.catalog key
    clearings := Function.update s.clearings clearing (some ⟨tenant, none⟩) }

def cacheSet (s : Caching) (f : Flight) : String → Option Entry :=
  Function.update s.redis f.key (some ⟨f.value, s.now + metaTtl⟩)

def step (s : Caching) : Event → Option Caching
  | .pass seconds => some { s with now := s.now + seconds }
  | .change c tenant content =>
    match s.clearings c with
    | none => some (changed s c tenant content)
    | some ⟨t, none⟩ => if t = tenant then some (changed s c tenant content) else none
    | some ⟨_, some _⟩ => none
  | .changeSilently content => some { s with catalog := content }
  | .produce r key =>
    match s.flights r with
    | none => some { s with flights := Function.update s.flights r (some ⟨key, s.catalog key, s.now⟩) }
    | some _ => none
  | .store r answered =>
    match s.flights r with
    | some f => some { s with
        redis := if answered then cacheSet s f else s.redis
        flights := Function.update s.flights r none }
    | none => none
  | .listKeys c answered =>
    match s.clearings c with
    | some ⟨tenant, none⟩ =>
      let listed : Clearing := ⟨tenant, some fun key => ofTenant tenant key && live s key⟩
      some { s with clearings := Function.update s.clearings c (if answered then some listed else none) }
    | _ => none
  | .deleteKeys c answered =>
    match s.clearings c with
    | some ⟨_, some keys⟩ => some { s with
        redis := if answered then fun key => if keys key then none else s.redis key else s.redis
        clearings := Function.update s.clearings c none }
    | _ => none

def started (catalog : String → JsValue) : Caching where
  now := 0
  catalog := catalog
  redis := fun _ => none
  flights := fun _ => none
  clearings := fun _ => none

variable {s s' init : Caching} {ev : Event} {es : List Event} {key tenant : String} {c r : ℕ} {v : JsValue}

theorem cacheGet_some {answered : Bool} (hit : cacheGet s key answered = some v) :
    ∃ e, s.redis key = some e ∧ s.now < e.expires ∧ e.value = v := by
  unfold cacheGet at hit
  split at hit
  · rename_i e found
    by_cases fresh : s.now < e.expires ∧ e.value ≠ .null
    · rw [if_pos fresh, Option.some.injEq] at hit
      exact ⟨e, found, fresh.1, hit⟩
    · rw [if_neg fresh] at hit
      cases hit
  · cases hit

/-- What an event has to keep to for the key: no value is stored that the catalog no longer has, no change of the key
goes unannounced, and a request that changed the tenant's catalog is answered when it clears the keys. -/
def Careful (key : String) (s : Caching) : Event → Prop
  | .changeSilently content => content key = s.catalog key
  | .store r true => ∀ f ∈ s.flights r, f.key = key → f.value = s.catalog key
  | .listKeys c false | .deleteKeys c false => ∀ x ∈ s.clearings c, ofTenant x.tenant key = false
  | _ => True

instance : Decidable (Careful key s ev) :=
  match ev with
  | .changeSilently content => inferInstanceAs (Decidable (content key = s.catalog key))
  | .store r true => inferInstanceAs (Decidable (∀ f ∈ s.flights r, f.key = key → f.value = s.catalog key))
  | .listKeys c false | .deleteKeys c false =>
    inferInstanceAs (Decidable (∀ x ∈ s.clearings c, ofTenant x.tenant key = false))
  | .pass _ | .change _ _ _ | .produce _ _ | .store _ false | .listKeys _ true | .deleteKeys _ true => .isTrue trivial

/-- A value that is not the catalog's is about to be cleared. -/
def Covered (key : String) (s : Caching) : Prop :=
  ∀ e, s.redis key = some e → s.now < e.expires → e.value ≠ s.catalog key →
    ∃ c x, s.clearings c = some x ∧ ofTenant x.tenant key = true ∧ ∀ keys, x.listed = some keys → keys key = true

theorem covered_changed {content : String → JsValue} (covered : Covered key s)
    (guard : ∀ x, s.clearings c = some x → x.tenant = tenant) : Covered key (changed s c tenant content) := by
  intro e found unexpired stale
  by_cases own : ofTenant tenant key = true
  · exact ⟨c, ⟨tenant, none⟩, Function.update_self .., own, fun _ absurd => by cases absurd⟩
  · have same : (changed s c tenant content).catalog key = s.catalog key := if_neg own
    obtain ⟨d, x, pending, theirs, listed⟩ := covered e found unexpired (same ▸ stale)
    have other : d ≠ c := by
      rintro rfl
      exact own (guard x pending ▸ theirs)
    exact ⟨d, x, (Function.update_of_ne other ..).trans pending, theirs, listed⟩

theorem covered_step (covered : Covered key s) (careful : Careful key s ev) (stepped : step s ev = some s') :
    Covered key s' := by
  cases ev with
  | pass seconds =>
    rw [step, Option.some.injEq] at stepped
    subst stepped
    exact fun e found unexpired stale => covered e found (Nat.lt_of_le_of_lt (Nat.le_add_right ..) unexpired) stale
  | change c tenant content =>
    rw [step] at stepped
    split at stepped
    · rename_i none
      rw [Option.some.injEq] at stepped
      subst stepped
      exact covered_changed covered fun x pending => by rw [none] at pending; cases pending
    · rename_i t pending
      by_cases own : t = tenant
      · rw [if_pos own, Option.some.injEq] at stepped
        subst stepped
        refine covered_changed covered fun x here => ?_
        rw [pending, Option.some.injEq] at here
        exact here ▸ own
      · rw [if_neg own] at stepped
        cases stepped
    · cases stepped
  | changeSilently content =>
    rw [step, Option.some.injEq] at stepped
    subst stepped
    exact fun e found unexpired stale => covered e found unexpired (careful ▸ stale)
  | produce r k =>
    rw [step] at stepped
    split at stepped
    · rw [Option.some.injEq] at stepped
      subst stepped
      exact covered
    · cases stepped
  | store r answered =>
    rw [step] at stepped
    split at stepped
    · rename_i f flying
      rw [Option.some.injEq] at stepped
      subst stepped
      cases answered with
      | false => exact covered
      | true =>
        intro e found unexpired stale
        change cacheSet s f key = some e at found
        by_cases own : f.key = key
        · rw [cacheSet, own, Function.update_self, Option.some.injEq] at found
          subst found
          exact absurd (careful f flying own) stale
        · rw [cacheSet, Function.update_of_ne (Ne.symm own)] at found
          exact covered e found unexpired stale
    · cases stepped
  | listKeys c answered =>
    rw [step] at stepped
    split at stepped
    · rename_i t pending
      rw [Option.some.injEq] at stepped
      subst stepped
      intro e found unexpired stale
      obtain ⟨d, x, waiting, theirs, listed⟩ := covered e found unexpired stale
      by_cases same : d = c
      · subst same
        rw [pending, Option.some.injEq] at waiting
        subst waiting
        cases answered with
        | false => exact absurd theirs (by rw [careful _ pending]; exact Bool.false_ne_true)
        | true =>
          refine ⟨d, _, Function.update_self .., theirs, fun keys given => ?_⟩
          rw [Option.some.injEq] at given
          have alive : live s key = true := by
            change s.redis key = some e at found
            rw [live, found, Option.any_some, decide_eq_true_eq]
            exact unexpired
          have both : (ofTenant t key && live s key) = true := Bool.and_eq_true_iff.mpr ⟨theirs, alive⟩
          rw [← given]
          exact both
      · exact ⟨d, x, (Function.update_of_ne same ..).trans waiting, theirs, listed⟩
    · cases stepped
  | deleteKeys c answered =>
    rw [step] at stepped
    split at stepped
    · rename_i t keys pending
      rw [Option.some.injEq] at stepped
      subst stepped
      intro e found unexpired stale
      cases answered with
      | false =>
        obtain ⟨d, x, waiting, theirs, listed⟩ := covered e found unexpired stale
        have other : d ≠ c := by
          rintro rfl
          rw [careful x waiting] at theirs
          cases theirs
        exact ⟨d, x, (Function.update_of_ne other ..).trans waiting, theirs, listed⟩
      | true =>
        change (if keys key then none else s.redis key) = some e at found
        by_cases cleared : keys key = true
        · rw [if_pos cleared] at found
          cases found
        · rw [if_neg cleared] at found
          obtain ⟨d, x, waiting, theirs, listed⟩ := covered e found unexpired stale
          have other : d ≠ c := by
            rintro rfl
            rw [pending, Option.some.injEq] at waiting
            subst waiting
            exact cleared (listed keys rfl)
          exact ⟨d, x, (Function.update_of_ne other ..).trans waiting, theirs, listed⟩
    · cases stepped

/-- When every event of a run is careful of the key and no request has still to clear it, a hit is what the catalog
holds. -/
theorem cached_fresh {catalog : String → JsValue} {answered : Bool}
    (ran : run step (started catalog) es = some s)
    (careful : Throughout step (fun m ev => Careful key m ev) (started catalog) es)
    (settled : ∀ c x, s.clearings c = some x → ofTenant x.tenant key = false)
    (hit : cacheGet s key answered = some v) : v = s.catalog key := by
  have start : Covered key (started catalog) := fun e found => by cases found
  have covered : Covered key s := run_preserves_under ran careful start fun _ _ _ _ kept own stepped =>
    covered_step kept own stepped
  obtain ⟨e, found, unexpired, rfl⟩ := cacheGet_some hit
  by_contra stale
  obtain ⟨c, x, pending, theirs, _⟩ := covered e found unexpired stale
  rw [settled c x pending] at theirs
  cases theirs

def refreshes : List Event :=
  [.produce 0 "meta:acme:sources", .store 0 true, .change 1 "acme" fun _ => .str "new", .listKeys 1 true,
    .deleteKeys 1 true, .produce 0 "meta:acme:sources", .store 0 true]

def beforehand : Caching := started fun _ => .str "old"

theorem refreshes_run : (run step beforehand refreshes).isSome = true := rfl

theorem cached_fresh_replaced :
    JsValue.str "new" = ((run step beforehand refreshes).get refreshes_run).catalog "meta:acme:sources" := by
  have settled : ∀ c x, ((run step beforehand refreshes).get refreshes_run).clearings c = some x →
      ofTenant x.tenant "meta:acme:sources" = false := by
    intro c x pending
    by_cases own : c = 1
    · rw [own] at pending
      cases pending
    · change Function.update (Function.update (Function.update (fun _ => none) 1 _) 1 _) 1 none c = some x at pending
      rw [Function.update_of_ne own, Function.update_of_ne own, Function.update_of_ne own] at pending
      cases pending
  have hit : cacheGet ((run step beforehand refreshes).get refreshes_run) "meta:acme:sources" true =
      some (.str "new") := by
    decide +kernel
  exact cached_fresh (Option.some_get refreshes_run).symm (throughout_of_checks (by decide)) settled hit

/-- The keys that `KEYS` gave are the tenant's. -/
def Listing (clearings : ℕ → Option Clearing) : Prop :=
  ∀ c x keys k, clearings c = some x → x.listed = some keys → keys k = true → ofTenant x.tenant k = true

/-- Nothing is left that would clear the key. -/
def Apart (key : String) (clearings : ℕ → Option Clearing) : Prop :=
  ∀ c x, clearings c = some x → ofTenant x.tenant key = false ∧ ∀ keys, x.listed = some keys → keys key = false

theorem listing_update {clearings : ℕ → Option Clearing} {y : Option Clearing} (listing : Listing clearings)
    (own : ∀ x keys k, y = some x → x.listed = some keys → keys k = true → ofTenant x.tenant k = true) :
    Listing (Function.update clearings c y) := by
  intro d x keys k pending given mine
  by_cases same : d = c
  · rw [same, Function.update_self] at pending
    exact own x keys k pending given mine
  · rw [Function.update_of_ne same] at pending
    exact listing d x keys k pending given mine

theorem apart_update {clearings : ℕ → Option Clearing} {y : Option Clearing} (apart : Apart key clearings)
    (own : ∀ x, y = some x → ofTenant x.tenant key = false ∧ ∀ keys, x.listed = some keys → keys key = false) :
    Apart key (Function.update clearings c y) := by
  intro d x pending
  by_cases same : d = c
  · rw [same, Function.update_self] at pending
    exact own x pending
  · rw [Function.update_of_ne same] at pending
    exact apart d x pending

/-- What an event does to the requests that have still to clear something. -/
theorem clearings_step (stepped : step s ev = some s') :
    s'.clearings = s.clearings ∨
      (∃ c tenant content, ev = .change c tenant content ∧
        s'.clearings = Function.update s.clearings c (some ⟨tenant, none⟩)) ∨
      ∃ c y, s'.clearings = Function.update s.clearings c y ∧ ∀ x, y = some x → ∃ tenant,
        s.clearings c = some ⟨tenant, none⟩ ∧ x = ⟨tenant, some fun key => ofTenant tenant key && live s key⟩ := by
  cases ev with
  | pass seconds | changeSilently content =>
    cases stepped
    exact .inl rfl
  | produce r key | store r answered =>
    rw [step] at stepped
    split at stepped
    · cases stepped
      exact .inl rfl
    · cases stepped
  | change c tenant content =>
    refine .inr (.inl ⟨c, tenant, content, rfl, ?_⟩)
    rw [step] at stepped
    split at stepped
    · cases stepped
      rfl
    · obtain ⟨_, stepped⟩ := Option.ite_none_right_eq_some.mp stepped
      cases stepped
      rfl
    · cases stepped
  | listKeys c answered =>
    rw [step] at stepped
    split at stepped
    · rename_i tenant pending
      cases stepped
      refine .inr (.inr ⟨c, _, rfl, fun x given => ⟨tenant, pending, ?_⟩⟩)
      obtain ⟨_, given⟩ := Option.ite_none_right_eq_some.mp given
      exact (Option.some.inj given).symm
    · cases stepped
  | deleteKeys c answered =>
    rw [step] at stepped
    split at stepped
    · cases stepped
      exact .inr (.inr ⟨c, none, rfl, fun x absurd => by cases absurd⟩)
    · cases stepped

theorem listing_step (listing : Listing s.clearings) (stepped : step s ev = some s') : Listing s'.clearings := by
  obtain same | ⟨c, tenant, _, _, changed⟩ | ⟨c, y, changed, listed⟩ := clearings_step stepped
  · exact same ▸ listing
  · rw [changed]
    refine listing_update listing fun x keys k here given => ?_
    cases here
    cases given
  · rw [changed]
    refine listing_update listing fun x keys k here given mine => ?_
    obtain ⟨tenant, _, rfl⟩ := listed x here
    cases given
    exact (Bool.and_eq_true_iff.mp mine).1

def seconds : Event → ℕ
  | .pass n => n
  | _ => 0

def passed (es : List Event) : ℕ := (es.map seconds).sum

theorem now_step (stepped : step s ev = some s') : s'.now = s.now + seconds ev := by
  cases ev with
  | pass seconds | changeSilently content =>
    cases stepped
    rfl
  | change c tenant content =>
    rw [step] at stepped
    split at stepped
    · cases stepped
      rfl
    · cases (Option.ite_none_right_eq_some.mp stepped).2
      rfl
    · cases stepped
  | produce r key | store r answered | listKeys c answered | deleteKeys c answered =>
    rw [step] at stepped
    split at stepped
    · cases stepped
      rfl
    · cases stepped

theorem now_run (ran : run step s es = some s') : s'.now = s.now + passed es := by
  induction es generalizing s with
  | nil =>
    cases ran
    rfl
  | cons ev es ih =>
    obtain ⟨m, stepped, rest⟩ := Option.bind_eq_some_iff.mp ran
    rw [ih rest, now_step stepped, passed, passed, List.map_cons, List.sum_cons, Nat.add_assoc]

theorem flying_step {f : Flight} (flying : s.flights r = some f) (other : ∀ answered, ev ≠ .store r answered)
    (stepped : step s ev = some s') : s'.flights r = some f := by
  cases ev with
  | pass seconds | changeSilently content =>
    cases stepped
    exact flying
  | change c tenant content =>
    rw [step] at stepped
    split at stepped
    · cases stepped
      exact flying
    · cases (Option.ite_none_right_eq_some.mp stepped).2
      exact flying
    · cases stepped
  | produce q key =>
    rw [step] at stepped
    split at stepped
    · rename_i free
      cases stepped
      have apart : r ≠ q := by
        rintro rfl
        cases free.symm.trans flying
      exact (Function.update_of_ne apart ..).trans flying
    · cases stepped
  | store q answered =>
    have apart : r ≠ q := by
      rintro rfl
      exact other answered rfl
    rw [step] at stepped
    split at stepped
    · cases stepped
      exact (Function.update_of_ne apart ..).trans flying
    · cases stepped
  | listKeys c answered | deleteKeys c answered =>
    rw [step] at stepped
    split at stepped
    · cases stepped
      exact flying
    · cases stepped

/-- The key keeps what it has in the catalog, and no reader stores it. -/
def Quiet (key : String) (s : Caching) : Event → Prop
  | .change _ tenant _ => ofTenant tenant key = false
  | .changeSilently content => content key = s.catalog key
  | .store r true => ∀ f ∈ s.flights r, f.key ≠ key
  | _ => True

instance : Decidable (Quiet key s ev) :=
  match ev with
  | .change _ tenant _ => inferInstanceAs (Decidable (ofTenant tenant key = false))
  | .changeSilently content => inferInstanceAs (Decidable (content key = s.catalog key))
  | .store r true => inferInstanceAs (Decidable (∀ f ∈ s.flights r, f.key ≠ key))
  | .pass _ | .produce _ _ | .store _ false | .listKeys _ _ | .deleteKeys _ _ => .isTrue trivial

structure Stuck (key : String) (old new : JsValue) (deadline : ℕ) (s : Caching) : Prop where
  stored : s.redis key = some ⟨old, deadline⟩
  current : s.catalog key = new
  apart : Apart key s.clearings

theorem stuck_step {old new : JsValue} {deadline : ℕ} (stuck : Stuck key old new deadline s) (quiet : Quiet key s ev)
    (stepped : step s ev = some s') : Stuck key old new deadline s' := by
  have apart : Apart key s'.clearings := by
    obtain same | ⟨c, tenant, content, rfl, changed⟩ | ⟨c, y, changed, listed⟩ := clearings_step stepped
    · exact same ▸ stuck.apart
    · rw [changed]
      refine apart_update stuck.apart fun x here => ?_
      cases here
      exact ⟨quiet, fun _ absurd => by cases absurd⟩
    · rw [changed]
      refine apart_update stuck.apart fun x here => ?_
      obtain ⟨tenant, pending, rfl⟩ := listed x here
      have theirs := (stuck.apart c _ pending).1
      refine ⟨theirs, fun keys given => ?_⟩
      cases given
      exact Bool.and_eq_false_iff.mpr (.inl theirs)
  cases ev with
  | pass seconds =>
    cases stepped
    exact ⟨stuck.stored, stuck.current, apart⟩
  | changeSilently content =>
    cases stepped
    exact ⟨stuck.stored, quiet.trans stuck.current, apart⟩
  | change c tenant content =>
    have frame : (changed s c tenant content).catalog key = s.catalog key :=
      if_neg fun own => Bool.false_ne_true (quiet.symm.trans own)
    rw [step] at stepped
    split at stepped
    · cases stepped
      exact ⟨stuck.stored, frame.trans stuck.current, apart⟩
    · cases (Option.ite_none_right_eq_some.mp stepped).2
      exact ⟨stuck.stored, frame.trans stuck.current, apart⟩
    · cases stepped
  | produce r k =>
    rw [step] at stepped
    split at stepped
    · cases stepped
      exact ⟨stuck.stored, stuck.current, apart⟩
    · cases stepped
  | store r answered =>
    rw [step] at stepped
    split at stepped
    · rename_i f flying
      cases stepped
      refine ⟨?_, stuck.current, apart⟩
      cases answered with
      | false => exact stuck.stored
      | true => exact (Function.update_of_ne (Ne.symm (quiet f flying)) ..).trans stuck.stored
    · cases stepped
  | listKeys c answered =>
    rw [step] at stepped
    split at stepped
    · cases stepped
      exact ⟨stuck.stored, stuck.current, apart⟩
    · cases stepped
  | deleteKeys c answered =>
    rw [step] at stepped
    split at stepped
    · rename_i t keys pending
      cases stepped
      refine ⟨?_, stuck.current, apart⟩
      cases answered with
      | false => exact stuck.stored
      | true =>
        change (if keys key = true then none else s.redis key) = _
        rw [(stuck.apart c _ pending).2 keys rfl, if_neg Bool.false_ne_true]
        exact stuck.stored
    · cases stepped

/-- Where the values in flight and in the cache come from. -/
structure Dated (latency : ℕ) (init : Caching) (es : List Event) (s : Caching) : Prop where
  flights : ∀ r f, s.flights r = some f → ∃ m, Passes step init es m ∧ m.catalog f.key = f.value ∧ f.readAt = m.now
  redis : ∀ key e, s.redis key = some e →
    ∃ m, Passes step init es m ∧ m.catalog key = e.value ∧ e.expires ≤ m.now + latency + metaTtl

/-- A value is stored at most so long after it was read. -/
def Prompt (latency : ℕ) (s : Caching) : Event → Prop
  | .store r true => ∀ f ∈ s.flights r, s.now ≤ f.readAt + latency
  | _ => True

instance {latency : ℕ} : Decidable (Prompt latency s ev) :=
  match ev with
  | .store r true => inferInstanceAs (Decidable (∀ f ∈ s.flights r, s.now ≤ f.readAt + latency))
  | .pass _ | .change _ _ _ | .changeSilently _ | .produce _ _ | .store _ false | .listKeys _ _ | .deleteKeys _ _ =>
    .isTrue trivial

theorem dated_step {latency : ℕ} (ran : run step init es = some s) (dated : Dated latency init es s)
    (prompt : Prompt latency s ev) (stepped : step s ev = some s') : Dated latency init (es ++ [ev]) s' := by
  have old (kept : ∀ r f, s'.flights r = some f → s.flights r = some f)
      (less : ∀ key e, s'.redis key = some e → s.redis key = some e) : Dated latency init (es ++ [ev]) s' := by
    constructor
    · intro r f flying
      obtain ⟨m, passes, rest⟩ := dated.flights r f (kept r f flying)
      exact ⟨m, passes.snoc ev, rest⟩
    · intro key e found
      obtain ⟨m, passes, rest⟩ := dated.redis key e (less key e found)
      exact ⟨m, passes.snoc ev, rest⟩
  have landed (r : ℕ) : ∀ q f, Function.update s.flights r none q = some f → s.flights q = some f := by
    intro q f flying
    by_cases same : q = r
    · rw [same, Function.update_self] at flying
      cases flying
    · rwa [Function.update_of_ne same] at flying
  cases ev with
  | pass seconds =>
    rw [step, Option.some.injEq] at stepped
    subst stepped
    exact old (fun _ _ => id) fun _ _ => id
  | change c tenant content =>
    rw [step] at stepped
    split at stepped
    · rw [Option.some.injEq] at stepped
      subst stepped
      exact old (fun _ _ => id) fun _ _ => id
    · rename_i t _
      by_cases own : t = tenant
      · rw [if_pos own, Option.some.injEq] at stepped
        subst stepped
        exact old (fun _ _ => id) fun _ _ => id
      · rw [if_neg own] at stepped
        cases stepped
    · cases stepped
  | changeSilently content =>
    rw [step, Option.some.injEq] at stepped
    subst stepped
    exact old (fun _ _ => id) fun _ _ => id
  | produce r k =>
    rw [step] at stepped
    split at stepped
    · rw [Option.some.injEq] at stepped
      subst stepped
      constructor
      · intro q f flying
        by_cases same : q = r
        · rw [same] at flying
          change Function.update s.flights r _ r = some f at flying
          rw [Function.update_self, Option.some.injEq] at flying
          subst flying
          exact ⟨s, passes_before ran _, rfl, rfl⟩
        · change Function.update s.flights r _ q = some f at flying
          rw [Function.update_of_ne same] at flying
          obtain ⟨m, passes, rest⟩ := dated.flights q f flying
          exact ⟨m, passes.snoc _, rest⟩
      · intro key e found
        obtain ⟨m, passes, rest⟩ := dated.redis key e found
        exact ⟨m, passes.snoc _, rest⟩
    · cases stepped
  | store r answered =>
    rw [step] at stepped
    split at stepped
    · rename_i f flying
      rw [Option.some.injEq] at stepped
      subst stepped
      cases answered with
      | false => exact old (landed r) fun _ _ => id
      | true =>
        constructor
        · intro q g there
          obtain ⟨m, passes, rest⟩ := dated.flights q g (landed r q g there)
          exact ⟨m, passes.snoc _, rest⟩
        · intro key e found
          change cacheSet s f key = some e at found
          by_cases own : key = f.key
          · rw [cacheSet, own, Function.update_self, Option.some.injEq] at found
            subst found
            obtain ⟨m, passes, same, time⟩ := dated.flights r f flying
            have late := prompt f flying
            refine ⟨m, passes.snoc _, own ▸ same, ?_⟩
            change s.now + metaTtl ≤ m.now + latency + metaTtl
            omega
          · rw [cacheSet, Function.update_of_ne own] at found
            obtain ⟨m, passes, rest⟩ := dated.redis key e found
            exact ⟨m, passes.snoc _, rest⟩
    · cases stepped
  | listKeys c answered =>
    rw [step] at stepped
    split at stepped
    · rw [Option.some.injEq] at stepped
      subst stepped
      exact old (fun _ _ => id) fun _ _ => id
    · cases stepped
  | deleteKeys c answered =>
    rw [step] at stepped
    split at stepped
    · rename_i t keys _
      rw [Option.some.injEq] at stepped
      subst stepped
      refine old (fun _ _ => id) fun key e found => ?_
      cases answered with
      | false => exact found
      | true =>
        change (if keys key then none else s.redis key) = some e at found
        by_cases cleared : keys key = true
        · rw [if_pos cleared] at found
          cases found
        · rwa [if_neg cleared] at found
    · cases stepped

theorem dated_run {latency : ℕ} {catalog : String → JsValue} (ran : run step (started catalog) es = some s)
    (prompt : Throughout step (fun m ev => Prompt latency m ev) (started catalog) es) :
    Dated latency (started catalog) es s := by
  have start : Dated latency (started catalog) [] (started catalog) := by
    constructor
    · intro _ _ flying
      cases flying
    · intro _ _ found
      cases found
  exact run_looking_back ran prompt start fun _ _ _ _ before dated own stepped =>
    dated_step before dated own stepped

/-- Whatever the requests do and wherever the cache fails: a hit was in the catalog at some moment of the run, no
longer ago than the readers' latency and `META_TTL`. -/
theorem cached_recent {latency : ℕ} {catalog : String → JsValue} {answered : Bool}
    (ran : run step (started catalog) es = some s)
    (prompt : Throughout step (fun m ev => Prompt latency m ev) (started catalog) es)
    (hit : cacheGet s key answered = some v) :
    ∃ m, Passes step (started catalog) es m ∧ m.catalog key = v ∧ s.now < m.now + latency + metaTtl := by
  obtain ⟨e, found, unexpired, rfl⟩ := cacheGet_some hit
  obtain ⟨m, passes, same, bound⟩ := (dated_run ran prompt).redis key e found
  exact ⟨m, passes, same, by omega⟩

/-- The value of the last second of its time. -/
def agings : List Event :=
  [.produce 0 "meta:acme:sources", .pass 5, .store 0 true, .changeSilently fun _ => .str "new", .pass 3599]

theorem agings_run : (run step beforehand agings).isSome = true := rfl

theorem cached_recent_aged :
    ∃ m, Passes step beforehand agings m ∧ m.catalog "meta:acme:sources" = .str "old" ∧
      ((run step beforehand agings).get agings_run).now < m.now + 5 + metaTtl := by
  have hit : cacheGet ((run step beforehand agings).get agings_run) "meta:acme:sources" true = some (.str "old") := by
    decide +kernel
  exact cached_recent (Option.some_get agings_run).symm (throughout_of_checks (by decide)) hit

end DataFabric.CachedCatalogs
