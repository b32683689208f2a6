import DataFabric.TransitionRuns
import Mathlib.Data.PNat.Notation
import Mathlib.Logic.Function.Iterate

set_option autoImplicit false

/-!
# Draining a change stream

A drain reads events from the saved token on, looking the document of an update up as it reads it,
applies the changes of a batch one by one and then saves the token. The collection is written between
any two of these steps, and a run may die between any two.
-/
namespace DataFabric.MongoDrains

open TransitionRuns

/-- The documents of a collection, or the rows of a destination, by `_id`. -/
abbrev Collection (κ ν : Type*) := κ → Option ν

/-- An event of the oplog; only an update comes without its document. -/
inductive StreamEvent (κ ν : Type*)
  | insert (id : κ) (doc : ν)
  | replace (id : κ) (doc : ν)
  | update (id : κ)
  | delete (id : κ)

def StreamEvent.documentKey {κ ν : Type*} : StreamEvent κ ν → κ
  | .insert id _ => id
  | .replace id _ => id
  | .update id => id
  | .delete id => id

inductive ChangeOp | I | U | D
deriving DecidableEq

structure Change (κ ν : Type*) where
  op : ChangeOp
  pk : κ
  doc : Option ν

inductive Phase (κ ν : Type*)
  | idle
  /-- `drainChanges` with the events up to `token` read. -/
  | reading (token : ℕ) (changes : List (Change κ ν))
  /-- A batch of `size` changes that ends at `next`, with the ones left to apply. -/
  | applying (changes : List (Change κ ν)) (next : ℕ) (size : ℕ)

structure World (κ ν : Type*) where
  source : Collection κ ν
  oplog : List (StreamEvent κ ν)
  /-- The saved token: how many events are behind it. -/
  token : ℕ
  phase : Phase κ ν
  dest : Collection κ ν

inductive Write (κ ν : Type*)
  | insert (id : κ) (doc : ν)
  | replace (id : κ) (doc : ν)
  | update (id : κ) (doc : ν)
  | delete (id : κ)

inductive Event (κ ν : Type*)
  | write (x : Write κ ν)
  | drain
  | crash

section Machine

variable {κ ν : Type*} [DecidableEq κ]

/-- A write that is refused or matches no document leaves no event. -/
def write (w : World κ ν) : Write κ ν → World κ ν
  | .insert id doc => if (w.source id).isSome then w else
      { w with source := Function.update w.source id (some doc), oplog := w.oplog ++ [.insert id doc] }
  | .replace id doc => if (w.source id).isSome then
      { w with source := Function.update w.source id (some doc), oplog := w.oplog ++ [.replace id doc] } else w
  | .update id doc => if (w.source id).isSome then
      { w with source := Function.update w.source id (some doc), oplog := w.oplog ++ [.update id] } else w
  | .delete id => if (w.source id).isSome then
      { w with source := Function.update w.source id none, oplog := w.oplog ++ [.delete id] } else w

omit [DecidableEq κ] in
def changeOf (source : Collection κ ν) : StreamEvent κ ν → Change κ ν
  | .insert id doc => ⟨.I, id, some doc⟩
  | .replace id doc => ⟨.I, id, some doc⟩
  | .update id => ⟨.U, id, source id⟩
  | .delete id => ⟨.D, id, none⟩

/-- What the run finds of the collection and the destination makes of a change. -/
structure Replica (κ ν : Type*) where
  /-- Columns are discovered; without a document there are none. -/
  discovers : Collection κ ν → Bool
  /-- The upsert of a document is not refused. -/
  takes : κ → ν → Bool
  /-- `finds k pk`: the delete by the text of `pk` removes a row that was written under `k`. -/
  finds : κ → κ → Bool

/-- An upsert reads the columns off the document, so without one it throws. -/
def applyChange (ends : Replica κ ν) (dest : Collection κ ν) (c : Change κ ν) : Option (Collection κ ν) :=
  match c.op with
  | .D => some fun k => if ends.finds k c.pk then none else dest k
  | .I | .U => (c.doc.filter (ends.takes c.pk)).map fun doc => Function.update dest c.pk (some doc)

/-- `drainChanges` returns with a full batch or at the end of the oplog. -/
def closeBatch (w : World κ ν) (token : ℕ) (changes : List (Change κ ν)) : World κ ν :=
  if changes.length = 0 then { w with token := token, phase := .idle }
  else { w with phase := .applying changes token changes.length }

def drain (ends : Replica κ ν) (batchSize : ℕ) (w : World κ ν) : World κ ν :=
  match w.phase with
  -- a run that finds no columns throws before it drains
  | .idle => if ends.discovers w.source then { w with phase := .reading w.token [] } else w
  | .reading token changes =>
    if changes.length < batchSize then
      match w.oplog[token]? with
      | some ev => { w with phase := .reading (token + 1) (changes ++ [changeOf w.source ev]) }
      | none => closeBatch w token changes
    else closeBatch w token changes
  | .applying (c :: rest) next size =>
    match applyChange ends w.dest c with
    | some dest => { w with dest := dest, phase := .applying rest next size }
    | none => { w with phase := .idle }
  | .applying [] next size =>
    { w with token := next, phase := if size < batchSize then .idle else .reading next [] }

def step (ends : Replica κ ν) (batchSize : ℕ) (w : World κ ν) : Event κ ν → Option (World κ ν)
  | .write x => some (write w x)
  | .drain => some (drain ends batchSize w)
  | .crash => some { w with phase := .idle }

omit [DecidableEq κ] in
def Told (source : Collection κ ν) : StreamEvent κ ν → Prop
  | .insert id doc => source id = some doc
  | .replace id doc => source id = some doc
  | .update id => (source id).isSome
  | .delete id => source id = none

omit [DecidableEq κ] in
def Sound (source : Collection κ ν) : List (StreamEvent κ ν) → Prop
  | [] => True
  | ev :: later => ((∀ e ∈ later, e.documentKey ≠ ev.documentKey) → Told source ev) ∧ Sound source later

/-- The destination has the documents that no event behind the token is about. -/
def Agrees (source dest : Collection κ ν) (later : List (StreamEvent κ ν)) : Prop :=
  ∀ id, (∀ e ∈ later, e.documentKey ≠ id) → dest id = source id

def start : Set (World κ ν) :=
  {w | w.phase = .idle ∧ w.token ≤ w.oplog.length ∧ Sound w.source w.oplog ∧
    Agrees w.source w.dest (w.oplog.drop w.token)}

/-- When writing stops, the drains apply every event, save the token behind them and leave the
destination with the documents of the collection. -/
def Progresses (ends : Replica κ ν) (batchSize : ℕ) (w : World κ ν) : Prop :=
  ∃ n, 0 < n ∧ ((drain ends batchSize)^[n] w).phase = .idle ∧
    ((drain ends batchSize)^[n] w).token = w.oplog.length ∧ ((drain ends batchSize)^[n] w).dest = w.source

/-- A delete event ends the row of its document and no other. -/
def DeletesFound (ends : Replica κ ν) (oplog : List (StreamEvent κ ν)) : Prop :=
  ∀ id, .delete id ∈ oplog → ∀ k, ends.finds k id = decide (k = id)

/-- The event comes with a document, and the destination takes it. -/
def documentThere (ends : Replica κ ν) (source : Collection κ ν) : StreamEvent κ ν → Bool
  | .insert id doc => ends.takes id doc
  | .replace id doc => ends.takes id doc
  | .update id => (source id).any (ends.takes id)
  | .delete _ => true

/-- No event behind the token updates a document that is gone, or brings one that is refused. -/
def NoneLost (ends : Replica κ ν) (w : World κ ν) : Prop :=
  ∀ ev ∈ w.oplog.drop w.token, documentThere ends w.source ev = true

/-- Nothing is left to apply, or the run finds columns and can apply every event. -/
def HoldsWhen (ends : Replica κ ν) (w : World κ ν) : Prop :=
  w.token = w.oplog.length ∨ ends.discovers w.source = true ∧ NoneLost ends w

omit [DecidableEq κ] in
/-- Applied last, a change leaves the destination with what the collection has. -/
def Leads (source : Collection κ ν) (c : Change κ ν) : Prop :=
  match c.op with
  | .D => source c.pk = none
  | .I | .U => c.doc = source c.pk ∧ (source c.pk).isSome

omit [DecidableEq κ] in
def Fresh (source : Collection κ ν) : List (Change κ ν) → List (StreamEvent κ ν) → Prop
  | [], _ => True
  | c :: cs, later => ((∀ x ∈ cs, x.pk ≠ c.pk) → (∀ e ∈ later, e.documentKey ≠ c.pk) → Leads source c) ∧
      Fresh source cs later

omit [DecidableEq κ] in
/-- The changes of a batch come from the events behind the token. -/
structure Read (w : World κ ν) (next : ℕ) (changes : List (Change κ ν)) : Prop where
  bounded : next ≤ w.oplog.length
  forward : w.token ≤ next
  fresh : Fresh w.source changes (w.oplog.drop next)
  inside : ∀ c ∈ changes, ∃ e ∈ w.oplog.drop w.token, e.documentKey = c.pk
  deletes : ∀ c ∈ changes, c.op = .D → .delete c.pk ∈ w.oplog

omit [DecidableEq κ] in
structure Tracked (w : World κ ν) : Prop where
  bounded : w.token ≤ w.oplog.length
  sound : Sound w.source w.oplog
  agrees : Agrees w.source w.dest (w.oplog.drop w.token)
  reading : ∀ next changes, w.phase = .reading next changes → Read w next changes ∧
    ∀ e ∈ w.oplog.drop w.token, e ∈ w.oplog.drop next ∨ ∃ c ∈ changes, c.pk = e.documentKey
  applying : ∀ changes next size, w.phase = .applying changes next size → Read w next changes ∧
    ∀ id, (∀ c ∈ changes, c.pk ≠ id) → (∀ e ∈ w.oplog.drop next, e.documentKey ≠ id) → w.dest id = w.source id

section Writing

variable {source source' dest : Collection κ ν} {later : List (StreamEvent κ ν)} {ev e : StreamEvent κ ν}
variable {c : Change κ ν} {changes : List (Change κ ν)} {w : World κ ν}

theorem write_cases (w : World κ ν) (x : Write κ ν) : write w x = w ∨ ∃ source' ev,
    write w x = { w with source := source', oplog := w.oplog ++ [ev] } ∧ Told source' ev ∧
      ∀ id, ev.documentKey ≠ id → source' id = w.source id := by
  have hother : ∀ (id : κ) (doc : Option ν) (k : κ), id ≠ k →
      Function.update w.source id doc k = w.source k := fun id doc k hne =>
    Function.update_of_ne hne.symm _ _
  cases x with
  | insert id doc =>
    unfold write
    by_cases h : (w.source id).isSome = true
    · exact .inl (if_pos h)
    · exact .inr ⟨_, _, if_neg h, Function.update_self _ _ _, hother id _⟩
  | replace id doc =>
    unfold write
    by_cases h : (w.source id).isSome = true
    · exact .inr ⟨_, _, if_pos h, Function.update_self _ _ _, hother id _⟩
    · exact .inl (if_neg h)
  | update id doc =>
    unfold write
    by_cases h : (w.source id).isSome = true
    · refine .inr ⟨_, _, if_pos h, ?_, hother id _⟩
      change (Function.update w.source id (some doc) id).isSome = true
      rw [Function.update_self]
      rfl
    · exact .inl (if_neg h)
  | delete id =>
    unfold write
    by_cases h : (w.source id).isSome = true
    · exact .inr ⟨_, _, if_pos h, Function.update_self _ _ _, hother id _⟩
    · exact .inl (if_neg h)

omit [DecidableEq κ] in
theorem told_congr (h : source' e.documentKey = source e.documentKey) (htold : Told source e) : Told source' e := by
  cases e with
  | insert id doc => exact h.trans htold
  | replace id doc => exact h.trans htold
  | update id => exact (congrArg Option.isSome h).trans htold
  | delete id => exact h.trans htold

omit [DecidableEq κ] in
theorem leads_congr (h : source' c.pk = source c.pk) (hleads : Leads source c) : Leads source' c := by
  unfold Leads at hleads ⊢
  rw [h]
  exact hleads

omit [DecidableEq κ] in
theorem sound_append (h : Sound source later) (htold : Told source' ev)
    (hsame : ∀ id, ev.documentKey ≠ id → source' id = source id) : Sound source' (later ++ [ev]) := by
  induction later with
  | nil => exact ⟨fun _ => htold, trivial⟩
  | cons e later ih =>
    refine ⟨fun hlast => ?_, ih h.2⟩
    have hne := hlast ev (List.mem_append_right _ List.mem_cons_self)
    exact told_congr (hsame _ hne) (h.1 fun x hx => hlast x (List.mem_append_left _ hx))

omit [DecidableEq κ] in
theorem fresh_append (h : Fresh source changes later)
    (hsame : ∀ id, ev.documentKey ≠ id → source' id = source id) : Fresh source' changes (later ++ [ev]) := by
  induction changes with
  | nil => trivial
  | cons c changes ih =>
    refine ⟨fun hlast hlater => ?_, ih h.2⟩
    have hne := hlater ev (List.mem_append_right _ List.mem_cons_self)
    exact leads_congr (hsame _ hne) (h.1 hlast fun x hx => hlater x (List.mem_append_left _ hx))

omit [DecidableEq κ] in
theorem changeOf_pk : (changeOf source ev).pk = ev.documentKey := by
  cases ev <;> rfl

omit [DecidableEq κ] in
theorem leads_changeOf (htold : Told source ev) : Leads source (changeOf source ev) := by
  cases ev with
  | insert id doc => exact ⟨htold.symm, htold ▸ rfl⟩
  | replace id doc => exact ⟨htold.symm, htold ▸ rfl⟩
  | update id => exact ⟨rfl, htold⟩
  | delete id => exact htold

omit [DecidableEq κ] in
theorem fresh_read (h : Fresh source changes (ev :: later))
    (htold : (∀ e ∈ later, e.documentKey ≠ ev.documentKey) → Told source ev) :
    Fresh source (changes ++ [changeOf source ev]) later := by
  induction changes with
  | nil =>
    refine ⟨fun _ hlater => leads_changeOf (htold ?_), trivial⟩
    rwa [changeOf_pk] at hlater
  | cons c changes ih =>
    refine ⟨fun hlast hlater => ?_, ih h.2⟩
    refine h.1 (fun x hx => hlast x (List.mem_append_left _ hx)) fun e he => ?_
    rcases List.mem_cons.mp he with rfl | he
    · have hne := hlast _ (List.mem_append_right _ List.mem_cons_self)
      rwa [changeOf_pk] at hne
    · exact hlater e he

omit [DecidableEq κ] in
theorem read_append {next : ℕ} (h : Read w next changes) (hbounded : w.token ≤ w.oplog.length)
    (hsame : ∀ id, ev.documentKey ≠ id → source' id = w.source id) :
    Read { w with source := source', oplog := w.oplog ++ [ev] } next changes where
  bounded := h.bounded.trans (by rw [List.length_append]; exact Nat.le_add_right _ _)
  forward := h.forward
  fresh := by
    dsimp only
    rw [List.drop_append_of_le_length h.bounded]
    exact fresh_append h.fresh hsame
  inside c hc := by
    obtain ⟨e, he, hkey⟩ := h.inside c hc
    dsimp only
    rw [List.drop_append_of_le_length hbounded]
    exact ⟨e, List.mem_append_left _ he, hkey⟩
  deletes c hc hop := List.mem_append_left _ (h.deletes c hc hop)

theorem tracked_write (h : Tracked w) (x : Write κ ν) : Tracked (write w x) := by
  rcases write_cases w x with hsame | ⟨source', ev, hwrite, htold, hsame⟩
  · rwa [hsame]
  rw [hwrite]
  refine ⟨?_, sound_append h.sound htold hsame, ?_, ?_, ?_⟩
  · exact h.bounded.trans (by rw [List.length_append]; exact Nat.le_add_right _ _)
  · intro id hid
    dsimp only at hid ⊢
    rw [List.drop_append_of_le_length h.bounded] at hid
    rw [hsame id (hid ev (List.mem_append_right _ List.mem_cons_self))]
    exact h.agrees id fun e he => hid e (List.mem_append_left _ he)
  · intro next changes hphase
    obtain ⟨hread, hcovers⟩ := h.reading next changes hphase
    refine ⟨read_append hread h.bounded hsame, fun e he => ?_⟩
    dsimp only at he ⊢
    rw [List.drop_append_of_le_length h.bounded] at he
    rw [List.drop_append_of_le_length hread.bounded]
    rcases List.mem_append.mp he with he | he
    · exact (hcovers e he).imp_left (List.mem_append_left _)
    · exact .inl (List.mem_append_right _ he)
  · intro changes next size hphase
    obtain ⟨hread, happlied⟩ := h.applying changes next size hphase
    refine ⟨read_append hread h.bounded hsame, fun id hchanges hlater => ?_⟩
    dsimp only at hlater ⊢
    rw [List.drop_append_of_le_length hread.bounded] at hlater
    rw [hsame id (hlater ev (List.mem_append_right _ List.mem_cons_self))]
    exact happlied id hchanges fun e he => hlater e (List.mem_append_left _ he)

end Writing

section Draining

variable {ends : Replica κ ν} {batchSize : ℕ} {w : World κ ν} {next size : ℕ} {changes : List (Change κ ν)}
variable {c : Change κ ν} {dest : Collection κ ν}

omit [DecidableEq κ] in
theorem tracked_idle (h : Tracked w) : Tracked { w with phase := .idle } :=
  ⟨h.bounded, h.sound, h.agrees, fun _ _ hphase => (by cases hphase), fun _ _ _ hphase => by cases hphase⟩

omit [DecidableEq κ] in
theorem sound_drop {source : Collection κ ν} {l : List (StreamEvent κ ν)} (h : Sound source l) (n : ℕ) :
    Sound source (l.drop n) := by
  induction l generalizing n with
  | nil =>
    rw [List.drop_nil]
    trivial
  | cons ev l ih =>
    cases n with
    | zero => exact h
    | succ n => exact ih h.2 n

omit [DecidableEq κ] in
theorem tracked_opened (h : Tracked w) : Tracked { w with phase := .reading w.token [] } := by
  refine ⟨h.bounded, h.sound, h.agrees, fun next changes hphase => ?_, fun _ _ _ hphase => by cases hphase⟩
  cases hphase
  exact ⟨⟨h.bounded, le_rfl, trivial, fun c hc => (by cases hc), fun c hc => by cases hc⟩, fun e he => .inl he⟩

omit [DecidableEq κ] in
theorem tracked_read (h : Tracked w) (hphase : w.phase = .reading next changes) {ev : StreamEvent κ ν}
    (hev : w.oplog[next]? = some ev) :
    Tracked { w with phase := .reading (next + 1) (changes ++ [changeOf w.source ev]) } := by
  obtain ⟨hread, hcovers⟩ := h.reading next changes hphase
  obtain ⟨hlt, hget⟩ := List.getElem?_eq_some_iff.mp hev
  have hdrop : w.oplog.drop next = ev :: w.oplog.drop (next + 1) := by
    rw [List.drop_eq_getElem_cons hlt, hget]
  refine ⟨h.bounded, h.sound, h.agrees, fun next' changes' hphase' => ?_, fun _ _ _ hphase' => by cases hphase'⟩
  cases hphase'
  have hsound := sound_drop h.sound next
  have hfresh := hread.fresh
  rw [hdrop] at hsound hfresh
  refine ⟨⟨hlt, hread.forward.trans (Nat.le_succ _), fresh_read hfresh hsound.1, fun c hc => ?_, fun c hc hop => ?_⟩,
    fun e he => ?_⟩
  · rcases List.mem_append.mp hc with hc | hc
    · exact hread.inside c hc
    · refine ⟨ev, ?_, ?_⟩
      · have hmem : ev ∈ w.oplog.drop next := by
          rw [hdrop]
          exact List.mem_cons_self
        exact List.mem_of_mem_drop (show ev ∈ (w.oplog.drop w.token).drop (next - w.token) by
          rwa [List.drop_drop, Nat.add_sub_cancel' hread.forward])
      · rw [List.mem_singleton.mp hc, changeOf_pk]
  · rcases List.mem_append.mp hc with hc | hc
    · exact hread.deletes c hc hop
    · rw [List.mem_singleton.mp hc] at hop ⊢
      have hmem : ev ∈ w.oplog := hget ▸ List.getElem_mem hlt
      cases ev with
      | insert id doc => cases hop
      | replace id doc => cases hop
      | update id => cases hop
      | delete id => exact hmem
  · rcases hcovers e he with hlater | ⟨c, hc, hkey⟩
    · rw [hdrop] at hlater
      rcases List.mem_cons.mp hlater with rfl | hlater
      · exact .inr ⟨_, List.mem_append_right _ List.mem_cons_self, changeOf_pk⟩
      · exact .inl hlater
    · exact .inr ⟨c, List.mem_append_left _ hc, hkey⟩

omit [DecidableEq κ] in
theorem tracked_closed (h : Tracked w) (hphase : w.phase = .reading next changes) :
    Tracked (closeBatch w next changes) := by
  obtain ⟨hread, hcovers⟩ := h.reading next changes hphase
  unfold closeBatch
  by_cases hempty : changes.length = 0
  · rw [if_pos hempty]
    refine ⟨hread.bounded, h.sound, fun id hid => h.agrees id fun e he => ?_,
      fun _ _ hphase' => (by cases hphase'), fun _ _ _ hphase' => by cases hphase'⟩
    rcases hcovers e he with hlater | ⟨c, hc, -⟩
    · exact hid e hlater
    · rw [List.length_eq_zero_iff.mp hempty] at hc
      cases hc
  · rw [if_neg hempty]
    refine ⟨h.bounded, h.sound, h.agrees, fun _ _ hphase' => (by cases hphase'), fun changes' next' size' hphase' => ?_⟩
    cases hphase'
    refine ⟨⟨hread.bounded, hread.forward, hread.fresh, hread.inside, hread.deletes⟩,
      fun id hchanges hlater => h.agrees id fun e he => ?_⟩
    rcases hcovers e he with hthere | ⟨c, hc, hkey⟩
    · exact hlater e hthere
    · exact fun hid => hchanges c hc (hkey.trans hid)

theorem applyChange_cases (hfinds : c.op = .D → ∀ k, ends.finds k c.pk = decide (k = c.pk))
    {before : Collection κ ν} (h : applyChange ends before c = some dest) :
    (∀ k, k ≠ c.pk → dest k = before k) ∧ (∀ source : Collection κ ν, Leads source c → dest c.pk = source c.pk) := by
  have hupsert : ∀ doc, c.doc = some doc → Function.update before c.pk (some doc) = dest → c.op ≠ .D →
      (∀ k, k ≠ c.pk → dest k = before k) ∧ (∀ source : Collection κ ν, Leads source c → dest c.pk = source c.pk) := by
    rintro doc hdoc rfl hop
    refine ⟨fun k hk => Function.update_of_ne hk _ _, fun source hleads => ?_⟩
    rw [Function.update_self, ← hdoc]
    unfold Leads at hleads
    cases hc : c.op with
    | D => exact absurd hc hop
    | I =>
      rw [hc] at hleads
      exact hleads.1
    | U =>
      rw [hc] at hleads
      exact hleads.1
  unfold applyChange at h
  cases hop : c.op with
  | D =>
    rw [hop] at h
    have hdest := Option.some.inj h
    subst hdest
    refine ⟨fun k hk => ?_, fun source hleads => ?_⟩
    · dsimp only
      rw [hfinds hop k, decide_eq_false hk]
      rfl
    · unfold Leads at hleads
      rw [hop] at hleads
      dsimp only
      rw [hfinds hop, decide_eq_true rfl, hleads]
      rfl
  | I =>
    rw [hop] at h hupsert
    obtain ⟨doc, hdoc, hdest⟩ := Option.map_eq_some_iff.mp h
    exact hupsert doc (Option.filter_eq_some_iff.mp hdoc).1 hdest (fun hD => by cases hD)
  | U =>
    rw [hop] at h hupsert
    obtain ⟨doc, hdoc, hdest⟩ := Option.map_eq_some_iff.mp h
    exact hupsert doc (Option.filter_eq_some_iff.mp hdoc).1 hdest (fun hD => by cases hD)

theorem tracked_applied (h : Tracked w) (hfinds : DeletesFound ends w.oplog)
    (hphase : w.phase = .applying (c :: changes) next size) (happly : applyChange ends w.dest c = some dest) :
    Tracked { w with dest := dest, phase := .applying changes next size } := by
  obtain ⟨hread, happlied⟩ := h.applying _ _ _ hphase
  obtain ⟨hother, hown⟩ := applyChange_cases (fun hop => hfinds _ (hread.deletes c List.mem_cons_self hop)) happly
  refine ⟨h.bounded, h.sound, fun id hid => ?_, fun _ _ hphase' => (by cases hphase'), fun changes' next' size' hphase' => ?_⟩
  · obtain ⟨e, he, hkey⟩ := hread.inside c List.mem_cons_self
    have hne : id ≠ c.pk := fun hsame => hid e he (hkey.trans hsame.symm)
    dsimp only
    rw [hother id hne]
    exact h.agrees id hid
  · cases hphase'
    refine ⟨⟨hread.bounded, hread.forward, hread.fresh.2, fun x hx => hread.inside x (List.mem_cons_of_mem _ hx),
      fun x hx => hread.deletes x (List.mem_cons_of_mem _ hx)⟩, fun id hchanges hlater => ?_⟩
    dsimp only
    by_cases hid : id = c.pk
    · subst hid
      exact hown _ (hread.fresh.1 hchanges hlater)
    · rw [hother id hid]
      refine happlied id (fun x hx => ?_) hlater
      rcases List.mem_cons.mp hx with rfl | hx
      · exact fun hsame => hid hsame.symm
      · exact hchanges x hx

omit [DecidableEq κ] in
theorem tracked_saved (h : Tracked w) (hphase : w.phase = .applying [] next size) :
    Tracked { w with token := next, phase := .idle } ∧ Tracked { w with token := next, phase := .reading next [] } := by
  obtain ⟨hread, happlied⟩ := h.applying _ _ _ hphase
  have hidle : Tracked { w with token := next, phase := .idle } :=
    ⟨hread.bounded, h.sound, fun id hid => happlied id (fun x hx => by cases hx) hid,
      fun _ _ hphase' => (by cases hphase'), fun _ _ _ hphase' => by cases hphase'⟩
  exact ⟨hidle, tracked_opened hidle⟩

inductive Drained (ends : Replica κ ν) (batchSize : ℕ) (w : World κ ν) : World κ ν → Prop
  | opened (hphase : w.phase = .idle) : Drained ends batchSize w { w with phase := .reading w.token [] }
  | refused (hphase : w.phase = .idle) (hcolumns : ends.discovers w.source = false) : Drained ends batchSize w w
  | read {next : ℕ} {changes : List (Change κ ν)} {ev : StreamEvent κ ν} (hphase : w.phase = .reading next changes)
      (hev : w.oplog[next]? = some ev) :
      Drained ends batchSize w { w with phase := .reading (next + 1) (changes ++ [changeOf w.source ev]) }
  | closed {next : ℕ} {changes : List (Change κ ν)} (hphase : w.phase = .reading next changes)
      (hend : changes.length < batchSize → w.oplog[next]? = none) :
      Drained ends batchSize w (closeBatch w next changes)
  | applied {next size : ℕ} {c : Change κ ν} {changes : List (Change κ ν)} {dest : Collection κ ν}
      (hphase : w.phase = .applying (c :: changes) next size) (happly : applyChange ends w.dest c = some dest) :
      Drained ends batchSize w { w with dest := dest, phase := .applying changes next size }
  | thrown {next size : ℕ} {c : Change κ ν} {changes : List (Change κ ν)}
      (hphase : w.phase = .applying (c :: changes) next size) (happly : applyChange ends w.dest c = none) :
      Drained ends batchSize w { w with phase := .idle }
  | ended {next size : ℕ} (hphase : w.phase = .applying [] next size) (hlast : size < batchSize) :
      Drained ends batchSize w { w with token := next, phase := .idle }
  | saved {next size : ℕ} (hphase : w.phase = .applying [] next size) (hfull : ¬ size < batchSize) :
      Drained ends batchSize w { w with token := next, phase := .reading next [] }

theorem drain_cases (ends : Replica κ ν) (batchSize : ℕ) (w : World κ ν) :
    Drained ends batchSize w (drain ends batchSize w) := by
  unfold drain
  cases hphase : w.phase with
  | idle =>
    dsimp only
    cases hcolumns : ends.discovers w.source with
    | false => exact .refused hphase hcolumns
    | true => exact .opened hphase
  | reading next changes =>
    dsimp only
    by_cases hshort : changes.length < batchSize
    · rw [if_pos hshort]
      cases hev : w.oplog[next]? with
      | some ev => exact .read hphase hev
      | none => exact .closed hphase fun _ => hev
    · rw [if_neg hshort]
      exact .closed hphase fun hlt => absurd hlt hshort
  | applying changes next size =>
    cases changes with
    | nil =>
      dsimp only
      by_cases hlast : size < batchSize
      · rw [if_pos hlast]
        exact .ended hphase hlast
      · rw [if_neg hlast]
        exact .saved hphase hlast
    | cons c changes =>
      dsimp only
      cases happly : applyChange ends w.dest c with
      | some dest => exact .applied hphase happly
      | none => exact .thrown hphase happly

theorem tracked_drain (h : Tracked w) (hfinds : DeletesFound ends w.oplog) : Tracked (drain ends batchSize w) := by
  have hdrained := drain_cases ends batchSize w
  generalize drain ends batchSize w = w' at hdrained ⊢
  cases hdrained with
  | opened => exact tracked_opened h
  | refused => exact h
  | read hphase hev => exact tracked_read h hphase hev
  | closed hphase => exact tracked_closed h hphase
  | applied hphase happly => exact tracked_applied h hfinds hphase happly
  | thrown => exact tracked_idle h
  | ended hphase => exact (tracked_saved h hphase).1
  | saved hphase => exact (tracked_saved h hphase).2

theorem write_log (w : World κ ν) (x : Write κ ν) : w.oplog <+: (write w x).oplog := by
  rcases write_cases w x with hsame | ⟨source', ev, hwrite, -, -⟩
  · exact ⟨[], by rw [hsame, List.append_nil]⟩
  · rw [hwrite]
    exact List.prefix_append _ _

theorem drain_frame (w : World κ ν) : (drain ends batchSize w).source = w.source ∧
    (drain ends batchSize w).oplog = w.oplog := by
  have hdrained := drain_cases ends batchSize w
  generalize drain ends batchSize w = w' at hdrained ⊢
  cases hdrained with
  | closed =>
    unfold closeBatch
    split <;> exact ⟨rfl, rfl⟩
  | _ => exact ⟨rfl, rfl⟩

theorem step_log {w' : World κ ν} {e : Event κ ν} (h : step ends batchSize w e = some w') :
    w.oplog <+: w'.oplog := by
  cases e with
  | write x => exact Option.some.inj h ▸ write_log w x
  | drain =>
    exact ⟨[], by rw [← Option.some.inj h, (drain_frame w).2, List.append_nil]⟩
  | crash => exact Option.some.inj h ▸ List.prefix_refl _

theorem tracked_reachable (h : Reachable start (step ends batchSize) w) (hfinds : DeletesFound ends w.oplog) :
    Tracked w := by
  induction h with
  | init hstart =>
    obtain ⟨hphase, hbounded, hsound, hagrees⟩ := hstart
    exact ⟨hbounded, hsound, hagrees, fun _ _ hreading => (by rw [hphase] at hreading; cases hreading),
      fun _ _ _ happlying => (by rw [hphase] at happlying; cases happlying)⟩
  | @step w w' e _ hstep ih =>
    have htracked := ih fun id hid => hfinds id ((step_log hstep).subset hid)
    cases e with
    | write x => exact Option.some.inj hstep ▸ tracked_write htracked x
    | drain =>
      refine Option.some.inj hstep ▸ tracked_drain htracked fun id hid => hfinds id ?_
      exact (step_log hstep).subset hid
    | crash => exact Option.some.inj hstep ▸ tracked_idle htracked

end Draining

section Quiet

variable {ends : Replica κ ν} {batchSize : ℕ} {w : World κ ν} {next size : ℕ} {changes : List (Change κ ν)}
variable {c : Change κ ν} {n : ℕ}

def applicable (ends : Replica κ ν) (c : Change κ ν) : Bool := c.op = .D || c.doc.any (ends.takes c.pk)

omit [DecidableEq κ] in
/-- A drain that nothing stops: it ends behind the last event. -/
def Running (ends : Replica κ ν) (batchSize : ℕ) (w : World κ ν) : Prop :=
  match w.phase with
  | .idle => w.token = w.oplog.length
  | .reading next changes => next ≤ w.oplog.length ∧ (∀ c ∈ changes, applicable ends c = true) ∧
      ∀ ev ∈ w.oplog.drop next, documentThere ends w.source ev = true
  | .applying changes next size => next ≤ w.oplog.length ∧ (∀ c ∈ changes, applicable ends c = true) ∧
      (∀ ev ∈ w.oplog.drop next, documentThere ends w.source ev = true) ∧ (size < batchSize → next = w.oplog.length)

omit [DecidableEq κ] in
def effort (w : World κ ν) : ℕ :=
  match w.phase with
  | .idle => 0
  | .reading next changes => 4 * (w.oplog.length - next) + 3 * changes.length + 1
  | .applying changes next _ => 4 * (w.oplog.length - next) + changes.length + 2

omit [DecidableEq κ] in
theorem applicable_changeOf {source : Collection κ ν} {ev : StreamEvent κ ν} :
    applicable ends (changeOf source ev) = documentThere ends source ev := by
  cases ev <;> rfl

theorem applyChange_isSome (dest : Collection κ ν) : (applyChange ends dest c).isSome = applicable ends c := by
  unfold applyChange applicable
  cases hop : c.op with
  | D => rfl
  | I => cases c.doc <;> simp
  | U => cases c.doc <;> simp

omit [DecidableEq κ] in
theorem running_closed (h : Running ends batchSize w) (hphase : w.phase = .reading next changes)
    (hend : changes.length < batchSize → next = w.oplog.length) (hbatch : 0 < batchSize) :
    Running ends batchSize (closeBatch w next changes) ∧ effort (closeBatch w next changes) < effort w := by
  unfold Running effort at *
  rw [hphase] at h ⊢
  unfold closeBatch
  by_cases hempty : changes.length = 0
  · rw [if_pos hempty]
    exact ⟨hend (by omega), Nat.succ_pos _⟩
  · rw [if_neg hempty]
    refine ⟨⟨h.1, h.2.1, h.2.2, hend⟩, ?_⟩
    dsimp only
    omega

theorem running_drain (h : Running ends batchSize w) (hbatch : 0 < batchSize) (hphase : w.phase ≠ .idle) :
    Running ends batchSize (drain ends batchSize w) ∧ effort (drain ends batchSize w) < effort w := by
  have hdrained := drain_cases ends batchSize w
  generalize drain ends batchSize w = w' at hdrained ⊢
  cases hdrained with
  | opened hidle => exact absurd hidle hphase
  | refused hidle => exact absurd hidle hphase
  | closed hreading hend =>
    refine running_closed h hreading (fun hshort => ?_) hbatch
    unfold Running at h
    rw [hreading] at h
    exact Nat.le_antisymm h.1 (List.getElem?_eq_none_iff.mp (hend hshort))
  | @read next changes ev hreading hev =>
    unfold Running effort at *
    rw [hreading] at h ⊢
    obtain ⟨hnext, hchanges, hlater⟩ := h
    obtain ⟨hlt, hget⟩ := List.getElem?_eq_some_iff.mp hev
    rw [List.drop_eq_getElem_cons hlt, hget] at hlater
    refine ⟨⟨hlt, fun c hc => ?_, fun e he => hlater e (List.mem_cons_of_mem _ he)⟩, ?_⟩
    · rcases List.mem_append.mp hc with hc | hc
      · exact hchanges c hc
      · rw [List.mem_singleton.mp hc]
        exact applicable_changeOf.trans (hlater ev List.mem_cons_self)
    · dsimp only
      rw [List.length_append, List.length_singleton]
      omega
  | @applied next size c changes dest happlying happly =>
    unfold Running effort at *
    rw [happlying] at h ⊢
    obtain ⟨hnext, hchanges, hlater, hend⟩ := h
    refine ⟨⟨hnext, fun x hx => hchanges x (List.mem_cons_of_mem _ hx), hlater, hend⟩, ?_⟩
    dsimp only
    rw [List.length_cons]
    omega
  | @thrown next size c changes happlying happly =>
    unfold Running at h
    rw [happlying] at h
    have hthere := (@applyChange_isSome _ _ _ ends c w.dest).trans (h.2.1 c List.mem_cons_self)
    rw [happly] at hthere
    cases hthere
  | ended happlying hlast =>
    unfold Running effort at *
    rw [happlying] at h ⊢
    exact ⟨h.2.2.2 hlast, Nat.succ_pos _⟩
  | saved happlying hfull =>
    unfold Running effort at *
    rw [happlying] at h ⊢
    refine ⟨⟨h.1, fun c hc => (by cases hc), h.2.2.1⟩, ?_⟩
    dsimp only
    rw [List.length_nil]
    omega

theorem iterate_frame (n : ℕ) (w : World κ ν) : ((drain ends batchSize)^[n] w).source = w.source ∧
    ((drain ends batchSize)^[n] w).oplog = w.oplog := by
  induction n generalizing w with
  | zero => exact ⟨rfl, rfl⟩
  | succ n ih =>
    rw [Function.iterate_succ_apply, (ih _).1, (ih _).2]
    exact drain_frame w

theorem tracked_iterate (h : Tracked w) (hfinds : DeletesFound ends w.oplog) (n : ℕ) :
    Tracked ((drain ends batchSize)^[n] w) := by
  induction n generalizing w with
  | zero => exact h
  | succ n ih =>
    rw [Function.iterate_succ_apply]
    refine ih (tracked_drain h hfinds) ?_
    rw [(drain_frame w).2]
    exact hfinds

theorem running_ends (h : Running ends batchSize w) (hbatch : 0 < batchSize) :
    ∃ n, ((drain ends batchSize)^[n] w).phase = .idle ∧
      ((drain ends batchSize)^[n] w).token = ((drain ends batchSize)^[n] w).oplog.length := by
  induction hleft : effort w using Nat.strong_induction_on generalizing w with
  | h left ih =>
    by_cases hidle : w.phase = .idle
    · refine ⟨0, hidle, ?_⟩
      unfold Running at h
      rw [hidle] at h
      exact h
    · obtain ⟨hnext, hless⟩ := @running_drain _ _ _ ends _ _ h hbatch hidle
      obtain ⟨n, hn⟩ := ih _ (hleft ▸ hless) hnext rfl
      exact ⟨n + 1, by rwa [Function.iterate_succ_apply]⟩

theorem progresses (h : Tracked w) (hidle : w.phase = .idle) (hbatch : 0 < batchSize)
    (hfinds : DeletesFound ends w.oplog) (hcolumns : ends.discovers w.source = true) (hnone : NoneLost ends w) :
    Progresses ends batchSize w := by
  have hopen : drain ends batchSize w = { w with phase := .reading w.token [] } := by
    unfold drain
    rw [hidle]
    exact if_pos hcolumns
  have hrunning : Running ends batchSize (drain ends batchSize w) := by
    rw [hopen]
    exact ⟨h.bounded, fun c hc => (by cases hc), hnone⟩
  obtain ⟨n, hphase, htoken⟩ := @running_ends _ _ _ ends _ _ hrunning hbatch
  rw [← Function.iterate_succ_apply] at hphase htoken
  obtain ⟨hsource, hoplog⟩ := @iterate_frame _ _ _ ends batchSize (n + 1) w
  have htracked := @tracked_iterate _ _ _ ends batchSize _ h hfinds (n + 1)
  rw [hoplog] at htoken
  refine ⟨n + 1, Nat.succ_pos n, hphase, htoken, funext fun id => ?_⟩
  rw [← hsource]
  refine htracked.agrees id fun e he => ?_
  rw [htoken, hoplog, List.drop_length] at he
  cases he

/-- An event behind the token that cannot be applied, read or still to be read. -/
structure Blocked (ends : Replica κ ν) (j : ℕ) (w : World κ ν) : Prop where
  event : ∃ ev, w.oplog[j]? = some ev ∧ documentThere ends w.source ev = false
  token : w.token ≤ j
  reading : ∀ next changes, w.phase = .reading next changes → next ≤ j ∨ ∃ c ∈ changes, applicable ends c = false
  applying : ∀ changes next size, w.phase = .applying changes next size →
    next ≤ j ∨ ∃ c ∈ changes, applicable ends c = false

variable {j : ℕ}

omit [DecidableEq κ] in
theorem unread {next : ℕ} (h : next ≤ j ∨ ∃ c ∈ ([] : List (Change κ ν)), applicable ends c = false) : next ≤ j := by
  rcases h with hle | ⟨c, hc, -⟩
  · exact hle
  · cases hc

omit [DecidableEq κ] in
theorem blocked_closed (h : Blocked ends j w) (hphase : w.phase = .reading next changes) :
    Blocked ends j (closeBatch w next changes) := by
  have hthere := h.reading next changes hphase
  unfold closeBatch
  by_cases hempty : changes.length = 0
  · rw [if_pos hempty]
    rw [List.length_eq_zero_iff.mp hempty] at hthere
    exact ⟨h.event, unread hthere, fun _ _ hp => (by cases hp), fun _ _ _ hp => (by cases hp)⟩
  · rw [if_neg hempty]
    refine ⟨h.event, h.token, fun _ _ hp => (by cases hp), fun changes' next' size' hp => ?_⟩
    cases hp
    exact hthere

theorem blocked_drain (h : Blocked ends j w) : Blocked ends j (drain ends batchSize w) := by
  have hdrained := drain_cases ends batchSize w
  generalize drain ends batchSize w = w' at hdrained ⊢
  cases hdrained with
  | opened =>
    refine ⟨h.event, h.token, fun _ _ hp => ?_, fun _ _ _ hp => (by cases hp)⟩
    cases hp
    exact .inl h.token
  | refused => exact h
  | closed hphase => exact blocked_closed h hphase
  | @read next changes ev hphase hev =>
    refine ⟨h.event, h.token, fun _ _ hp => ?_, fun _ _ _ hp => (by cases hp)⟩
    cases hp
    rcases h.reading next changes hphase with hle | ⟨c, hc, hlost⟩
    · rcases Nat.lt_or_eq_of_le hle with hlt | rfl
      · exact .inl hlt
      · obtain ⟨ev', hev', hlost⟩ := h.event
        rw [hev'] at hev
        cases hev
        exact .inr ⟨_, List.mem_append_right _ (List.mem_singleton_self _), applicable_changeOf.trans hlost⟩
    · exact .inr ⟨c, List.mem_append_left _ hc, hlost⟩
  | @applied next size c changes dest hphase happly =>
    refine ⟨h.event, h.token, fun _ _ hp => (by cases hp), fun _ _ _ hp => ?_⟩
    cases hp
    refine (h.applying _ _ _ hphase).imp_right fun ⟨x, hx, hlost⟩ => ⟨x, ?_, hlost⟩
    rcases List.mem_cons.mp hx with rfl | hx
    · have hthere := @applyChange_isSome _ _ _ ends x w.dest
      rw [happly, hlost] at hthere
      cases hthere
    · exact hx
  | thrown => exact ⟨h.event, h.token, fun _ _ hp => (by cases hp), fun _ _ _ hp => (by cases hp)⟩
  | ended hphase =>
    exact ⟨h.event, unread (h.applying _ _ _ hphase), fun _ _ hp => (by cases hp), fun _ _ _ hp => (by cases hp)⟩
  | saved hphase =>
    have hle := unread (h.applying _ _ _ hphase)
    refine ⟨h.event, hle, fun _ _ hp => ?_, fun _ _ _ hp => (by cases hp)⟩
    cases hp
    exact .inl hle

theorem blocked_iterate (h : Blocked ends j w) (n : ℕ) : Blocked ends j ((drain ends batchSize)^[n] w) := by
  induction n generalizing w with
  | zero => exact h
  | succ n ih =>
    rw [Function.iterate_succ_apply]
    exact ih (blocked_drain h)

theorem not_progresses (hidle : w.phase = .idle) (hlost : ¬ NoneLost ends w) : ¬ Progresses ends batchSize w := by
  obtain ⟨ev, hev, hgone⟩ : ∃ ev ∈ w.oplog.drop w.token, ¬ documentThere ends w.source ev = true := by
    by_contra hall
    exact hlost fun ev hev => by_contra fun hgone => hall ⟨ev, hev, hgone⟩
  obtain ⟨i, hi, hget⟩ := List.mem_iff_getElem.mp hev
  rw [List.length_drop] at hi
  rw [List.getElem_drop] at hget
  have hblocked : Blocked ends (w.token + i) w := by
    refine ⟨⟨ev, ?_, Bool.not_eq_true _ ▸ hgone⟩, Nat.le_add_right _ _, fun _ _ hp => (by rw [hidle] at hp; cases hp),
      fun _ _ _ hp => (by rw [hidle] at hp; cases hp)⟩
    rw [List.getElem?_eq_getElem (by omega), hget]
  rintro ⟨n, -, -, htoken, -⟩
  have hle := (@blocked_iterate _ _ _ ends batchSize _ _ hblocked n).token
  omega

/-- A run that finds no columns leaves everything as it is. -/
theorem drain_refused (hidle : w.phase = .idle) (hcolumns : ends.discovers w.source = false) (n : ℕ) :
    (drain ends batchSize)^[n] w = w := by
  have hstays : drain ends batchSize w = w := by
    unfold drain
    rw [hidle]
    dsimp only
    rw [hcolumns]
    rfl
  exact Function.iterate_fixed hstays n

theorem progresses_nothing (h : Tracked w) (hidle : w.phase = .idle) (hleft : w.token = w.oplog.length)
    (hcolumns : ends.discovers w.source = false) : Progresses ends batchSize w := by
  have hagrees : w.dest = w.source := by
    funext id
    refine h.agrees id fun e he => ?_
    rw [hleft, List.drop_length] at he
    cases he
  refine ⟨1, Nat.one_pos, ?_⟩
  rw [drain_refused hidle hcolumns]
  exact ⟨hidle, hleft, hagrees⟩

end Quiet

end Machine

def baseline : World ℕ String := ⟨fun _ => none, [], 0, .idle, fun _ => none⟩

theorem baseline_start : baseline ∈ start :=
  ⟨rfl, le_rfl, trivial, fun _ _ => rfl⟩

def updated : World ℕ String := write (write baseline (.insert 1 "a")) (.update 1 "b")

/-- A destination of texts that keeps what it is sent, for a collection of the documents 1 and 2. -/
def notes : Replica ℕ String :=
  ⟨fun source => (source 1).isSome || (source 2).isSome, fun _ _ => true, fun k pk => decide (k = pk)⟩

def deleted : World ℕ String := write (write updated (.insert 2 "c")) (.delete 1)

end DataFabric.MongoDrains
