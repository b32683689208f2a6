import DataFabric.SpilledPartitions

set_option autoImplicit false

/-!
# Results as a stream of lines

A result is sent as one line of JSON for each row and a last line that names how it went. The rows come from a cursor,
and the client may close the connection at any moment.
-/
namespace DataFabric.ResultStreams
open CharText JsValues JsonTexts FederatedJoins OrderedRecords SpilledPartitions TransitionRuns

def lineText (r : SourceRow) : List Char := (rowText r).toList

def trailerText (fields : SourceRow) : List Char :=
  objectText [("__meta__", objectText (fieldTexts fields.entries))]

def body (texts : List (List Char)) : List Char := texts.flatMap fun t => t ++ ['\n']

def received (b : List Char) : List (List Char) := (splitChars '\n' b).filter (· ≠ [])

/-- The fields of the trailer; those of `meta` take the place of its own. -/
def trailerFields (rows : List SourceRow) (info : SourceRow) : SourceRow :=
  let rowCount := match info.get? "rowCount" with
    | none => .num rows.length
    | some v => if v.isNullish then .num rows.length else v
  ((Record.empty.assign "streamed" (.bool true)).assign "rowCount" rowCount).spread info

def streamNdjson (rows : List SourceRow) (info : SourceRow) : List Char :=
  body (rows.map lineText ++ [trailerText (trailerFields rows info)])

def Names (key : String) (t : List Char) : Prop :=
  ∃ ps, (∀ p ∈ ps, Closed p.2) ∧ t = objectText ps ∧ key ∈ ps.map Prod.fst

theorem names_iff {key : String} {ps : List (String × List Char)} (closed : ∀ p ∈ ps, Closed p.2) :
    Names key (objectText ps) ↔ key ∈ ps.map Prod.fst := by
  constructor
  · rintro ⟨qs, closed', same, inside⟩
    have order := objectText_injective closed closed' same
    obtain ⟨q, hq, rfl⟩ := List.mem_map.mp inside
    rw [← ownOrder_mem, ← order, ownOrder_mem] at hq
    exact List.mem_map_of_mem hq
  · exact fun inside => ⟨ps, closed, rfl, inside⟩

theorem fields_closed (fields : List (String × JsValue)) : ∀ p ∈ fieldTexts fields, Closed p.2 :=
  fun p hp => (fieldTexts_tidy fields p hp).closed

theorem trailer_closed (fields : SourceRow) :
    ∀ p ∈ [("__meta__", objectText (fieldTexts fields.entries))], Tidy p.2 := by
  intro p hp
  rw [List.mem_singleton.mp hp]
  exact object_tidy (fieldTexts_tidy fields.entries)

theorem lineText_eq (r : SourceRow) : lineText r = objectText (fieldTexts r.entries) := String.toList_ofList

theorem received_body (rows : List SourceRow) (trailers : List SourceRow) :
    received (body (rows.map lineText ++ trailers.map trailerText)) =
      rows.map lineText ++ trailers.map trailerText := by
  apply split_lines
  have filled : ∀ ps, objectText ps ≠ [] := fun ps => List.cons_ne_nil _ _
  intro t ht
  rcases List.mem_append.mp ht with row | last
  · obtain ⟨r, _, rfl⟩ := List.mem_map.mp row
    rw [lineText_eq]
    exact ⟨(object_tidy (fieldTexts_tidy r.entries)).line, filled _⟩
  · obtain ⟨fields, _, rfl⟩ := List.mem_map.mp last
    exact ⟨(object_tidy (trailer_closed fields)).line, filled _⟩

theorem names_trailer (fields : SourceRow) : Names "__meta__" (trailerText fields) :=
  (names_iff fun p hp => (trailer_closed fields p hp).closed).mpr List.mem_cons_self

/-- The lines are the rows and the trailer. The trailer alone has the key `__meta__` exactly when no row writes a
column of this name. -/
theorem streamed_told (rows : List SourceRow) (info : SourceRow) :
    received (streamNdjson rows info) = rows.map lineText ++ [trailerText (trailerFields rows info)] ∧
      Names "__meta__" (trailerText (trailerFields rows info)) ∧
      ((∀ t ∈ rows.map lineText, ¬ Names "__meta__" t) ↔
        ∀ r ∈ rows, "__meta__" ∉ (fieldTexts r.entries).map Prod.fst) := by
  refine ⟨received_body rows [trailerFields rows info], names_trailer _, ?_⟩
  rw [List.forall_mem_map]
  refine forall₂_congr fun r _ => not_congr ?_
  rw [lineText_eq]
  exact names_iff (fields_closed r.entries)

structure RowStream where
  strategy : String
  source : String
  engine : String

inductive Arrival
  | row (r : SourceRow)
  | done
  | failed (message : String)

inductive Phase
  | looping
  | waiting
  | ended
  deriving DecidableEq

inductive Status
  | success
  | error
  | cancelled
  deriving DecidableEq

structure Stream where
  body : List Char
  n : ℕ
  aborted : Bool
  error : Option String
  phase : Phase
  /-- What the audit records. -/
  status : Option Status

inductive Event
  /-- `req.on('close', ..)` -/
  | close
  /-- The loop looks whether it was aborted, and asks for the next row. -/
  | look
  | arrive (a : Arrival)

section Pipe
variable (rows : RowStream) (tatMs memDeltaKb : ℕ)

def metaFields (n : ℕ) (error : Option String) : SourceRow :=
  let fields : SourceRow := (((((((Record.empty.assign "streamed" (.bool true)).assign "internal" (.bool true)).assign
    "rowCount" (.num n)).assign "strategy" (.str rows.strategy)).assign "source" (.str rows.source)).assign
    "engine" (.str rows.engine)).assign "executionMs" (.num tatMs)).assign "memDeltaKb" (.num memDeltaKb)
  match error with
  | none => fields
  | some message => if message = "" then fields else fields.assign "error" (.str message)

def statusOf (aborted : Bool) (error : Option String) : Status :=
  if error.getD "" ≠ "" then .error else if aborted then .cancelled else .success

/-- After the loop: the trailer for a client that is still there. -/
def finish (s : Stream) (error : Option String) : Stream :=
  { s with
    body := if s.aborted then s.body else s.body ++ body [trailerText (metaFields rows tatMs memDeltaKb s.n error)]
    error := error
    phase := .ended
    status := some (statusOf s.aborted error) }

def pipeRowStream (s : Stream) : Event → Option Stream
  | .close => some (if s.phase = .ended then s else { s with aborted := true })
  | .look =>
    if s.phase = .looping then
      some (if s.aborted then finish rows tatMs memDeltaKb s none else { s with phase := .waiting })
    else none
  | .arrive a =>
    if s.phase = .waiting then
      match a with
      | .row r => some { s with body := s.body ++ body [lineText r], n := s.n + 1, phase := .looping }
      | .done => some (finish rows tatMs memDeltaKb s none)
      | .failed message => some (finish rows tatMs memDeltaKb s (some message))
    else none

end Pipe

def opened : Stream := ⟨[], 0, false, none, .looping, none⟩

def rowsOf : List Event → List SourceRow
  | [] => []
  | .arrive (.row r) :: es => r :: rowsOf es
  | _ :: es => rowsOf es

section Runs
variable {rows : RowStream} {tatMs memDeltaKb : ℕ} {s s' : Stream} {es : List Event}

theorem body_append (a b : List (List Char)) : body (a ++ b) = body a ++ body b := List.flatMap_append

theorem ended_run (hrun : run (pipeRowStream rows tatMs memDeltaKb) s es = some s') (ended : s.phase = .ended) :
    s' = s ∧ rowsOf es = [] := by
  induction es with
  | nil =>
    cases hrun
    exact ⟨rfl, rfl⟩
  | cons e es ih =>
    rw [run_cons, Option.bind_eq_some_iff] at hrun
    obtain ⟨m, taken, rest⟩ := hrun
    cases e with
    | close =>
      change some (if s.phase = .ended then s else { s with aborted := true }) = some m at taken
      rw [if_pos ended] at taken
      cases taken
      exact ih rest
    | look =>
      have phase := (Option.ite_none_right_eq_some.mp taken).1
      rw [ended] at phase
      cases phase
    | arrive a =>
      have phase := (Option.ite_none_right_eq_some.mp taken).1
      rw [ended] at phase
      cases phase

structure Ending (rows : RowStream) (tatMs memDeltaKb : ℕ) (s : Stream) (es : List Event) (s' : Stream) : Prop where
  body : s'.body = s.body ++ body ((rowsOf es).map lineText ++ if s'.aborted then [] else
    [trailerText (metaFields rows tatMs memDeltaKb (s.n + (rowsOf es).length) s'.error)])
  status : s'.status = some (statusOf s'.aborted s'.error)
  closed : s'.aborted = true → s.aborted = true ∨ .close ∈ es
  cause : s'.aborted = true ∧ s'.error = none ∨ .arrive .done ∈ es ∧ s'.error = none ∨
    ∃ message, .arrive (.failed message) ∈ es ∧ s'.error = some message

theorem ending_finish {e : Event} {error : Option String} (silent : rowsOf (e :: es) = [])
    (cause : s.aborted = true ∧ error = none ∨ e = .arrive .done ∧ error = none ∨
      ∃ message, e = .arrive (.failed message) ∧ error = some message) :
    Ending rows tatMs memDeltaKb s (e :: es) (finish rows tatMs memDeltaKb s error) where
  body := by
    rw [silent]
    unfold finish
    cases s.aborted
    · rfl
    · exact (List.append_nil _).symm
  status := rfl
  closed := .inl
  cause := by
    rcases cause with early | ⟨rfl, rfl⟩ | ⟨message, rfl, rfl⟩
    · exact .inl early
    · exact .inr (.inl ⟨List.mem_cons_self, rfl⟩)
    · exact .inr (.inr ⟨message, List.mem_cons_self, rfl⟩)

theorem ending_cons {e : Event} {m : Stream} (h : Ending rows tatMs memDeltaKb m es s')
    (bodies : m.body = s.body ++ body ((rowsOf [e]).map lineText)) (count : m.n = s.n + (rowsOf [e]).length)
    (closed : m.aborted = true → s.aborted = true ∨ e = .close) :
    Ending rows tatMs memDeltaKb s (e :: es) s' := by
  have parts : rowsOf (e :: es) = rowsOf [e] ++ rowsOf es := by
    cases e with
    | arrive a => cases a <;> rfl
    | _ => rfl
  constructor
  · rw [h.body, bodies, parts, count, List.map_append, List.length_append, List.append_assoc, ← body_append,
      List.append_assoc, Nat.add_assoc]
  · exact h.status
  · intro aborted
    rcases h.closed aborted with before | inside
    · exact (closed before).imp_right fun same => by rw [same]; exact List.mem_cons_self
    · exact .inr (List.mem_cons_of_mem _ inside)
  · rcases h.cause with early | ⟨inside, none⟩ | ⟨message, inside, some⟩
    · exact .inl early
    · exact .inr (.inl ⟨List.mem_cons_of_mem _ inside, none⟩)
    · exact .inr (.inr ⟨message, List.mem_cons_of_mem _ inside, some⟩)

theorem open_run (hrun : run (pipeRowStream rows tatMs memDeltaKb) s es = some s') (going : s.phase ≠ .ended)
    (ended : s'.phase = .ended) : Ending rows tatMs memDeltaKb s es s' := by
  induction es generalizing s with
  | nil =>
    cases hrun
    exact absurd ended going
  | cons e es ih =>
    rw [run_cons, Option.bind_eq_some_iff] at hrun
    obtain ⟨m, taken, rest⟩ := hrun
    cases e with
    | close =>
      change some (if s.phase = .ended then s else { s with aborted := true }) = some m at taken
      rw [if_neg going] at taken
      cases taken
      exact ending_cons (ih rest going) (List.append_nil _).symm rfl fun _ => .inr rfl
    | look =>
      obtain ⟨_, taken⟩ := Option.ite_none_right_eq_some.mp taken
      by_cases early : s.aborted = true
      · rw [if_pos early] at taken
        cases taken
        obtain ⟨rfl, silent⟩ := ended_run rest rfl
        exact ending_finish silent (.inl ⟨early, rfl⟩)
      · rw [if_neg early] at taken
        cases taken
        exact ending_cons (ih rest Phase.noConfusion) (List.append_nil _).symm rfl .inl
    | arrive a =>
      obtain ⟨_, taken⟩ := Option.ite_none_right_eq_some.mp taken
      cases a with
      | row r =>
        cases taken
        exact ending_cons (ih rest Phase.noConfusion) rfl rfl .inl
      | done =>
        cases taken
        obtain ⟨rfl, silent⟩ := ended_run rest rfl
        exact ending_finish silent (.inr (.inl ⟨rfl, rfl⟩))
      | failed message =>
        cases taken
        obtain ⟨rfl, silent⟩ := ended_run rest rfl
        exact ending_finish silent (.inr (.inr ⟨message, rfl, rfl⟩))

theorem trailer_silent {n : ℕ} {error : Option String}
    (silent : (metaFields rows tatMs memDeltaKb n error).get? "error" = none) : error = none ∨ error = some "" := by
  cases error with
  | none => exact .inl rfl
  | some message =>
    by_cases blank : message = ""
    · exact .inr (congrArg some blank)
    · simp only [metaFields] at silent
      rw [if_neg blank, Record.get?_assign, if_pos rfl] at silent
      cases silent

/-- Whenever the client closes, whole lines are written: the rows that arrived, and the trailer unless it closed. Without
an error in the trailer these are all the rows of the cursor, or it failed with no message, and the audit says success
of nothing else. -/
theorem piped_lines (hrun : run (pipeRowStream rows tatMs memDeltaKb) opened es = some s) (ended : s.phase = .ended) :
    received s.body = (rowsOf es).map lineText ++ (if s.aborted then [] else
        [trailerText (metaFields rows tatMs memDeltaKb (rowsOf es).length s.error)]) ∧
      (s.aborted = true → .close ∈ es) ∧
      (s.aborted = false → (metaFields rows tatMs memDeltaKb (rowsOf es).length s.error).get? "error" = none →
        .arrive .done ∈ es ∨ .arrive (.failed "") ∈ es) ∧
      (s.status = some .success → .arrive .done ∈ es ∨ .arrive (.failed "") ∈ es) := by
  have ending := open_run hrun (by decide) ended
  refine ⟨?_, fun aborted => ?_, fun whole silent => ?_, fun success => ?_⟩
  · rw [ending.body]
    change received (body _) = _
    change received (body ((rowsOf es).map lineText ++ if s.aborted then [] else
      [trailerText (metaFields rows tatMs memDeltaKb (0 + (rowsOf es).length) s.error)])) = _
    rw [Nat.zero_add]
    cases s.aborted
    · exact received_body (rowsOf es) [metaFields rows tatMs memDeltaKb (rowsOf es).length s.error]
    · exact received_body (rowsOf es) []
  · exact (ending.closed aborted).resolve_left (by decide)
  · rcases ending.cause with ⟨aborted, _⟩ | ⟨inside, _⟩ | ⟨message, inside, failed⟩
    · rw [whole] at aborted
      cases aborted
    · exact .inl inside
    · rcases trailer_silent silent with none | blank
      · rw [none] at failed
        cases failed
      · cases blank.symm.trans failed
        exact .inr inside
  · rw [ending.status, Option.some.injEq] at success
    rcases ending.cause with ⟨aborted, none⟩ | ⟨inside, _⟩ | ⟨message, inside, failed⟩
    · rw [aborted, none] at success
      cases success
    · exact .inl inside
    · rw [failed] at success
      by_cases blank : message = ""
      · exact .inr (blank ▸ inside)
      · rw [statusOf, Option.getD_some, if_pos blank] at success
        cases success

end Runs

def page : RowStream := ⟨"internal-cursor", "crm", "POSTGRES"⟩

theorem piped_lines_closed : ∃ s, run (pipeRowStream page 3 0) opened
      [.look, .arrive (.row note), .close, .look] = some s ∧ s.status = some .cancelled ∧
    received s.body = [lineText note] := by
  have hrun : run (pipeRowStream page 3 0) opened [.look, .arrive (.row note), .close, .look] =
    some ⟨body [lineText note], 1, true, none, .ended, some .cancelled⟩ := rfl
  exact ⟨_, hrun, rfl, (piped_lines hrun rfl).1⟩

end DataFabric.ResultStreams
