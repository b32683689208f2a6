import DataFabric.SqlAggregates
import DataFabric.DistinctElements

set_option autoImplicit false

/-!
# Merged distinct counts

A source answers a COUNT(DISTINCT) with the values of each group or with their number. Values
are collected in a set for each group, numbers are added up, and the set wins.
-/
namespace DataFabric.DistinctMerges
open JsValues OrderedRecords FederatedJoins KeyedJoins Aggregates PartialAggregates SqlAggregates DistinctElements

def setName (aliasName : String) : String := "__set__" ++ aliasName

def addValue (vs : List JsValue) (v : JsValue) : List JsValue := if vs.any (sameKey · v) then vs else vs ++ [v]

/-- The row of a group and its sets. A set is kept under the key and the alias, which no other key and alias make. -/
structure Group where
  acc : SourceRow
  sets : Record String (List JsValue)

section

variable (parseFloat : String → Option ℚ)

def mergeOne (row : SourceRow) (group : Group) (a : AggregateSpec) : Group :=
  let summed := { group with acc := Aggregates.mergeOne parseFloat row group.acc a }
  if a.func = .countDistinct then
    match column row (setName a.aliasName) with
    | .arr vs =>
      { group with
        sets := group.sets.assign a.aliasName (vs.foldl addValue ((group.sets.get? a.aliasName).getD [])) }
    | _ => summed
  else summed

def mergeRow (plan : AggregatePlan) (group : Group) (row : SourceRow) : Group :=
  plan.aggregates.foldl (mergeOne parseFloat row) group

def start (plan : AggregatePlan) (key : List JsValue) : Group := ⟨groupRow plan key, .empty⟩

def merged (rows : List SourceRow) (plan : AggregatePlan) : Record (List JsValue) Group :=
  groupFold (mergeKey plan) (fun row => start plan (mergeKey plan row)) (mergeRow parseFloat plan) rows

def finishOne (sets : Record String (List JsValue)) (acc : SourceRow) (a : AggregateSpec) : SourceRow :=
  match if a.func = .countDistinct then sets.get? a.aliasName else none with
  | some vs => acc.assign a.aliasName (.num vs.length)
  | none => Aggregates.finishOne parseFloat acc a

def finish (plan : AggregatePlan) (group : Group) : SourceRow :=
  plan.aggregates.foldl (finishOne parseFloat group.sets) group.acc

def mergePartials (rows : List SourceRow) (plan : AggregatePlan) : List SourceRow :=
  (merged parseFloat rows plan).entries.map fun group => finish parseFloat plan group.2

end

section

variable {parseFloat : String → Option ℚ} {plan : AggregatePlan}

def Unlisted (plan : AggregatePlan) (row : SourceRow) : Prop :=
  ∀ a ∈ plan.aggregates, ∀ vs, column row (setName a.aliasName) ≠ .arr vs

end

/-- A COUNT(DISTINCT) of a plan whose columns have names of their own. -/
structure DistinctCount where
  plan : AggregatePlan
  spec : AggregateSpec
  named : WellNamed plan
  mem : spec ∈ plan.aggregates
  distinct : spec.func = .countDistinct

/-- The values of a group, each once; a row is the key of its group and the value that is counted. -/
def groupValues (contents : List (List JsValue × JsValue)) (key : List JsValue) : List JsValue :=
  (notNull ((contents.filter fun r => r.1 = key).map Prod.snd)).eraseDups

/-- A source with its rows and its answer, one row for each group. -/
structure Answer (parseFloat : String → Option ℚ) (c : DistinctCount) where
  contents : List (List JsValue × JsValue)
  exact : Bool
  rows : List SourceRow
  grouped : (rows.map (mergeKey c.plan)).Nodup
  covered : ∀ r ∈ contents, r.1 ∈ rows.map (mergeKey c.plan)
  listed : exact = true → ∀ row ∈ rows,
    column row (setName c.spec.aliasName) = .arr (groupValues contents (mergeKey c.plan row))
  counted : exact = false → ∀ row ∈ rows, (∀ vs, column row (setName c.spec.aliasName) ≠ .arr vs) ∧
    numeric parseFloat (column row c.spec.aliasName) = (groupValues contents (mergeKey c.plan row)).length

section

variable {parseFloat : String → Option ℚ} {c : DistinctCount}

namespace Answer

variable (s : Answer parseFloat c) (key : List JsValue)

def values : List JsValue := groupValues s.contents key

def Has : Prop := key ∈ s.rows.map (mergeKey c.plan)

instance : Decidable (s.Has key) := inferInstanceAs (Decidable (_ ∈ _))

end Answer

variable (answers : List (Answer parseFloat c)) (key : List JsValue)

def listedValues : List JsValue := (answers.filter Answer.exact).flatMap fun s => s.values key

def countedValues : List JsValue := (answers.filter fun s => !s.exact).flatMap fun s => s.values key

def allValues : List JsValue := answers.flatMap fun s => s.values key

def isPrim : JsValue → Bool
  | .prim _ => true
  | _ => false

def missing : ℕ := ((countedValues answers key).filter fun v => v ∉ listedValues answers key).eraseDups.length

/-- How often an array or an object is listed again by another source. -/
def repeated : ℕ :=
  let objects := (listedValues answers key).filter fun v => !isPrim v
  objects.length - objects.eraseDups.length

def UpperBound : Prop :=
  ∀ key group, (key, group) ∈ (merged parseFloat (answers.flatMap Answer.rows) c.plan).entries →
    ∃ n : ℕ, (finish parseFloat c.plan group).get? c.spec.aliasName = some (.num n) ∧
      (allValues answers key).eraseDups.length ≤ n ∧
      ((∀ s ∈ answers, s.exact = true) → n = (allValues answers key).eraseDups.length)

def HoldsWhen : Prop :=
  ∀ key, (∃ s ∈ answers, s.exact = true ∧ s.Has key) →
    missing answers key ≤ repeated answers key ∧ ((∀ s ∈ answers, s.exact = true) → repeated answers key = 0)

end

section

variable {parseFloat : String → Option ℚ} {m : String} {b : AggregateSpec}

theorem mergeOne_acc_frame (parseFloat : String → Option ℚ) (row acc : SourceRow) (h : m ∉ writtenNames b) :
    (Aggregates.mergeOne parseFloat row acc b).get? m = acc.get? m := by
  rcases b with ⟨func, col, aliasName⟩
  cases func <;> simp_all [Aggregates.mergeOne, writtenNames]

theorem mergeOne_frame (parseFloat : String → Option ℚ) (row : SourceRow) (group : Group) (h : m ∉ writtenNames b) :
    (mergeOne parseFloat row group b).acc.get? m = group.acc.get? m ∧
      (mergeOne parseFloat row group b).sets.get? m = group.sets.get? m := by
  have hacc := mergeOne_acc_frame parseFloat row group.acc h
  have halias : m ≠ b.aliasName := fun heq => h (heq ▸ List.mem_cons_self)
  unfold mergeOne
  by_cases hfunc : b.func = .countDistinct
  · rw [if_pos hfunc]
    split
    · rw [Record.get?_assign, if_neg halias]
      exact ⟨rfl, rfl⟩
    · exact ⟨hacc, rfl⟩
  · rw [if_neg hfunc]
    exact ⟨hacc, rfl⟩

theorem finishOne_frame (sets : Record String (List JsValue)) (acc : SourceRow) (h : m ∉ writtenNames b) :
    (finishOne parseFloat sets acc b).get? m = acc.get? m := by
  have halias : m ≠ b.aliasName := fun heq => h (heq ▸ List.mem_cons_self)
  unfold finishOne
  split
  · rw [Record.get?_assign, if_neg halias]
  · rcases b with ⟨func, col, aliasName⟩
    cases func <;> simp_all [Aggregates.finishOne, writtenNames]

theorem foldl_frame {σ γ : Type*} (read : σ → γ) {f : σ → AggregateSpec → σ} {aggregates : List AggregateSpec}
    (h : ∀ b ∈ aggregates, ∀ s, read (f s b) = read s) (s : σ) : read (aggregates.foldl f s) = read s := by
  induction aggregates generalizing s with
  | nil => rfl
  | cons b aggregates ih =>
    rw [List.foldl_cons, ih fun d hd => h d (List.mem_cons_of_mem _ hd)]
    exact h b List.mem_cons_self s

end

namespace DistinctCount

variable (c : DistinctCount)

theorem split : ∃ before after, c.plan.aggregates = before ++ c.spec :: after ∧
    ∀ b, b ∈ before ∨ b ∈ after → c.spec.aliasName ∉ writtenNames b := by
  have ⟨before, after, hsplit⟩ := List.append_of_mem c.mem
  refine ⟨before, after, hsplit, fun b hb hwritten => ?_⟩
  have hmem : b ∈ c.plan.aggregates := by
    rw [hsplit, List.mem_append, List.mem_cons]
    exact hb.elim .inl fun h => .inr (.inr h)
  have hsame := c.named.alias_inj hmem c.mem hwritten List.mem_cons_self
  have hnodup := ((List.nodup_append.mp c.named.distinct).2.1.sublist (aliases_sublist c.plan)).of_map
  rw [hsplit, List.nodup_append, List.nodup_cons] at hnodup
  rw [hsame] at hb
  exact hb.elim (fun h => hnodup.2.2 _ h _ List.mem_cons_self rfl) hnodup.2.1.1

variable {c} {parseFloat : String → Option ℚ}

def held (c : DistinctCount) (group : Group) : Option JsValue × Option (List JsValue) :=
  (group.acc.get? c.spec.aliasName, group.sets.get? c.spec.aliasName)

theorem mergeRow_held (c : DistinctCount) (parseFloat : String → Option ℚ) (row : SourceRow) (group : Group) : ∃ old, c.held old = c.held group ∧
    c.held (mergeRow parseFloat c.plan group row) = c.held (mergeOne parseFloat row old c.spec) := by
  have ⟨before, after, hsplit, hother⟩ := c.split
  have hframe : ∀ b, b ∈ before ∨ b ∈ after → ∀ g, c.held (mergeOne parseFloat row g b) = c.held g := by
    intro b hb g
    have ⟨hacc, hsets⟩ := mergeOne_frame parseFloat row g (hother b hb)
    exact Prod.ext hacc hsets
  refine ⟨before.foldl (mergeOne parseFloat row) group, foldl_frame c.held (fun b hb => hframe b (.inl hb)) group, ?_⟩
  unfold mergeRow
  rw [hsplit, List.foldl_append, List.foldl_cons]
  exact foldl_frame c.held (fun b hb => hframe b (.inr hb)) _

theorem mergeRow_listed {row : SourceRow} {vs : List JsValue} (h : column row (setName c.spec.aliasName) = .arr vs)
    (group : Group) : c.held (mergeRow parseFloat c.plan group row) =
      ((c.held group).1, some (vs.foldl addValue ((c.held group).2.getD []))) := by
  have ⟨old, hold, hrow⟩ := mergeRow_held c parseFloat row group
  rw [hrow, ← hold]
  unfold mergeOne
  rw [if_pos c.distinct, h]
  unfold held
  rw [Record.get?_assign, if_pos rfl]

theorem mergeRow_counted {row : SourceRow} (h : ∀ vs, column row (setName c.spec.aliasName) ≠ .arr vs)
    (group : Group) : c.held (mergeRow parseFloat c.plan group row) =
      (some (add parseFloat ((c.held group).1.getD .undefined) (column row c.spec.aliasName)), (c.held group).2) := by
  have ⟨old, hold, hrow⟩ := mergeRow_held c parseFloat row group
  rw [hrow, ← hold]
  have hsummed : mergeOne parseFloat row old c.spec =
      { old with acc := Aggregates.mergeOne parseFloat row old.acc c.spec } := by
    unfold mergeOne
    rw [if_pos c.distinct]
    split
    · rename_i vs hvs
      exact absurd hvs (h vs)
    · rfl
  have hown : Aggregates.mergeOne parseFloat row old.acc c.spec = old.acc.assign c.spec.aliasName
      (add parseFloat (column old.acc c.spec.aliasName) (column row c.spec.aliasName)) := by
    unfold Aggregates.mergeOne
    rw [c.distinct]
  rw [hsummed, hown]
  unfold held
  rw [Record.get?_assign, if_pos rfl]
  rfl

theorem get?_finish (group : Group) : (finish parseFloat c.plan group).get? c.spec.aliasName =
    match (c.held group).2 with
    | some vs => some (JsValue.num vs.length)
    | none => (c.held group).1 := by
  have ⟨before, after, hsplit, hother⟩ := c.split
  have hframe : ∀ b, b ∈ before ∨ b ∈ after → ∀ acc : SourceRow,
      (finishOne parseFloat group.sets acc b).get? c.spec.aliasName = acc.get? c.spec.aliasName :=
    fun b hb acc => finishOne_frame group.sets acc (hother b hb)
  have hbefore : (before.foldl (finishOne parseFloat group.sets) group.acc).get? c.spec.aliasName =
      group.acc.get? c.spec.aliasName :=
    foldl_frame (fun acc : SourceRow => acc.get? c.spec.aliasName) (fun b hb => hframe b (.inl hb)) group.acc
  unfold finish
  rw [hsplit, List.foldl_append, List.foldl_cons, foldl_frame (fun acc : SourceRow => acc.get? c.spec.aliasName) fun b hb => hframe b (.inr hb),
    finishOne, if_pos c.distinct]
  change _ = match group.sets.get? c.spec.aliasName with
    | some vs => some (JsValue.num vs.length)
    | none => group.acc.get? c.spec.aliasName
  cases group.sets.get? c.spec.aliasName with
  | some vs =>
    change (Record.assign _ _ _).get? _ = _
    rw [Record.get?_assign, if_pos rfl]
  | none =>
    change (Aggregates.finishOne parseFloat _ c.spec).get? _ = _
    unfold Aggregates.finishOne
    rw [c.distinct]
    exact hbefore

end DistinctCount

section

variable {parseFloat : String → Option ℚ} {c : DistinctCount}

theorem Answer.rows_of (s : Answer parseFloat c) (key : List JsValue) :
    (¬ s.Has key ∧ s.values key = [] ∧ (s.rows.filter fun row => mergeKey c.plan row = key) = []) ∨
      (s.Has key ∧ ∃ row ∈ s.rows, mergeKey c.plan row = key ∧
        (s.rows.filter fun row => mergeKey c.plan row = key) = [row]) := by
  by_cases hhas : s.Has key
  · have ⟨row, hrow, hkey⟩ := List.mem_map.mp hhas
    exact .inr ⟨hhas, row, hrow, hkey, hkey ▸ filter_own s.grouped hrow⟩
  · have hcontents : (s.contents.filter fun r => r.1 = key) = [] := by
      rw [List.filter_eq_nil_iff]
      intro r hr hkey
      exact hhas (of_decide_eq_true hkey ▸ s.covered r hr)
    have hvalues : s.values key = [] := by
      unfold values groupValues
      rw [hcontents]
      rfl
    refine .inl ⟨hhas, hvalues, ?_⟩
    rw [List.filter_eq_nil_iff]
    intro row hrow hkey
    exact hhas (List.mem_map.mpr ⟨row, hrow, of_decide_eq_true hkey⟩)

theorem Answer.held_merge (s : Answer parseFloat c) (key : List JsValue) (group : Group) :
    c.held ((s.rows.filter fun row => mergeKey c.plan row = key).foldl (mergeRow parseFloat c.plan) group) =
      if s.Has key then
        if s.exact then ((c.held group).1, some ((s.values key).foldl addValue ((c.held group).2.getD [])))
        else (some (.num (numeric parseFloat ((c.held group).1.getD .undefined) + (s.values key).length)), (c.held group).2)
      else c.held group := by
  rcases s.rows_of key with ⟨hnot, _, hnone⟩ | ⟨hhas, row, hrow, hkey, hone⟩
  · rw [if_neg hnot, hnone]
    rfl
  · rw [if_pos hhas, hone, List.foldl_cons, List.foldl_nil]
    cases hexact : s.exact with
    | true =>
      rw [if_pos rfl, DistinctCount.mergeRow_listed (s.listed hexact row hrow), hkey]
      rfl
    | false =>
      have ⟨hset, hcount⟩ := s.counted hexact row hrow
      rw [if_neg Bool.false_ne_true, DistinctCount.mergeRow_counted hset, add, hcount, hkey]
      rfl

theorem Answer.values_of_not_has {s : Answer parseFloat c} {key : List JsValue} (h : ¬ s.Has key) : s.values key = [] := by
  rcases s.rows_of key with ⟨_, hnone, _⟩ | ⟨hhas, _⟩
  · exact hnone
  · exact absurd hhas h

variable {key : List JsValue}

theorem listedValues_cons (s : Answer parseFloat c) (answers : List (Answer parseFloat c)) :
    listedValues (s :: answers) key = (if s.exact then s.values key else []) ++ listedValues answers key := by
  unfold listedValues
  cases hexact : s.exact with
  | true => rw [List.filter_cons_of_pos hexact, List.flatMap_cons, if_pos rfl]
  | false => rw [List.filter_cons_of_neg (by rw [hexact]; decide), if_neg Bool.false_ne_true, List.nil_append]

theorem countedValues_cons (s : Answer parseFloat c) (answers : List (Answer parseFloat c)) :
    countedValues (s :: answers) key = (if s.exact then [] else s.values key) ++ countedValues answers key := by
  unfold countedValues
  cases hexact : s.exact with
  | true => rw [List.filter_cons_of_neg (by rw [hexact]; decide), if_pos rfl, List.nil_append]
  | false => rw [List.filter_cons_of_pos (by rw [hexact]; rfl), List.flatMap_cons, if_neg Bool.false_ne_true]

def Met (exact : Bool) (answers : List (Answer parseFloat c)) (key : List JsValue) : Prop :=
  ∃ s ∈ answers, s.exact = exact ∧ s.Has key

theorem met_cons {exact : Bool} {s : Answer parseFloat c} {answers : List (Answer parseFloat c)} :
    Met exact (s :: answers) key ↔ (s.exact = exact ∧ s.Has key) ∨ Met exact answers key := by
  unfold Met
  rw [List.exists_mem_cons_iff]

def mergeAnswers (answers : List (Answer parseFloat c)) (key : List JsValue) (group : Group) : Group :=
  answers.foldl
    (fun g s => (s.rows.filter fun row => mergeKey c.plan row = key).foldl (mergeRow parseFloat c.plan) g) group

def heldSet (c : DistinctCount) (group : Group) : List JsValue := (c.held group).2.getD []

def heldNumber (parseFloat : String → Option ℚ) (c : DistinctCount) (group : Group) : ℚ :=
  numeric parseFloat ((c.held group).1.getD .undefined)

def NumberHeld (c : DistinctCount) (group : Group) : Prop := ∃ q, (c.held group).1 = some (.num q)

/-- One source adds its values to the set or their number to the number. -/
structure Taken (parseFloat : String → Option ℚ) (c : DistinctCount) (listed : List JsValue) (counted : ℕ)
    (isListed isCounted : Prop) (group after : Group) : Prop where
  set : heldSet c after = listed.foldl addValue (heldSet c group)
  number : heldNumber parseFloat c after = heldNumber parseFloat c group + counted
  present : (c.held after).2.isSome = true ↔ isListed ∨ (c.held group).2.isSome = true
  shown : isCounted ∨ NumberHeld c group → NumberHeld c after

theorem Answer.taken (s : Answer parseFloat c) (key : List JsValue) (group : Group) :
    Taken parseFloat c (if s.exact then s.values key else []) (if s.exact then [] else s.values key).length
      (s.exact = true ∧ s.Has key) (s.exact = false ∧ s.Has key) group
      ((s.rows.filter fun row => mergeKey c.plan row = key).foldl (mergeRow parseFloat c.plan) group) := by
  have hstep := s.held_merge key group
  by_cases hhas : s.Has key
  · rw [if_pos hhas] at hstep
    cases hexact : s.exact with
    | true =>
      rw [hexact, if_pos rfl] at hstep
      constructor
      · unfold heldSet
        rw [hstep]
        rfl
      · unfold heldNumber
        rw [hstep]
        simp
      · rw [hstep]
        simp [hhas]
      · unfold NumberHeld
        rw [hstep]
        simp
    | false =>
      rw [hexact, if_neg Bool.false_ne_true] at hstep
      constructor
      · unfold heldSet
        rw [hstep]
        rfl
      · unfold heldNumber
        rw [hstep]
        rfl
      · rw [hstep]
        simp
      · unfold NumberHeld
        rw [hstep]
        exact fun _ => ⟨_, rfl⟩
  · rw [if_neg hhas] at hstep
    rw [Answer.values_of_not_has hhas, ite_self]
    constructor
    · unfold heldSet
      rw [hstep]
      rfl
    · unfold heldNumber
      rw [hstep]
      simp
    · rw [hstep]
      simp [hhas]
    · unfold NumberHeld
      rw [hstep]
      simp [hhas]

theorem Taken.trans {l₁ l₂ : List JsValue} {n₁ n₂ : ℕ} {p₁ p₂ q₁ q₂ : Prop} {g₁ g₂ g₃ : Group}
    (h₁ : Taken parseFloat c l₁ n₁ p₁ q₁ g₁ g₂) (h₂ : Taken parseFloat c l₂ n₂ p₂ q₂ g₂ g₃) :
    Taken parseFloat c (l₁ ++ l₂) (n₁ + n₂) (p₁ ∨ p₂) (q₁ ∨ q₂) g₁ g₃ where
  set := by rw [h₂.set, h₁.set, List.foldl_append]
  number := by rw [h₂.number, h₁.number, Nat.cast_add, add_assoc]
  present := by rw [h₂.present, h₁.present, or_assoc, or_left_comm]
  shown h := h₂.shown (by
    rcases h with (h | h) | h
    · exact .inr (h₁.shown (.inl h))
    · exact .inl h
    · exact .inr (h₁.shown (.inr h)))

theorem taken_mergeAnswers (answers : List (Answer parseFloat c)) (key : List JsValue) (group : Group) :
    Taken parseFloat c (listedValues answers key) (countedValues answers key).length (Met true answers key)
      (Met false answers key) group (mergeAnswers answers key group) := by
  induction answers generalizing group with
  | nil =>
    have hnone : ∀ exact, ¬ Met exact ([] : List (Answer parseFloat c)) key := by
      intro exact h
      have ⟨_, hs, _⟩ := h
      cases hs
    exact ⟨rfl, (add_zero _).symm, by simp [hnone, mergeAnswers], by simp [hnone, mergeAnswers]⟩
  | cons s answers ih =>
    have hrun := (s.taken key group).trans (ih _)
    rw [← listedValues_cons, ← List.length_append, ← countedValues_cons, ← met_cons, ← met_cons] at hrun
    exact hrun

end

theorem addValue_prim (vs : List JsValue) (p : Primitive) :
    addValue vs (.prim p) = if .prim p ∈ vs then vs else vs ++ [.prim p] := by
  have hany : (vs.any (sameKey · (.prim p))) = true ↔ .prim p ∈ vs := by
    rw [List.any_eq_true]
    constructor
    · intro ⟨w, hw, hsame⟩
      cases w with
      | prim q =>
        have hq : q = p := of_decide_eq_true hsame
        exact hq ▸ hw
      | arr ws => cases hsame
      | obj fields => cases hsame
    · intro h
      exact ⟨_, h, decide_eq_true rfl⟩
  unfold addValue
  simp only [hany]

theorem addValue_object (vs : List JsValue) {v : JsValue} (h : isPrim v = false) : addValue vs v = vs ++ [v] := by
  have hany : (vs.any (sameKey · v)) = false := by
    rw [List.any_eq_false]
    intro w _
    cases v with
    | prim p => cases h
    | arr ws => cases w <;> simp [sameKey]
    | obj fields => cases w <;> simp [sameKey]
  unfold addValue
  rw [hany, if_neg Bool.false_ne_true]

theorem mem_set (vs : List JsValue) (v : JsValue) : v ∈ vs.foldl addValue [] ↔ v ∈ vs := by
  induction vs using List.reverseRecOn with
  | nil => exact Iff.rfl
  | append_singleton vs w ih =>
    rw [List.foldl_append, List.foldl_cons, List.foldl_nil, List.mem_append, List.mem_singleton, ← ih]
    cases hkind : isPrim w with
    | true =>
      cases w with
      | prim p =>
        rw [addValue_prim]
        split
        · rename_i hp
          refine ⟨.inl, fun h => h.elim id fun heq => heq ▸ hp⟩
        · rw [List.mem_append, List.mem_singleton]
      | arr ws => cases hkind
      | obj fields => cases hkind
    | false => rw [addValue_object _ hkind, List.mem_append, List.mem_singleton]

theorem length_set (vs : List JsValue) : (vs.foldl addValue []).length =
    (vs.filter isPrim).eraseDups.length + (vs.filter fun v => !isPrim v).length := by
  induction vs using List.reverseRecOn with
  | nil => rfl
  | append_singleton vs v ih =>
    rw [List.foldl_append, List.foldl_cons, List.foldl_nil, List.filter_append, List.filter_append]
    cases hkind : isPrim v with
    | true =>
      have hmem : v ∈ vs.filter isPrim ↔ v ∈ vs := by
        rw [List.mem_filter]
        exact and_iff_left hkind
      have hobject : ([v].filter fun v => !isPrim v) = [] := by simp [hkind]
      cases v with
      | prim p =>
        rw [List.filter_cons_of_pos hkind, List.filter_nil, length_eraseDups_snoc, hobject, List.append_nil, addValue_prim]
        by_cases hp : .prim p ∈ vs
        · rw [if_pos ((mem_set vs _).mpr hp), if_pos (hmem.mpr hp)]
          omega
        · rw [if_neg (hp ∘ (mem_set vs _).mp), if_neg (hp ∘ hmem.mp), List.length_append, List.length_singleton]
          omega
      | arr ws => cases hkind
      | obj fields => cases hkind
    | false =>
      have hprim : [v].filter isPrim = [] := by simp [hkind]
      have hobject : ([v].filter fun v => !isPrim v) = [v] := by simp [hkind]
      rw [addValue_object _ hkind, hprim, hobject, List.append_nil, List.length_append, List.length_append, ih]
      omega

section

variable {parseFloat : String → Option ℚ} {c : DistinctCount} (answers : List (Answer parseFloat c)) (key : List JsValue)

theorem mem_allValues (v : JsValue) :
    v ∈ allValues answers key ↔ v ∈ listedValues answers key ++ countedValues answers key := by
  unfold allValues listedValues countedValues
  rw [List.mem_append, List.mem_flatMap, List.mem_flatMap, List.mem_flatMap]
  constructor
  · intro ⟨s, hs, hv⟩
    cases hexact : s.exact with
    | true => exact .inl ⟨s, List.mem_filter.mpr ⟨hs, hexact⟩, hv⟩
    | false => exact .inr ⟨s, List.mem_filter.mpr ⟨hs, by rw [hexact]; rfl⟩, hv⟩
  · intro h
    rcases h with ⟨s, hs, hv⟩ | ⟨s, hs, hv⟩
    · exact ⟨s, (List.mem_filter.mp hs).1, hv⟩
    · exact ⟨s, (List.mem_filter.mp hs).1, hv⟩

theorem listedValues_of_not_met (h : ¬ Met true answers key) : listedValues answers key = [] := by
  unfold listedValues
  rw [List.flatMap_eq_nil_iff]
  intro s hs
  have ⟨hmem, hexact⟩ := List.mem_filter.mp hs
  exact Answer.values_of_not_has fun hhas => h ⟨s, hmem, hexact, hhas⟩

theorem length_allValues : (allValues answers key).eraseDups.length =
    (listedValues answers key).eraseDups.length + missing answers key := by
  rw [length_eraseDups_congr (mem_allValues answers key), length_eraseDups_append]
  rfl

theorem length_listed : ((listedValues answers key).foldl addValue []).length =
    (listedValues answers key).eraseDups.length + repeated answers key := by
  have hle := length_eraseDups_le ((listedValues answers key).filter fun v => !isPrim v)
  have hkinds := length_eraseDups_filter isPrim (listedValues answers key)
  rw [length_set]
  unfold repeated
  dsimp only
  omega

theorem missing_of_exact (h : ∀ s ∈ answers, s.exact = true) : missing answers key = 0 := by
  have hcounted : countedValues answers key = [] := by
    unfold countedValues
    rw [List.flatMap_eq_nil_iff]
    intro s hs
    have ⟨hmem, hnot⟩ := List.mem_filter.mp hs
    rw [h s hmem] at hnot
    cases hnot
  unfold missing
  rw [hcounted]
  rfl

theorem mem_merged {group : Group} :
    (key, group) ∈ (merged parseFloat (answers.flatMap Answer.rows) c.plan).entries ↔
      (∃ s ∈ answers, s.Has key) ∧ group = mergeAnswers answers key (start c.plan key) := by
  have hkeys : key ∈ (answers.flatMap Answer.rows).map (mergeKey c.plan) ↔ ∃ s ∈ answers, s.Has key := by
    rw [List.map_flatMap, List.mem_flatMap]
    rfl
  have hrun : ((answers.flatMap Answer.rows).filter fun row => mergeKey c.plan row = key).foldl
      (mergeRow parseFloat c.plan) (start c.plan key) = mergeAnswers answers key (start c.plan key) := by
    rw [List.filter_flatMap, List.foldl_flatMap]
    rfl
  unfold merged
  rw [groupFold_entries (start c.plan) fun _ => rfl, List.mem_map, ← hkeys, ← hrun]
  constructor
  · intro ⟨k, hk, heq⟩
    rw [Prod.mk.injEq] at heq
    rw [← heq.1, ← heq.2]
    exact ⟨mem_distinctKeys.mp hk, rfl⟩
  · intro ⟨hk, heq⟩
    exact ⟨key, mem_distinctKeys.mpr hk, by rw [heq]⟩

theorem merged_listed (hmet : Met true answers key) :
    (finish parseFloat c.plan (mergeAnswers answers key (start c.plan key))).get? c.spec.aliasName =
      some (.num ((listedValues answers key).foldl addValue []).length) := by
  have htaken := taken_mergeAnswers answers key (start c.plan key)
  have hset : heldSet c _ = (listedValues answers key).foldl addValue [] := htaken.set
  have hpresent := htaken.present.mpr (.inl hmet)
  rw [DistinctCount.get?_finish]
  unfold heldSet at hset
  cases hheld : (c.held (mergeAnswers answers key (start c.plan key))).2 with
  | none =>
    rw [hheld] at hpresent
    cases hpresent
  | some vs =>
    rw [hheld, Option.getD_some] at hset
    rw [hset]

theorem merged_counted (hhas : ∃ s ∈ answers, s.Has key) (hnot : ¬ Met true answers key) :
    (finish parseFloat c.plan (mergeAnswers answers key (start c.plan key))).get? c.spec.aliasName =
      some (.num (countedValues answers key).length) := by
  have htaken := taken_mergeAnswers answers key (start c.plan key)
  have ⟨s, hs, hkey⟩ := hhas
  have hexact : s.exact = false := by
    rw [← Bool.not_eq_true]
    exact fun h => hnot ⟨s, hs, h, hkey⟩
  have ⟨q, hq⟩ := htaken.shown (.inl ⟨s, hs, hexact, hkey⟩)
  have hstart : heldNumber parseFloat c (start c.plan key) = 0 := by
    have ⟨row, _, hrow⟩ := List.mem_map.mp hkey
    have hwritten : c.spec.aliasName ∈ c.plan.aggregates.flatMap writtenNames :=
      List.mem_flatMap.mpr ⟨_, c.mem, List.mem_cons_self⟩
    have hcolumn := column_groupRow (h := fun g => groupValue row (gName g)) c.named hwritten
    rw [← hrow]
    change numeric parseFloat (column (groupRow c.plan (mergeKey c.plan row)) c.spec.aliasName) = 0
    unfold mergeKey
    rw [hcolumn]
    rfl
  have hnone : (c.held (mergeAnswers answers key (start c.plan key))).2 = none := by
    rw [← Option.not_isSome_iff_eq_none, htaken.present]
    exact fun h => h.elim hnot fun h => by cases h
  have hnumber := htaken.number
  unfold heldNumber at hnumber hstart
  rw [hq, hstart, zero_add] at hnumber
  rw [DistinctCount.get?_finish, hnone]
  change (c.held _).1 = _
  rw [hq, ← hnumber]
  rfl

/-- Every merged count is at least the true number, and the true number of listed values, if and only if the sets
miss no more values than they repeat. -/
theorem upper_bound_iff : UpperBound answers ↔ HoldsWhen answers := by
  have htotal := length_allValues answers
  have hlisted := length_listed answers
  constructor
  · intro h key ⟨s, hs, hexact, hhas⟩
    have ⟨n, hvalue, hle, heq⟩ := h key _ ((mem_merged answers key).mpr ⟨⟨s, hs, hhas⟩, rfl⟩)
    rw [merged_listed answers key ⟨s, hs, hexact, hhas⟩, Option.some.injEq, num_inj, Nat.cast_inj] at hvalue
    specialize htotal key
    specialize hlisted key
    refine ⟨by omega, fun hall => ?_⟩
    have hn := heq hall
    have hmissing := missing_of_exact answers key hall
    omega
  · intro h key group hmem
    have ⟨hhas, hgroup⟩ := (mem_merged answers key).mp hmem
    rw [hgroup]
    specialize htotal key
    specialize hlisted key
    by_cases hmet : Met true answers key
    · have ⟨hmissing, hrepeated⟩ := h key hmet
      refine ⟨_, merged_listed answers key hmet, by omega, fun hall => ?_⟩
      have hrepeated := hrepeated hall
      have hmissing := missing_of_exact answers key hall
      omega
    · have hnone := listedValues_of_not_met answers key hmet
      have hcounted : (allValues answers key).eraseDups.length = (countedValues answers key).eraseDups.length := by
        rw [length_eraseDups_congr (mem_allValues answers key), hnone, List.nil_append]
      have hle := length_eraseDups_le (countedValues answers key)
      refine ⟨_, merged_counted answers key hhas hmet, by omega, fun hall => ?_⟩
      have ⟨s, hs, hkey⟩ := hhas
      exact absurd ⟨s, hs, hall s hs, hkey⟩ hmet

end

def customers : DistinctCount where
  plan := ⟨[], [⟨.countDistinct, some "customer", "customers"⟩]⟩
  spec := ⟨.countDistinct, some "customer", "customers"⟩
  named := ⟨by decide, nofun⟩
  mem := List.mem_cons_self
  distinct := rfl

def annListed : Answer (fun _ => none) customers where
  contents := [([], .str "ann")]
  exact := true
  rows := [.ofEntries [("__set__customers", .arr [.str "ann"])]]
  grouped := by decide
  covered := by decide
  listed _ row hrow := by
    rw [List.mem_singleton.mp hrow]
    decide
  counted := nofun

def othersCounted : Answer (fun _ => none) customers where
  contents := [([], .str "bob"), ([], .str "eve")]
  exact := false
  rows := [.ofEntries [("customers", .num 2)]]
  grouped := by decide
  covered := by decide
  listed := nofun
  counted _ row hrow := by
    rw [List.mem_singleton.mp hrow]
    exact ⟨nofun, by decide⟩

/-- One listed customer hides two counted ones. -/
theorem counts_lost : ¬ ∀ (parseFloat : String → Option ℚ) (c : DistinctCount) (answers : List (Answer parseFloat c)),
    UpperBound answers := by
  intro h
  have hmet : Met true [annListed, othersCounted] [] := ⟨_, List.mem_cons_self, rfl, by decide⟩
  have ⟨n, hvalue, hle, _⟩ := h _ _ [annListed, othersCounted] [] _
    ((mem_merged _ []).mpr ⟨⟨_, List.mem_cons_self, by decide⟩, rfl⟩)
  rw [merged_listed _ [] hmet, Option.some.injEq, num_inj, Nat.cast_inj] at hvalue
  rw [← hvalue] at hle
  revert hle
  decide

end DataFabric.DistinctMerges
