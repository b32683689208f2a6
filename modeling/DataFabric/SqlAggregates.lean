import DataFabric.PartialRows

set_option autoImplicit false

/-!
# SQL's aggregates over a typed column

The values of a column that are not null, all numbers or all texts, under the aggregates of SQL.
-/
namespace DataFabric.SqlAggregates
open JsValues Aggregates PartialAggregates

inductive ColumnType
  | number | text
  deriving DecidableEq, Repr

def ColumnType.Admits : ColumnType → JsValue → Prop
  | .number, v => ∃ q, v = .num q
  | .text, v => ∃ s, v = .str s

def numberOf : JsValue → Option ℚ
  | .num q => some q
  | _ => none

def textOf : JsValue → Option String
  | .str s => some s
  | _ => none

def firstText (le : String → String → Bool) : List String → Option String
  | [] => none
  | s :: ss => some (ss.foldl (fun t u => if le t u then t else u) s)

def extreme (number : List ℚ → Option ℚ) (text : List String → Option String) : ColumnType → List JsValue → JsValue
  | .number, values => optional (number (values.filterMap numberOf))
  | .text, values => (text (values.filterMap textOf)).elim .null .str

def aggregate (le : String → String → Bool) (type : ColumnType) (f : AggFunc) (values : List JsValue) : JsValue :=
  match f with
  | .count => .num values.length
  | .countDistinct => .num values.eraseDups.length
  | .sum => sumValue (values.filterMap numberOf)
  | .avg => if values = [] then .null else .num ((values.filterMap numberOf).sum / values.length)
  | .min => extreme List.min? (firstText le) type values
  | .max => extreme List.max? (firstText fun t u => le u t) type values
  | .other _ => .null

def notNull (values : List JsValue) : List JsValue := values.filter fun v => !v.isNullish

theorem num_inj {a b : ℚ} : JsValue.num a = .num b ↔ a = b := by
  constructor
  · intro h
    injection h with h
    injection h
  · intro h
    rw [h]

theorem optional_inj {a b : Option ℚ} : PartialAggregates.optional a = PartialAggregates.optional b ↔ a = b := by
  cases a with
  | none => cases b <;> simp [PartialAggregates.optional]
  | some a =>
    cases b with
    | none => simp [PartialAggregates.optional]
    | some b =>
      change JsValue.num a = .num b ↔ _
      rw [num_inj, Option.some.injEq]

section

variable {type : ColumnType} {values : List JsValue}

theorem mem_notNull {v : JsValue} : v ∈ notNull values ↔ v ∈ values ∧ v.isNullish = false := by
  unfold notNull
  rw [List.mem_filter, Bool.not_eq_true']

theorem notNull_append (vs ws : List JsValue) : notNull (vs ++ ws) = notNull vs ++ notNull ws := List.filter_append vs ws

theorem length_numbers (h : ∀ v ∈ values, ColumnType.number.Admits v) :
    (values.filterMap numberOf).length = values.length := by
  induction values with
  | nil => rfl
  | cons v vs ih =>
    have ⟨q, hq⟩ := h v List.mem_cons_self
    rw [hq, List.filterMap_cons]
    change (q :: vs.filterMap numberOf).length = _
    rw [List.length_cons, List.length_cons, ih fun w hw => h w (List.mem_cons_of_mem _ hw)]

theorem length_texts (h : ∀ v ∈ values, ColumnType.text.Admits v) :
    (values.filterMap textOf).length = values.length := by
  induction values with
  | nil => rfl
  | cons v vs ih =>
    have ⟨s, hs⟩ := h v List.mem_cons_self
    rw [hs, List.filterMap_cons]
    change (s :: vs.filterMap textOf).length = _
    rw [List.length_cons, List.length_cons, ih fun w hw => h w (List.mem_cons_of_mem _ hw)]

theorem numbers_eq_nil (h : ∀ v ∈ values, ColumnType.number.Admits v) :
    values.filterMap numberOf = [] ↔ values = [] := by
  rw [← List.length_eq_zero_iff, length_numbers h, List.length_eq_zero_iff]

theorem extreme_text (number : List ℚ → Option ℚ) (le : String → String → Bool)
    (h : ∀ v ∈ values, ColumnType.text.Admits v) (v : JsValue) (hv : ∀ s, v ≠ .str s) :
    extreme number (firstText le) .text values = v ↔ values = [] ∧ v = .null := by
  have hlength := length_texts h
  change (firstText le (values.filterMap textOf)).elim .null .str = v ↔ _
  cases htexts : values.filterMap textOf with
  | nil =>
    rw [htexts, List.length_nil, eq_comm, List.length_eq_zero_iff] at hlength
    rw [hlength]
    exact ⟨fun heq => ⟨rfl, heq.symm⟩, fun heq => heq.2.symm⟩
  | cons s ss =>
    constructor
    · intro heq
      exact absurd heq.symm (hv _)
    · intro ⟨hnil, _⟩
      rw [hnil] at htexts
      cases htexts

theorem min?_append {xs ys : List ℚ} :
    xs.min? = (xs ++ ys).min? ↔ ∀ y ∈ ys, ∃ x ∈ xs, x ≤ y := by
  cases hxs : xs.min? with
  | none =>
    rw [List.min?_eq_none_iff] at hxs
    rw [hxs, List.nil_append, eq_comm, List.min?_eq_none_iff]
    simp [List.eq_nil_iff_forall_not_mem]
  | some m =>
    have ⟨hmem, hle⟩ := List.min?_eq_some_iff.mp hxs
    rw [eq_comm, List.min?_eq_some_iff]
    constructor
    · intro ⟨_, hall⟩ y hy
      exact ⟨m, hmem, hall y (List.mem_append_right _ hy)⟩
    · intro hall
      refine ⟨List.mem_append_left _ hmem, fun y hy => ?_⟩
      rcases List.mem_append.mp hy with hx | hy
      · exact hle y hx
      · have ⟨x, hx, hxy⟩ := hall y hy
        exact (hle x hx).trans hxy

theorem max?_append {xs ys : List ℚ} :
    xs.max? = (xs ++ ys).max? ↔ ∀ y ∈ ys, ∃ x ∈ xs, y ≤ x := by
  cases hxs : xs.max? with
  | none =>
    rw [List.max?_eq_none_iff] at hxs
    rw [hxs, List.nil_append, eq_comm, List.max?_eq_none_iff]
    simp [List.eq_nil_iff_forall_not_mem]
  | some m =>
    have ⟨hmem, hle⟩ := List.max?_eq_some_iff.mp hxs
    rw [eq_comm, List.max?_eq_some_iff]
    constructor
    · intro ⟨_, hall⟩ y hy
      exact ⟨m, hmem, hall y (List.mem_append_right _ hy)⟩
    · intro hall
      refine ⟨List.mem_append_left _ hmem, fun y hy => ?_⟩
      rcases List.mem_append.mp hy with hx | hy
      · exact hle y hx
      · have ⟨x, hx, hxy⟩ := hall y hy
        exact hxy.trans (hle x hx)

end

end DataFabric.SqlAggregates
