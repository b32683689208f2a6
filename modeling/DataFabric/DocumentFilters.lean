import Mathlib.Data.List.Induction
import DataFabric.CanonicalFilters
import DataFabric.LikePatterns

set_option autoImplicit false

/-!
# One filter in SQL and in Mongo

`toSql` and `mongoMatch` compile a canonical filter for a PostgreSQL table and for a
collection. Both texts are read on one row; a document holds a null column as null or
leaves it out.
-/
namespace DataFabric.DocumentFilters
open CharText JsValues SqlFragments OrderedRecords CanonicalFilters LikePatterns

inductive ScalarType
  | flag | number | text
  deriving DecidableEq, Repr

inductive Scalar
  | flag (b : Bool)
  | number (q : ℚ)
  | text (s : String)
  deriving DecidableEq, Repr

def Scalar.type : Scalar → ScalarType
  | .flag _ => .flag
  | .number _ => .number
  | .text _ => .text

inductive Field
  | missing
  | null
  | value (v : Scalar)
  deriving DecidableEq, Repr

abbrev Row := String → Field

def Field.sql : Field → Option Scalar
  | .value v => some v
  | _ => none

def scalarOf : JsValue → Option Scalar
  | .bool b => some (.flag b)
  | .num q => some (.number q)
  | .str s => some (.text s)
  | _ => none

/-- Which characters are equal regardless of case, the same in both engines, and the collation
of the SQL database. -/
structure Engines where
  fold : Char → Char
  keeps : ∀ c ∈ ['%', '_', '\\', '\n'], Keeps fold c
  before : String → String → Bool
  before_irrefl : ∀ s, before s s = false

def less (before : String → String → Bool) : Scalar → Scalar → Bool
  | .flag a, .flag b => !a && b
  | .number p, .number q => p < q
  | .text s, .text t => before s t
  | _, _ => false

def likeScalar (fold : Char → Char) (pattern : String) : Scalar → Bool
  | .text s => like fold pattern.toList s.toList
  | _ => false

/-- A comparison of a column that is not null; `IN $1` is no SQL. -/
def sqlCompare (e : Engines) (op : CompareOp) (x : JsValue) (v : Scalar) : Bool :=
  (scalarOf x).any fun w =>
    match op with
    | .eq => v = w
    | .ne => v ≠ w
    | .gt => less e.before w v
    | .gte => less e.before w v || decide (v = w)
    | .lt => less e.before v w
    | .lte => less e.before v w || decide (v = w)
    | .like => likeScalar id x.text v
    | .ilike => likeScalar e.fold x.text v
    | .inOp | .notIn => false

def sqlColumn (row : Row) : ColumnRef → Option Scalar
  | .path [name] => (row name).sql
  | _ => none

def sqlHolds (e : Engines) (row : Row) : RowTest → Bool
  | .isNull c => (sqlColumn row c).isNone
  | .isNotNull c => (sqlColumn row c).isSome
  | .compare op c x => (sqlColumn row c).any (sqlCompare e op x)
  | .oneOf c xs => (sqlColumn row c).any fun v => xs.any (sqlCompare e .eq · v)
  | .contains c x => (sqlColumn row c).any (likeScalar e.fold ("%" ++ x.text ++ "%"))
  | _ => false

def sqlSelects (e : Engines) (filter : CanonicalFilter) (row : Row) : Bool :=
  (sqlClauses (some filter)).all (sqlHolds e row)

inductive MongoKey
  | eq | ne | gt | gte | lt | lte | inList | nin | regex | options
  deriving DecidableEq, Repr

def mongoKey : CanonicalOp → Option MongoKey
  | .eq => some .eq
  | .ne => some .ne
  | .gt => some .gt
  | .gte => some .gte
  | .lt => some .lt
  | .lte => some .lte
  | .inList => some .inList
  | .nin => some .nin
  | .like | .ilike | .fullText | .fuzzy => none

def replaceAll (c : Char) (text s : String) : String :=
  String.ofList (s.toList.flatMap fun d => if d = c then text.toList else [d])

def escapeRegex (s : String) : String := String.ofList (s.toList.flatMap escaped)

def regexText (op : CanonicalOp) (x : JsValue) : String :=
  match op with
  | .like | .ilike => "^" ++ replaceAll '_' "." (replaceAll '%' ".*" (escapeRegex x.text)) ++ "$"
  | _ => escapeRegex x.text

def optionsText (op : CanonicalOp) : String := if op = .like then "" else "i"

def setOperator (sub : Record MongoKey JsValue) (condition : CanonicalOp × JsValue) : Record MongoKey JsValue :=
  match mongoKey condition.1 with
  | some key => sub.assign key condition.2
  | none =>
    (sub.assign .regex (.str (regexText condition.1 condition.2))).assign .options (.str (optionsText condition.1))

inductive FieldQuery
  | is (x : JsValue)
  | operators (sub : Record MongoKey JsValue)

def fieldQuery (ops : Record CanonicalOp JsValue) : FieldQuery :=
  match ops.entries with
  | [(.eq, x)] => .is x
  | conditions => .operators (conditions.foldl setOperator .empty)

def mongoMatch (filter : CanonicalFilter) : Record String FieldQuery :=
  filter.entries.foldl
    (fun found column => if column.1 = "__proto__" then found else found.assign column.1 (fieldQuery column.2)) .empty

def equals (x : JsValue) : Field → Bool
  | .value v => scalarOf x = some v
  | _ => x.isNullish

/-- Only values of one type are in order; texts are by their code points. -/
def precedes (x : JsValue) (f : Field) (order : Scalar → Scalar → Bool) : Bool :=
  match f with
  | .value v => (scalarOf x).any fun w => order w v
  | _ => false

def codeLess : Scalar → Scalar → Bool := less fun s t => decide (s < t)

def regexHolds (e : Engines) (options expression : String) : Field → Bool
  | .value (.text s) =>
    (parseRegex expression.toList).any fun r => r.finds (if options = "i" then e.fold else id) s.toList
  | _ => false

def operatorHolds (e : Engines) (options : JsValue) (f : Field) (key : MongoKey) (x : JsValue) : Bool :=
  match key with
  | .eq => equals x f
  | .ne => !equals x f
  | .gt => precedes x f codeLess
  | .gte => precedes x f codeLess || equals x f
  | .lt => precedes x f fun w v => codeLess v w
  | .lte => (precedes x f fun w v => codeLess v w) || equals x f
  | .inList => x.elements.any (equals · f)
  | .nin => !x.elements.any (equals · f)
  | .regex => regexHolds e options.text x.text f
  | .options => true

def FieldQuery.holds (e : Engines) (f : Field) : FieldQuery → Bool
  | .is x => equals x f
  | .operators sub => sub.entries.all fun o => operatorHolds e ((sub.get? .options).getD (.str "")) f o.1 o.2

def mongoSelects (e : Engines) (filter : CanonicalFilter) (row : Row) : Bool :=
  (mongoMatch filter).entries.all fun column => column.2.holds e (row column.1)

def OfType (t : ScalarType) (x : JsValue) : Prop := x = .null ∨ ∃ v, scalarOf x = some v ∧ v.type = t

/-- The operands of a column: of its type or null, for a pattern any scalar, for `$in` a list. -/
def Operand (t : ScalarType) (op : CanonicalOp) (x : JsValue) : Prop :=
  match op with
  | .inList => ∃ xs, x = .arr xs ∧ ∀ y ∈ xs, OfType t y
  | .nin => False
  | .like | .ilike | .fullText | .fuzzy => t = .text ∧ (x = .null ∨ ∃ v, scalarOf x = some v)
  | _ => OfType t x

/-- A filter over the columns of a table, at least one operator for each it mentions. -/
structure Typed (types : String → ScalarType) (filter : CanonicalFilter) : Prop where
  column : ∀ column ∈ filter.entries, strictPart column.1 = true ∧ column.1 ≠ "__proto__"
  operators : ∀ column ∈ filter.entries, column.2.entries ≠ []
  operand : ∀ column ∈ filter.entries, ∀ c ∈ column.2.entries, Operand (types column.1) c.1 c.2

/-- Whether the rows may hold nulls, and line feeds in their texts. -/
structure World where
  nulls : Bool
  lineFeeds : Bool

def World.allows (w : World) (s : String) : Prop := w.lineFeeds = true ∨ '\n' ∉ s.toList

def World.Has (w : World) (t : ScalarType) : Field → Prop
  | .value v => v.type = t ∧ ∀ s, v = .text s → w.allows s
  | _ => w.nulls = true

def Narrows (part whole : CanonicalFilter) : Prop :=
  ∀ column ∈ part.entries, column.2.entries ≠ [] ∧
    ∃ ops, (column.1, ops) ∈ whole.entries ∧ column.2.entries.Sublist ops.entries

def Agree (e : Engines) (w : World) (types : String → ScalarType) (filter : CanonicalFilter) : Prop :=
  ∀ row : Row, (∀ column, w.Has (types column) (row column)) → sqlSelects e filter row = mongoSelects e filter row

/-- The collation has the texts above and below an operand where the code points have them. -/
def Collates (e : Engines) (w : World) (x : JsValue) : Prop :=
  ∀ t, x = .str t → ∀ s, w.allows s → e.before t s = decide (t < s)

def CollatesBelow (e : Engines) (w : World) (x : JsValue) : Prop :=
  ∀ t, x = .str t → ∀ s, w.allows s → e.before s t = decide (s < t)

def ConditionFits (e : Engines) (w : World) (op : CanonicalOp) (x : JsValue) : Prop :=
  match op with
  | .eq => True
  | .ne => w.nulls = false ∨ x = .null
  | .gt => Collates e w x
  | .gte => (w.nulls = false ∨ x ≠ .null) ∧ Collates e w x
  | .lt => CollatesBelow e w x
  | .lte => (w.nulls = false ∨ x ≠ .null) ∧ CollatesBelow e w x
  | .inList => w.nulls = false ∨ .null ∉ x.elements
  | .nin => False
  | .like | .ilike =>
    w.lineFeeds = false ∧ x ≠ .null ∧ ('\\' ∉ x.text.toList ∨ '\n' ∈ x.text.toList)
  | .fullText | .fuzzy =>
    (∀ c ∈ x.text.toList, c ∉ ['%', '_', '\\']) ∨ w.lineFeeds = false ∧ '\n' ∈ x.text.toList

def conditionHolds (e : Engines) (op : CanonicalOp) (x : JsValue) (v : Scalar) : Bool :=
  match op with
  | .inList => x.elements.any (sqlCompare e .eq · v)
  | .fullText | .fuzzy => likeScalar e.fold ("%" ++ x.text ++ "%") v
  | op => sqlCompare e (sqlOperator op) x v

/-- Every text the later of two patterns accepts is accepted by the earlier one. -/
def Implied (e : Engines) (w : World) (earlier later : CanonicalOp × JsValue) : Prop :=
  mongoKey earlier.1 = none → mongoKey later.1 = none → ∀ s, w.allows s →
    conditionHolds e later.1 later.2 (.text s) = true → conditionHolds e earlier.1 earlier.2 (.text s) = true

structure Fits (e : Engines) (w : World) (filter : CanonicalFilter) : Prop where
  condition : ∀ column ∈ filter.entries, ∀ c ∈ column.2.entries, ConditionFits e w c.1 c.2
  patterns : ∀ column ∈ filter.entries, column.2.entries.Pairwise (Implied e w)

theorem split_plain {sep : Char} {s : String} (apart : sep ∉ s.toList) : split sep s = [s] := by
  rw [split, splitChars_plain apart, List.map_singleton, String.ofList_toList]

theorem quoteColumn_name {key : String} (plain : strictPart key = true) : quoteColumn key = .path [key] := by
  have kept := strictPart_keepOnly plain
  have word : ∀ c ∈ key.toList, isWord c = true := by
    rw [← String.toList_inj, keepOnly_toList, List.filter_eq_self] at kept
    exact kept
  have noDot : '.' ∉ key.toList := fun inside => absurd (word _ inside) (by decide)
  have named : ¬ (key = "" ∨ key = "*") := by
    rintro (rfl | rfl)
    · exact absurd plain (by decide)
    · exact absurd plain (by decide)
  rw [quoteColumn, if_neg named, split_plain noDot, List.map_singleton, kept]

def sqlCondition (e : Engines) (op : CanonicalOp) (x : JsValue) (v : Option Scalar) : Bool :=
  if op = .eq ∧ x = .null then v.isNone
  else if op = .ne ∧ x = .null then v.isSome
  else v.any (conditionHolds e op x)

section

variable {e : Engines} {w : World} {t : ScalarType} {op : CanonicalOp} {x : JsValue} {f : Field}

theorem sqlHolds_clause {key : String} (plain : strictPart key = true) (typed : Operand t op x) (row : Row) :
    sqlHolds e row (sqlClause key op x) = sqlCondition e op x (row key).sql := by
  have col := quoteColumn_name plain
  have column : sqlColumn row (quoteColumn key) = (row key).sql := by rw [col]; rfl
  by_cases special : op ∈ [.inList, .fullText, .fuzzy]
  · simp only [List.mem_cons, List.not_mem_nil, or_false] at special
    rcases special with rfl | rfl | rfl
    · obtain ⟨xs, rfl, _⟩ := typed
      cases xs with
      | nil =>
        change false = (row key).sql.any fun v => [].any (sqlCompare e .eq · v)
        cases (row key).sql <;> rfl
      | cons y ys =>
        change (sqlColumn row (quoteColumn key)).any _ = _
        rw [column]
        rfl
    · change (sqlColumn row (quoteColumn key)).any _ = _
      rw [column]
      rfl
    · change (sqlColumn row (quoteColumn key)).any _ = _
      rw [column]
      rfl
  · by_cases isEq : op = .eq ∧ x = .null
    · obtain ⟨rfl, rfl⟩ := isEq
      change (sqlColumn row (quoteColumn key)).isNone = _
      rw [column]
      rfl
    · by_cases isNe : op = .ne ∧ x = .null
      · obtain ⟨rfl, rfl⟩ := isNe
        change (sqlColumn row (quoteColumn key)).isSome = _
        rw [column]
        rfl
      · have operand : x ≠ .null ∨ op ∉ [.eq, .ne] := by
          by_cases null : x = .null
          · right
            simp only [List.mem_cons, List.not_mem_nil, or_false]
            rintro (rfl | rfl)
            · exact isEq ⟨rfl, null⟩
            · exact isNe ⟨rfl, null⟩
          · exact .inl null
        rw [sqlClause_compare special operand, sqlHolds, column, sqlCondition, if_neg isEq, if_neg isNe]
        cases op <;> first | rfl | exact absurd (by decide) special

theorem sqlSelects_iff {types : String → ScalarType} {filter : CanonicalFilter} (typed : Typed types filter) (row : Row) :
    sqlSelects e filter row = true ↔
      ∀ column ∈ filter.entries, ∀ c ∈ column.2.entries, sqlCondition e c.1 c.2 (row column.1).sql = true := by
  rw [sqlSelects, sqlClauses, List.all_eq_true]
  simp only [List.mem_flatMap, List.mem_map, forall_exists_index, and_imp]
  constructor
  · intro selects column inFilter c inOps
    have clause := selects _ column inFilter c inOps rfl
    rwa [sqlHolds_clause (typed.column column inFilter).1 (typed.operand column inFilter c inOps)] at clause
  · rintro holds _ column inFilter c inOps rfl
    rw [sqlHolds_clause (typed.column column inFilter).1 (typed.operand column inFilter c inOps)]
    exact holds column inFilter c inOps

theorem mongoKey_inj {op' : CanonicalOp} {key : MongoKey} (h : mongoKey op = some key) (h' : mongoKey op' = some key) :
    op = op' := by
  cases op <;> cases h <;> cases op' <;> first | rfl | exact absurd h' (by decide)

theorem key_cases (key : MongoKey) : key = .regex ∨ key = .options ∨ ∃ op, mongoKey op = some key := by
  cases key with
  | regex => exact .inl rfl
  | options => exact .inr (.inl rfl)
  | eq => exact .inr (.inr ⟨.eq, rfl⟩)
  | ne => exact .inr (.inr ⟨.ne, rfl⟩)
  | gt => exact .inr (.inr ⟨.gt, rfl⟩)
  | gte => exact .inr (.inr ⟨.gte, rfl⟩)
  | lt => exact .inr (.inr ⟨.lt, rfl⟩)
  | lte => exact .inr (.inr ⟨.lte, rfl⟩)
  | inList => exact .inr (.inr ⟨.inList, rfl⟩)
  | nin => exact .inr (.inr ⟨.nin, rfl⟩)

def lastPattern (conditions : List (CanonicalOp × JsValue)) : Option (CanonicalOp × JsValue) :=
  (conditions.filter fun c => (mongoKey c.1).isNone).getLast?

theorem lastPattern_concat (conditions : List (CanonicalOp × JsValue)) (c : CanonicalOp × JsValue) :
    lastPattern (conditions ++ [c]) = if (mongoKey c.1).isNone then some c else lastPattern conditions := by
  by_cases pattern : (mongoKey c.1).isNone = true
  · simp [lastPattern, pattern]
  · simp [lastPattern, pattern]

theorem lastPattern_mem {conditions : List (CanonicalOp × JsValue)} {c : CanonicalOp × JsValue}
    (last : lastPattern conditions = some c) : c ∈ conditions ∧ mongoKey c.1 = none := by
  have inside := List.mem_of_getLast? last
  rw [List.mem_filter, Option.isNone_iff_eq_none] at inside
  exact inside

theorem get?_operator {conditions : List (CanonicalOp × JsValue)} (distinct : (conditions.map Prod.fst).Nodup)
    {key : MongoKey} (known : mongoKey op = some key) :
    (conditions.foldl setOperator .empty).get? key = some x ↔ (op, x) ∈ conditions := by
  induction conditions using List.reverseRecOn with
  | nil => simp
  | append_singleton conditions c ih =>
    rw [List.map_append, List.map_singleton, List.nodup_append] at distinct
    have old := ih distinct.1
    rw [List.foldl_append, List.foldl_cons, List.foldl_nil, setOperator, List.mem_append, List.mem_singleton, ← old]
    cases other : mongoKey c.1 with
    | none =>
      have apart : key ≠ .options ∧ key ≠ .regex := by
        constructor
        · rintro rfl
          cases op <;> simp [mongoKey] at known
        · rintro rfl
          cases op <;> simp [mongoKey] at known
      have noOp : (op, x) ≠ c := by
        rintro rfl
        rw [known] at other
        cases other
      simp [apart, noOp]
    | some key' =>
      dsimp only
      rw [Record.get?_assign]
      by_cases same : key = key'
      · subst same
        have isOp := mongoKey_inj known other
        have noOld : ¬ (conditions.foldl setOperator .empty).get? key = some x := by
          rw [old]
          intro inside
          exact distinct.2.2 op (List.mem_map_of_mem inside) c.1 (List.mem_singleton_self _) isOp
        simp only [if_true, noOld, false_or, Option.some.injEq]
        constructor
        · rintro rfl
          exact Prod.ext isOp rfl
        · rintro rfl
          rfl
      · have noOp : (op, x) ≠ c := by
          rintro rfl
          rw [known] at other
          exact same (Option.some.inj other)
        simp [same, noOp]

theorem get?_pattern (conditions : List (CanonicalOp × JsValue)) :
    (conditions.foldl setOperator .empty).get? .regex =
        (lastPattern conditions).map (fun c => .str (regexText c.1 c.2)) ∧
      (conditions.foldl setOperator .empty).get? .options =
        (lastPattern conditions).map (fun c => .str (optionsText c.1)) := by
  induction conditions using List.reverseRecOn with
  | nil => exact ⟨rfl, rfl⟩
  | append_singleton conditions c ih =>
    rw [List.foldl_append, List.foldl_cons, List.foldl_nil, setOperator, lastPattern_concat]
    cases known : mongoKey c.1 with
    | none => simp
    | some key =>
      have apart : MongoKey.regex ≠ key ∧ MongoKey.options ≠ key := by
        generalize c.1 = op at known
        constructor
        · rintro rfl
          cases op <;> simp [mongoKey] at known
        · rintro rfl
          cases op <;> simp [mongoKey] at known
      simp [apart, ih]

def mongoCondition (e : Engines) (op : CanonicalOp) (x : JsValue) (f : Field) : Bool :=
  match mongoKey op with
  | some key => operatorHolds e (.str "") f key x
  | none => regexHolds e (optionsText op) (regexText op x) f

theorem operatorHolds_plain (options : JsValue) {key : MongoKey} (known : mongoKey op = some key) :
    operatorHolds e options f key x = mongoCondition e op x f := by
  rw [mongoCondition, known]
  cases key with
  | regex => cases op <;> simp [mongoKey] at known
  | _ => rfl

theorem fieldQuery_holds (ops : Record CanonicalOp JsValue) :
    (fieldQuery ops).holds e f = true ↔
      ∀ c ∈ ops.entries, (mongoKey c.1).isSome = true ∨ lastPattern ops.entries = some c →
        mongoCondition e c.1 c.2 f = true := by
  unfold fieldQuery
  split
  case h_1 x single =>
    rw [single]
    change equals x f = true ↔ _
    simp only [List.mem_singleton, forall_eq]
    constructor
    · intro holds _
      exact holds
    · intro holds
      exact holds (.inl rfl)
  case h_2 =>
    have pattern := get?_pattern ops.entries
    rw [FieldQuery.holds, List.all_eq_true]
    constructor
    · intro holds c inOps counts
      cases known : mongoKey c.1 with
      | some key =>
        have entry := (Record.get?_eq_some_iff _ _ _).mp ((get?_operator ops.distinct known).mpr inOps)
        have held := holds _ entry
        rwa [operatorHolds_plain _ known] at held
      | none =>
        have last : lastPattern ops.entries = some c := by
          rcases counts with plain | last
          · rw [known] at plain
            cases plain
          · exact last
        rw [last] at pattern
        have entry := (Record.get?_eq_some_iff _ _ _).mp pattern.1
        have held := holds _ entry
        rw [pattern.2] at held
        rw [mongoCondition, known]
        exact held
    · rintro holds ⟨key, x⟩ entry
      have found := (Record.get?_eq_some_iff _ _ _).mpr entry
      rcases key_cases key with rfl | rfl | ⟨op, known⟩
      · rw [pattern.1] at found
        obtain ⟨c, last, rfl⟩ := Option.map_eq_some_iff.mp found
        obtain ⟨inOps, known⟩ := lastPattern_mem last
        have held := holds c inOps (.inr last)
        rw [mongoCondition, known] at held
        rw [pattern.2, last]
        exact held
      · rfl
      · have inOps := (get?_operator ops.distinct known).mp found
        rw [operatorHolds_plain _ known]
        exact holds _ inOps (.inl (by rw [known]; rfl))

theorem get?_mongoMatch {filter : CanonicalFilter} (plain : ∀ column ∈ filter.entries, column.1 ≠ "__proto__")
    (key : String) : (mongoMatch filter).get? key = (filter.get? key).map fieldQuery := by
  have same : mongoMatch filter =
      filter.entries.foldl (fun found column => found.assign column.1 (fieldQuery column.2)) .empty := by
    apply List.foldl_ext
    intro found column inFilter
    exact if_neg (plain column inFilter)
  rw [same, Record.get?_foldl_update (fun _ _ ops => fieldQuery ops) filter.distinct, Record.get?_empty,
    Option.or_none]
  rfl

theorem mongoSelects_iff {filter : CanonicalFilter} (plain : ∀ column ∈ filter.entries, column.1 ≠ "__proto__")
    (row : Row) :
    mongoSelects e filter row = true ↔
      ∀ column ∈ filter.entries, (fieldQuery column.2).holds e (row column.1) = true := by
  rw [mongoSelects, List.all_eq_true]
  constructor
  · rintro selects ⟨key, ops⟩ inFilter
    have held := (filter.get?_eq_some_iff key ops).mpr inFilter
    have found := get?_mongoMatch plain key
    rw [held] at found
    exact selects _ ((Record.get?_eq_some_iff _ _ _).mp found)
  · rintro holds ⟨key, query⟩ entry
    have found := (Record.get?_eq_some_iff _ _ _).mpr entry
    rw [get?_mongoMatch plain] at found
    obtain ⟨ops, held, rfl⟩ := Option.map_eq_some_iff.mp found
    exact holds _ ((filter.get?_eq_some_iff key ops).mp held)

theorem escapeRegex_toList (s : String) : (escapeRegex s).toList = s.toList.flatMap escaped := by
  rw [escapeRegex, String.toList_ofList]

theorem wildcards_replaced (s : String) :
    (replaceAll '_' "." (replaceAll '%' ".*" (escapeRegex s))).toList = s.toList.flatMap encoded := by
  simp only [replaceAll, String.toList_ofList, escapeRegex_toList, List.flatMap_assoc]
  congr 1
  funext c
  unfold escaped encoded
  by_cases special : c ∈ metaChars
  · have apart : c ≠ '%' ∧ c ≠ '_' := by
      constructor
      · rintro rfl
        exact absurd special (by decide)
      · rintro rfl
        exact absurd special (by decide)
    simp [special, apart, escaped]
  · by_cases run : c = '%'
    · subst run
      rfl
    · by_cases single : c = '_'
      · subst single
        rfl
      · simp [special, run, single, escaped]

example : regexText .like (.str "a.b_%") = "^a\\.b..*$" := by decide

theorem regexHolds_like (isLike : op = .like ∨ op = .ilike) (s : String) :
    regexHolds e (optionsText op) (regexText op x) (.value (.text s)) =
      Regex.finds (if op = .like then id else e.fold) ⟨true, x.text.toList.map plainPiece, true⟩ s.toList := by
  have expression : (regexText op x).toList = '^' :: (x.text.toList.flatMap encoded ++ ['$']) := by
    have text : regexText op x = "^" ++ replaceAll '_' "." (replaceAll '%' ".*" (escapeRegex x.text)) ++ "$" := by
      rcases isLike with rfl | rfl <;> rfl
    rw [text, String.toList_append, String.toList_append, wildcards_replaced]
    rfl
  rw [regexHolds, expression, parseRegex_encoded]
  rcases isLike with rfl | rfl <;> rfl

theorem regexHolds_text (isText : op = .fullText ∨ op = .fuzzy) (s : String) :
    regexHolds e (optionsText op) (regexText op x) (.value (.text s)) =
      Regex.finds e.fold ⟨false, x.text.toList.map .exactly, false⟩ s.toList := by
  have expression : (regexText op x).toList = x.text.toList.flatMap escaped := by
    have text : regexText op x = escapeRegex x.text := by
      rcases isText with rfl | rfl <;> rfl
    rw [text, escapeRegex_toList]
  rw [regexHolds, expression, parseRegex_escapedText]
  rcases isText with rfl | rfl <;> rfl

theorem scalar_not_null {v : Scalar} (operand : scalarOf x = some v) : x ≠ .null ∧ x.isNullish = false := by
  have notNull : x ≠ .null := by
    rintro rfl
    cases operand
  refine ⟨notNull, ?_⟩
  unfold JsValue.isNullish
  split
  · cases operand
  · exact absurd rfl notNull
  · rfl

theorem scalarOf_text {s : String} (operand : scalarOf x = some (.text s)) : x = .str s := by
  unfold scalarOf at operand
  split at operand <;> simp_all

theorem less_eq {before : String → String → Bool} {u v : Scalar}
    (texts : ∀ s r, u = .text s → v = .text r → before s r = decide (s < r)) : less before u v = codeLess u v := by
  cases u with
  | flag a => cases v <;> rfl
  | number q => cases v <;> rfl
  | text s =>
    cases v with
    | text r => exact texts s r rfl rfl
    | _ => rfl

theorem above_eq {u v : Scalar} (collates : Collates e w x) (operand : scalarOf x = some u)
    (allowed : ∀ s, v = .text s → w.allows s) : less e.before u v = codeLess u v := by
  apply less_eq
  rintro s r rfl rfl
  exact collates s (scalarOf_text operand) r (allowed r rfl)

theorem below_eq {u v : Scalar} (collates : CollatesBelow e w x) (operand : scalarOf x = some u)
    (allowed : ∀ s, v = .text s → w.allows s) : less e.before v u = codeLess v u := by
  apply less_eq
  rintro s r rfl rfl
  exact collates r (scalarOf_text operand) s (allowed s rfl)

theorem eq_agrees (typed : OfType t x) : sqlCondition e .eq x f.sql = equals x f := by
  rcases typed with rfl | ⟨u, operand, _⟩
  · cases f <;> rfl
  · have notNull := scalar_not_null operand
    have plain : sqlCondition e .eq x f.sql = f.sql.any (sqlCompare e .eq x) := by
      simp only [sqlCondition, notNull.1, and_false, if_false]
      rfl
    rw [plain]
    cases f with
    | missing => exact notNull.2.symm
    | null => exact notNull.2.symm
    | value v => simp [Field.sql, sqlCompare, equals, operand, eq_comm]

theorem ne_agrees (typed : OfType t x) (fits : w.nulls = false ∨ x = .null) (has : w.Has t f) :
    sqlCondition e .ne x f.sql = !equals x f := by
  rcases typed with rfl | ⟨u, operand, _⟩
  · cases f <;> rfl
  · have notNull := scalar_not_null operand
    have plain : sqlCondition e .ne x f.sql = f.sql.any (sqlCompare e .ne x) := by
      simp only [sqlCondition, notNull.1, and_false, if_false]
      rfl
    have noNulls : w.nulls ≠ true := by simp [fits.resolve_right notNull.1]
    rw [plain]
    cases f with
    | missing => exact absurd has noNulls
    | null => exact absurd has noNulls
    | value v => simp [Field.sql, sqlCompare, equals, operand, eq_comm]

theorem order_agrees (cmp : CompareOp) (order code : Scalar → Scalar → Bool) (orEqual : Bool) (typed : OfType t x)
    (sql : ∀ u v, scalarOf x = some u → sqlCompare e cmp x v = (order u v || orEqual && decide (v = u)))
    (same : ∀ u v, scalarOf x = some u → (∀ s, v = .text s → w.allows s) → order u v = code u v)
    (fits : orEqual = true → w.nulls = false ∨ x ≠ .null) (has : w.Has t f) :
    f.sql.any (sqlCompare e cmp x) = (precedes x f code || orEqual && equals x f) := by
  rcases typed with rfl | ⟨u, operand, _⟩
  · cases orEqual with
    | false => cases f <;> rfl
    | true =>
      have noNulls : w.nulls ≠ true := by simp [(fits rfl).resolve_right fun null => null rfl]
      cases f with
      | missing => exact absurd has noNulls
      | null => exact absurd has noNulls
      | value v => rfl
  · have notNull := scalar_not_null operand
    cases f with
    | missing => simp [Field.sql, precedes, equals, notNull.2]
    | null => simp [Field.sql, precedes, equals, notNull.2]
    | value v =>
      change sqlCompare e cmp x v = _
      rw [sql u v operand, same u v operand has.2]
      simp [precedes, equals, operand, eq_comm]

theorem in_agrees {xs : List JsValue} (typed : ∀ y ∈ xs, OfType t y) (fits : w.nulls = false ∨ JsValue.null ∉ xs)
    (has : w.Has t f) : (f.sql.any fun v => xs.any (sqlCompare e .eq · v)) = xs.any (equals · f) := by
  have nothing : w.nulls = true → xs.any JsValue.isNullish = false := by
    intro nulls
    have noNull : JsValue.null ∉ xs := fits.resolve_left (by simp [nulls])
    rw [List.any_eq_false]
    intro y inside
    rcases typed y inside with rfl | ⟨u, operand, _⟩
    · exact absurd inside noNull
    · rw [(scalar_not_null operand).2]
      exact Bool.noConfusion
  cases f with
  | missing => exact (nothing has).symm
  | null => exact (nothing has).symm
  | value v =>
    change (xs.any fun y => sqlCompare e .eq y v) = xs.any fun y => decide (scalarOf y = some v)
    congr 1
    funext y
    cases operand : scalarOf y <;> simp [sqlCompare, operand, eq_comm]

end

def folding (e : Engines) (op : CanonicalOp) : Char → Char := if op = .like then id else e.fold

theorem folding_keeps (e : Engines) (op : CanonicalOp) {c : Char} (special : c ∈ ['%', '_', '\\', '\n']) :
    Keeps (folding e op) c := by
  unfold folding
  split_ifs
  · intro d same
    exact same
  · exact e.keeps c special

theorem allows_of_chars {s p : List Char} (w : World) (noFeed : w.lineFeeds = true ∨ '\n' ∉ p)
    (chars : ∀ c ∈ s, c = 'a' ∨ c ∈ p) : w.allows (String.ofList s) := by
  rcases noFeed with feeds | noFeed
  · exact .inl feeds
  · right
    rw [String.toList_ofList]
    intro inside
    rcases chars _ inside with same | inPattern
    · exact absurd same (by decide)
    · exact noFeed inPattern

section

variable {e : Engines} {w : World} {op : CanonicalOp} {x : JsValue} {f : Field}

theorem text_fields (sql mongo : Field → Bool) (nothing : ∀ f : Field, f.sql = none → sql f = mongo f)
    (texts : ∀ s, w.allows s → sql (.value (.text s)) = mongo (.value (.text s))) (has : w.Has .text f) :
    sql f = mongo f := by
  cases f with
  | missing => exact nothing _ rfl
  | null => exact nothing _ rfl
  | value v =>
    cases v with
    | flag b => cases has.1
    | number q => cases has.1
    | text s => exact texts s (has.2 s rfl)

theorem sql_like (isLike : op = .like ∨ op = .ilike) (s : String) :
    sqlCondition e op x (some (.text s)) = ((scalarOf x).isSome && like (folding e op) x.text.toList s.toList) := by
  rcases isLike with rfl | rfl
  · change (scalarOf x).any _ = _
    cases scalarOf x <;> rfl
  · change (scalarOf x).any _ = _
    cases scalarOf x <;> rfl

theorem mongo_like (isLike : op = .like ∨ op = .ilike) (s : String) :
    mongoCondition e op x (.value (.text s)) =
      Regex.finds (folding e op) ⟨true, x.text.toList.map plainPiece, true⟩ s.toList := by
  rw [folding, ← regexHolds_like isLike]
  rcases isLike with rfl | rfl <;> rfl

theorem like_agrees (isLike : op = .like ∨ op = .ilike) (operand : x = .null ∨ ∃ v, scalarOf x = some v)
    (fits : w.lineFeeds = false ∧ x ≠ .null ∧ ('\\' ∉ x.text.toList ∨ '\n' ∈ x.text.toList))
    (has : w.Has .text f) : sqlCondition e op x f.sql = mongoCondition e op x f := by
  obtain ⟨u, known⟩ := operand.resolve_left fits.2.1
  apply text_fields (fun f => sqlCondition e op x f.sql) _ _ _ has
  · intro f nothing
    rw [nothing]
    cases f with
    | value v => cases nothing
    | _ => rcases isLike with rfl | rfl <;> rfl
  · intro s allowed
    have noFeed : '\n' ∉ s.toList := allowed.resolve_left (by simp [fits.1])
    dsimp only [Field.sql]
    rw [sql_like isLike, mongo_like isLike, known, Option.isSome_some, Bool.true_and]
    rcases fits.2.2 with noEscape | feed
    · exact (anchored_eq_like noEscape noFeed).symm
    · rw [like_of_feed (folding_keeps e op (by decide)) feed noFeed]
      symm
      apply finds_of_feed (folding_keeps e op (by decide)) _ noFeed
      exact List.mem_map.mpr ⟨'\n', feed, rfl⟩

theorem like_differs (isLike : op = .like ∨ op = .ilike) (operand : x = .null ∨ ∃ v, scalarOf x = some v)
    (unfit : ¬ (w.lineFeeds = false ∧ x ≠ .null ∧ ('\\' ∉ x.text.toList ∨ '\n' ∈ x.text.toList))) :
    ∃ s, w.allows s ∧ sqlCondition e op x (some (.text s)) ≠ mongoCondition e op x (.value (.text s)) := by
  rcases operand with rfl | ⟨u, known⟩
  · refine ⟨"null", .inr (by decide), ?_⟩
    have found := finds_sample (folding e op) ⟨true, "null".toList.map plainPiece, true⟩
    have text : sample [] ("null".toList.map plainPiece) = "null".toList := by decide
    rw [text] at found
    rw [sql_like isLike, mongo_like isLike]
    change false ≠ Regex.finds _ ⟨true, "null".toList.map plainPiece, true⟩ "null".toList
    rw [found]
    exact Bool.noConfusion
  · have notNull := (scalar_not_null known).1
    have differ : ∀ s, Regex.finds (folding e op) ⟨true, x.text.toList.map plainPiece, true⟩ s ≠
        like (folding e op) x.text.toList s →
        sqlCondition e op x (some (.text (String.ofList s))) ≠
          mongoCondition e op x (.value (.text (String.ofList s))) := by
      intro s apart
      rw [sql_like isLike, mongo_like isLike, known, Option.isSome_some, Bool.true_and, String.toList_ofList]
      exact apart.symm
    by_cases escape : '\\' ∈ x.text.toList
    · have noFeed : w.lineFeeds = true ∨ '\n' ∉ x.text.toList := by
        by_contra both
        simp only [not_or, not_not, Bool.not_eq_true] at both
        exact unfit ⟨both.1, notNull, .inr both.2⟩
      obtain ⟨s, chars, apart⟩ := escape_differs (folding_keeps e op (by decide)) escape
        ⟨true, x.text.toList.map plainPiece, true⟩ (demand_plain rfl rfl _)
      refine ⟨String.ofList s, allows_of_chars w noFeed ?_, differ s apart⟩
      intro c inside
      exact (chars c inside).imp_right fun h => h.elim id fun spelled => (mem_plain spelled).1
    · have feeds : w.lineFeeds = true := by
        by_contra none
        rw [Bool.not_eq_true] at none
        exact unfit ⟨none, notNull, .inl escape⟩
      obtain ⟨s, apart⟩ := feed_differs (folding_keeps e op (by decide)) escape
      exact ⟨String.ofList s, .inl feeds, differ s apart⟩

theorem sql_text (isText : op = .fullText ∨ op = .fuzzy) (s : String) :
    sqlCondition e op x (some (.text s)) = like e.fold ('%' :: x.text.toList ++ ['%']) s.toList := by
  have pattern : ("%" ++ x.text ++ "%").toList = '%' :: x.text.toList ++ ['%'] := by
    rw [String.toList_append, String.toList_append]
    rfl
  rw [← pattern]
  rcases isText with rfl | rfl <;> rfl

theorem mongo_text (isText : op = .fullText ∨ op = .fuzzy) (s : String) :
    mongoCondition e op x (.value (.text s)) =
      Regex.finds e.fold ⟨false, x.text.toList.map .exactly, false⟩ s.toList := by
  rw [← regexHolds_text isText]
  rcases isText with rfl | rfl <;> rfl

theorem text_agrees (isText : op = .fullText ∨ op = .fuzzy)
    (fits : (∀ c ∈ x.text.toList, c ∉ ['%', '_', '\\']) ∨ w.lineFeeds = false ∧ '\n' ∈ x.text.toList)
    (has : w.Has .text f) : sqlCondition e op x f.sql = mongoCondition e op x f := by
  apply text_fields (fun f => sqlCondition e op x f.sql) _ _ _ has
  · intro f nothing
    rw [nothing]
    cases f with
    | value v => cases nothing
    | _ => rcases isText with rfl | rfl <;> rfl
  · intro s allowed
    dsimp only [Field.sql]
    rw [sql_text isText, mongo_text isText]
    rcases fits with plain | ⟨noFeeds, feed⟩
    · exact (substring_eq_like plain).symm
    · have noFeed : '\n' ∉ s.toList := allowed.resolve_left (by simp [noFeeds])
      rw [like_of_feed (e.keeps _ (by decide)) (List.mem_append_left _ (List.mem_cons_of_mem _ feed)) noFeed]
      symm
      apply finds_of_feed (e.keeps _ (by decide)) _ noFeed
      exact List.mem_map.mpr ⟨'\n', feed, rfl⟩

theorem text_differs (isText : op = .fullText ∨ op = .fuzzy)
    (unfit : ¬ ((∀ c ∈ x.text.toList, c ∉ ['%', '_', '\\']) ∨ w.lineFeeds = false ∧ '\n' ∈ x.text.toList)) :
    ∃ s, w.allows s ∧ sqlCondition e op x (some (.text s)) ≠ mongoCondition e op x (.value (.text s)) := by
  rw [not_or] at unfit
  have special : ∃ c ∈ x.text.toList, c ∈ ['%', '_', '\\'] := by
    by_contra none
    apply unfit.1
    intro c inside isSpecial
    exact none ⟨c, inside, isSpecial⟩
  have noFeed : w.lineFeeds = true ∨ '\n' ∉ '%' :: x.text.toList ++ ['%'] := by
    by_contra both
    simp only [not_or, not_not, Bool.not_eq_true] at both
    apply unfit.2
    simpa using both
  have keeps : ∀ c ∈ ['%', '_', '\\'], Keeps e.fold c := by
    intro c isSpecial
    apply e.keeps c
    simp only [List.mem_cons, List.not_mem_nil, or_false] at isSpecial ⊢
    tauto
  obtain ⟨s, chars, apart⟩ := substring_differs keeps special
  refine ⟨String.ofList s, allows_of_chars w noFeed chars, ?_⟩
  rw [sql_text isText, mongo_text isText, String.toList_ofList]
  exact apart.symm

theorem condition_agrees {t : ScalarType} (typed : Operand t op x) (fits : ConditionFits e w op x) (has : w.Has t f) :
    sqlCondition e op x f.sql = mongoCondition e op x f := by
  cases op with
  | eq => exact eq_agrees typed
  | ne => exact ne_agrees typed fits has
  | gt =>
    have compared := order_agrees (e := e) .gt (less e.before) codeLess false typed
      (fun u v known => by simp [sqlCompare, known]) (fun u v known allowed => above_eq fits known allowed) nofun has
    rwa [Bool.false_and, Bool.or_false] at compared
  | gte =>
    exact order_agrees .gte (less e.before) codeLess true typed (fun u v known => by simp [sqlCompare, known])
      (fun u v known allowed => above_eq fits.2 known allowed) (fun _ => fits.1) has
  | lt =>
    have compared := order_agrees (e := e) .lt (fun u v => less e.before v u) (fun u v => codeLess v u) false typed
      (fun u v known => by simp [sqlCompare, known]) (fun u v known allowed => below_eq fits known allowed) nofun has
    rwa [Bool.false_and, Bool.or_false] at compared
  | lte =>
    exact order_agrees .lte (fun u v => less e.before v u) (fun u v => codeLess v u) true typed
      (fun u v known => by simp [sqlCompare, known])
      (fun u v known allowed => below_eq fits.2 known allowed) (fun _ => fits.1) has
  | inList =>
    obtain ⟨xs, rfl, typed⟩ := typed
    exact in_agrees typed fits has
  | nin => exact absurd typed id
  | like =>
    obtain ⟨rfl, operand⟩ := typed
    exact like_agrees (.inl rfl) operand fits has
  | ilike =>
    obtain ⟨rfl, operand⟩ := typed
    exact like_agrees (.inr rfl) operand fits has
  | fullText =>
    obtain ⟨rfl, _⟩ := typed
    exact text_agrees (.inl rfl) fits has
  | fuzzy =>
    obtain ⟨rfl, _⟩ := typed
    exact text_agrees (.inr rfl) fits has

theorem or_equal_differs {s r : String} {sql mongo : Bool} (equal : s = r → sql = mongo) (apart : sql ≠ mongo) :
    (sql || decide (Scalar.text r = .text s)) ≠ (mongo || decide (some (Scalar.text s) = some (.text r))) := by
  by_cases same : s = r
  · exact absurd (equal same) apart
  · simpa [same, Ne.symm same] using apart

theorem condition_differs {t : ScalarType} (typed : Operand t op x) (unfit : ¬ ConditionFits e w op x) :
    ∃ f, w.Has t f ∧ sqlCondition e op x f.sql ≠ mongoCondition e op x f := by
  have nullField : ¬ (w.nulls = false ∨ ¬ x = .null) → w.Has t .null ∧ x = .null := by
    intro h
    simp only [not_or, not_not, Bool.not_eq_false] at h
    exact h
  have texts : ∀ r, w.allows r → w.Has .text (.value (.text r)) := by
    intro r allowed
    refine ⟨rfl, fun _ same => ?_⟩
    cases same
    exact allowed
  have textField : ∀ s r, x = .str s → OfType t x → w.allows r → w.Has t (.value (.text r)) := by
    rintro s r rfl (null | ⟨u, known, rfl⟩) allowed
    · cases null
    · cases known
      exact texts r allowed
  cases op with
  | eq => exact absurd trivial unfit
  | ne =>
    simp only [ConditionFits, not_or, Bool.not_eq_false] at unfit
    refine ⟨.null, unfit.1, ?_⟩
    rcases typed with null | ⟨u, known, _⟩
    · exact absurd null unfit.2
    · have plain : sqlCondition e .ne x none = false := by
        simp only [sqlCondition, (scalar_not_null known).1, and_false, if_false]
        rfl
      change sqlCondition e .ne x none ≠ !x.isNullish
      rw [plain, (scalar_not_null known).2]
      exact Bool.noConfusion
  | gt =>
    simp only [ConditionFits, Collates, not_forall] at unfit
    obtain ⟨s, rfl, r, allowed, apart⟩ := unfit
    exact ⟨.value (.text r), textField s r rfl typed allowed, apart⟩
  | gte =>
    rw [ConditionFits, not_and_or] at unfit
    rcases unfit with null | collation
    · obtain ⟨has, rfl⟩ := nullField null
      exact ⟨.null, has, Bool.noConfusion⟩
    · simp only [Collates, not_forall] at collation
      obtain ⟨s, rfl, r, allowed, apart⟩ := collation
      refine ⟨.value (.text r), textField s r rfl typed allowed, or_equal_differs ?_ apart⟩
      rintro rfl
      exact (e.before_irrefl s).trans (decide_eq_false (String.lt_irrefl s)).symm
  | lt =>
    simp only [ConditionFits, CollatesBelow, not_forall] at unfit
    obtain ⟨s, rfl, r, allowed, apart⟩ := unfit
    exact ⟨.value (.text r), textField s r rfl typed allowed, apart⟩
  | lte =>
    rw [ConditionFits, not_and_or] at unfit
    rcases unfit with null | collation
    · obtain ⟨has, rfl⟩ := nullField null
      exact ⟨.null, has, Bool.noConfusion⟩
    · simp only [CollatesBelow, not_forall] at collation
      obtain ⟨s, rfl, r, allowed, apart⟩ := collation
      refine ⟨.value (.text r), textField s r rfl typed allowed, or_equal_differs ?_ apart⟩
      rintro rfl
      exact (e.before_irrefl s).trans (decide_eq_false (String.lt_irrefl s)).symm
  | inList =>
    obtain ⟨xs, rfl, typed⟩ := typed
    simp only [ConditionFits, not_or, not_not, Bool.not_eq_false] at unfit
    refine ⟨.null, unfit.1, ?_⟩
    have found : xs.any JsValue.isNullish = true := List.any_eq_true.mpr ⟨.null, unfit.2, rfl⟩
    change false ≠ xs.any JsValue.isNullish
    rw [found]
    exact Bool.noConfusion
  | nin => exact absurd typed id
  | like =>
    obtain ⟨rfl, operand⟩ := typed
    obtain ⟨s, allowed, apart⟩ := like_differs (.inl rfl) operand unfit
    exact ⟨.value (.text s), texts s allowed, apart⟩
  | ilike =>
    obtain ⟨rfl, operand⟩ := typed
    obtain ⟨s, allowed, apart⟩ := like_differs (.inr rfl) operand unfit
    exact ⟨.value (.text s), texts s allowed, apart⟩
  | fullText =>
    obtain ⟨rfl, _⟩ := typed
    obtain ⟨s, allowed, apart⟩ := text_differs (.inl rfl) unfit
    exact ⟨.value (.text s), texts s allowed, apart⟩
  | fuzzy =>
    obtain ⟨rfl, _⟩ := typed
    obtain ⟨s, allowed, apart⟩ := text_differs (.inr rfl) unfit
    exact ⟨.value (.text s), texts s allowed, apart⟩

end

section

variable {e : Engines} {w : World} {types : String → ScalarType} {filter part : CanonicalFilter}

theorem Typed.narrow (typed : Typed types filter) (narrows : Narrows part filter) : Typed types part where
  column column inPart := by
    obtain ⟨_, ops, inFilter, _⟩ := narrows column inPart
    exact typed.column (column.1, ops) inFilter
  operators column inPart := (narrows column inPart).1
  operand column inPart c inOps := by
    obtain ⟨_, ops, inFilter, sub⟩ := narrows column inPart
    exact typed.operand (column.1, ops) inFilter c (sub.subset inOps)

theorem Fits.narrow (fits : Fits e w filter) (narrows : Narrows part filter) : Fits e w part where
  condition column inPart c inOps := by
    obtain ⟨_, ops, inFilter, sub⟩ := narrows column inPart
    exact fits.condition _ inFilter c (sub.subset inOps)
  patterns column inPart := by
    obtain ⟨_, ops, inFilter, sub⟩ := narrows column inPart
    exact (fits.patterns _ inFilter).sublist sub

theorem pattern_typed {t : ScalarType} {op : CanonicalOp} {x : JsValue} (pattern : mongoKey op = none)
    (typed : Operand t op x) : t = .text := by
  cases op with
  | like => exact typed.1
  | ilike => exact typed.1
  | fullText => exact typed.1
  | fuzzy => exact typed.1
  | _ => cases pattern

theorem sqlCondition_pattern {op : CanonicalOp} (pattern : mongoKey op = none) (x : JsValue) (v : Option Scalar) :
    sqlCondition e op x v = v.any (conditionHolds e op x) := by
  cases op with
  | like => rfl
  | ilike => rfl
  | fullText => rfl
  | fuzzy => rfl
  | _ => cases pattern

theorem pattern_text {t : ScalarType} {op : CanonicalOp} {x : JsValue} {f : Field} (pattern : mongoKey op = none)
    (typed : Operand t op x) (has : w.Has t f) (holds : sqlCondition e op x f.sql = true) :
    ∃ s, f = .value (.text s) ∧ w.allows s := by
  obtain rfl := pattern_typed pattern typed
  rw [sqlCondition_pattern pattern] at holds
  cases f with
  | missing => cases holds
  | null => cases holds
  | value v =>
    cases v with
    | flag b => cases has.1
    | number q => cases has.1
    | text s => exact ⟨s, rfl, has.2 s rfl⟩

theorem patterns_of_last {conditions : List (CanonicalOp × JsValue)} (implied : conditions.Pairwise (Implied e w))
    {c last : CanonicalOp × JsValue} (inside : c ∈ conditions) (pattern : mongoKey c.1 = none)
    (isLast : lastPattern conditions = some last) : c = last ∨ Implied e w c last := by
  obtain ⟨before, split⟩ := List.getLast?_eq_some_iff.mp isLast
  have ordered := implied.sublist (List.filter_sublist (p := fun c => (mongoKey c.1).isNone))
  have kept : c ∈ conditions.filter fun c => (mongoKey c.1).isNone :=
    List.mem_filter.mpr ⟨inside, by rw [pattern]; rfl⟩
  rw [split] at ordered kept
  rcases List.mem_append.mp kept with earlier | same
  · exact .inr ((List.pairwise_append.mp ordered).2.2 c earlier last (List.mem_singleton_self _))
  · exact .inl (List.mem_singleton.mp same)

theorem exists_lastPattern {conditions : List (CanonicalOp × JsValue)} {c : CanonicalOp × JsValue}
    (inside : c ∈ conditions) (pattern : mongoKey c.1 = none) : ∃ last, lastPattern conditions = some last := by
  have kept : c ∈ conditions.filter fun c => (mongoKey c.1).isNone :=
    List.mem_filter.mpr ⟨inside, by rw [pattern]; rfl⟩
  exact ⟨_, List.getLast?_eq_some_getLast (List.ne_nil_of_mem kept)⟩

theorem agree_of_fits (typed : Typed types filter) (fits : Fits e w filter) : Agree e w types filter := by
  intro row inWorld
  have same : ∀ column ∈ filter.entries, ∀ c ∈ column.2.entries,
      sqlCondition e c.1 c.2 (row column.1).sql = mongoCondition e c.1 c.2 (row column.1) := by
    intro column inFilter c inOps
    exact condition_agrees (typed.operand column inFilter c inOps) (fits.condition column inFilter c inOps)
      (inWorld column.1)
  rw [Bool.eq_iff_iff, sqlSelects_iff typed, mongoSelects_iff fun column inFilter => (typed.column column inFilter).2]
  constructor
  · intro holds column inFilter
    rw [fieldQuery_holds]
    intro c inOps _
    rw [← same column inFilter c inOps]
    exact holds column inFilter c inOps
  · intro holds column inFilter c inOps
    have held := (fieldQuery_holds column.2).mp (holds column inFilter)
    cases known : mongoKey c.1 with
    | some key =>
      rw [same column inFilter c inOps]
      exact held c inOps (.inl (by rw [known]; rfl))
    | none =>
      obtain ⟨last, isLast⟩ := exists_lastPattern inOps known
      obtain ⟨inLast, lastKnown⟩ := lastPattern_mem isLast
      have lastHolds := held last inLast (.inr isLast)
      rw [← same column inFilter last inLast] at lastHolds
      rcases patterns_of_last (fits.patterns column inFilter) inOps known isLast with rfl | implied
      · exact lastHolds
      · obtain ⟨s, isText, allowed⟩ := pattern_text lastKnown (typed.operand column inFilter last inLast)
          (inWorld column.1) lastHolds
        rw [isText, sqlCondition_pattern lastKnown] at lastHolds
        rw [isText, sqlCondition_pattern known]
        exact implied known lastKnown s allowed lastHolds

def defaultField : ScalarType → Field
  | .flag => .value (.flag false)
  | .number => .value (.number 0)
  | .text => .value (.text "")

theorem has_defaultField (w : World) (t : ScalarType) : w.Has t (defaultField t) := by
  cases t with
  | flag => exact ⟨rfl, nofun⟩
  | number => exact ⟨rfl, nofun⟩
  | text =>
    refine ⟨rfl, fun s same => ?_⟩
    cases same
    exact .inr List.not_mem_nil

def single (key : String) (ops : Record CanonicalOp JsValue) : CanonicalFilter := ⟨[(key, ops)], List.nodup_singleton _⟩

theorem agree_single {key : String} {ops : Record CanonicalOp JsValue} (typed : Typed types (single key ops))
    (agree : Agree e w types (single key ops)) {f : Field} (has : w.Has (types key) f) :
    (∀ c ∈ ops.entries, sqlCondition e c.1 c.2 f.sql = true) ↔ (fieldQuery ops).holds e f = true := by
  let row : Row := fun column => if column = key then f else defaultField (types column)
  have inWorld : ∀ column, w.Has (types column) (row column) := by
    intro column
    by_cases same : column = key
    · subst same
      simpa [row] using has
    · simpa [row, same] using has_defaultField w (types column)
  have agreed := agree row inWorld
  rw [Bool.eq_iff_iff, sqlSelects_iff typed, mongoSelects_iff fun column inFilter => (typed.column column inFilter).2]
    at agreed
  simpa [single, row] using agreed

theorem fieldQuery_one (c : CanonicalOp × JsValue) (nodup : ([c].map Prod.fst).Nodup) (f : Field) :
    (fieldQuery ⟨[c], nodup⟩).holds e f = mongoCondition e c.1 c.2 f := by
  have counts : (mongoKey c.1).isSome = true ∨ lastPattern [c] = some c := by
    cases known : mongoKey c.1 with
    | some key => exact .inl rfl
    | none => simp [lastPattern, known]
  rw [Bool.eq_iff_iff, fieldQuery_holds]
  simp only [List.mem_singleton, forall_eq]
  constructor
  · intro held
    exact held counts
  · intro held _
    exact held

theorem fieldQuery_patterns {a b : CanonicalOp × JsValue} (nodup : ([a, b].map Prod.fst).Nodup)
    (first : mongoKey a.1 = none) (last : mongoKey b.1 = none) (f : Field) :
    (fieldQuery ⟨[a, b], nodup⟩).holds e f = mongoCondition e b.1 b.2 f := by
  have isLast : lastPattern [a, b] = some b := by simp [lastPattern, first, last]
  rw [Bool.eq_iff_iff, fieldQuery_holds]
  constructor
  · intro held
    exact held b (by simp) (.inr isLast)
  · intro held c _ counts
    rcases counts with plain | same
    · have isPattern : mongoKey c.1 = none := by
        have inside : c ∈ [a, b] := by assumption
        simp only [List.mem_cons, List.not_mem_nil, or_false] at inside
        rcases inside with rfl | rfl <;> assumption
      rw [isPattern] at plain
      cases plain
    · obtain rfl := Option.some.inj (isLast.symm.trans same)
      exact held

end

/-- Letters are themselves, texts are in the order of their code points. -/
def byCode : Engines where
  fold := id
  keeps _ _ _ same := same
  before s r := s < r
  before_irrefl s := decide_eq_false (String.lt_irrefl s)

def priceRange : CanonicalFilter := single "price" ⟨[(.gt, .num 10), (.lt, .num 20)], by decide⟩

def notClosed : CanonicalFilter := single "status" ⟨[(.ne, .str "closed")], List.nodup_singleton _⟩

end DataFabric.DocumentFilters
