import DataFabric.RowConstraints

set_option autoImplicit false

/-! # What validation decides about the collection after a write -/
namespace DataFabric.RowConstraints
open JsValues

variable {js : Language} {store : Store} {fkExists : ForeignKey → JsValue → Bool} {spec : ConstraintSpec} {path : Path}
  {docs rows : List Doc} {row d data : Doc} {op : Op} {column : String}

theorem get_of_not_has (absent : d.has column = false) : d.get column = .undefined := by
  unfold Doc.has at absent
  unfold Doc.get
  rw [Option.isSome_eq_false_iff, Option.isNone_iff_eq_none] at absent
  rw [absent]
  rfl

theorem has_of_get (given : (d.get column).isNullish = false) : d.has column = true := by
  cases has : d.has column with
  | true => rfl
  | false =>
    rw [get_of_not_has has] at given
    cases given

theorem given_eq (d : Doc) (column : String) :
    (d.has column && !(d.get column).isNullish) = !(d.get column).isNullish := by
  cases nullish : (d.get column).isNullish with
  | true => simp
  | false => simp [has_of_get nullish]

theorem strictEq_str {v : JsValue} {s : String} : strictEq v (.str s) = true ↔ v = .str s := by
  cases v with
  | prim p => simp [strictEq]
  | arr | obj => simp [strictEq]

structure ColumnHolds (op : Op) (lookups : Lookups) (row : Doc) (col : ConstraintColumn) : Prop where
  notNull : col.notNull = true → op = .create ∨ row.has col.name = true → (row.get col.name).isNullish = false
  enum : ∀ values ∈ col.enum, (row.get col.name).isNullish = false → ∃ s ∈ values, row.get col.name = .str s
  unique : col.unique = true → (row.get col.name).isNullish = false → lookups.countWhere col.name (row.get col.name) = 0

theorem columnViolations_nil {lookups : Lookups} {col : ConstraintColumn} (plain : col.fk = none) :
    columnViolations op lookups row col = [] ↔ ColumnHolds op lookups row col := by
  unfold columnViolations
  simp only [given_eq, plain, List.append_eq_nil_iff, List.append_nil]
  constructor
  · intro ⟨⟨first, second⟩, third⟩
    refine ⟨fun declared asked => ?_, fun values inside given => ?_, fun declared given => ?_⟩
    · by_contra nullish
      have null : (row.get col.name).isNullish = true := Bool.not_eq_false _ ▸ nullish
      rw [if_pos] at first
      · cases first
      · simpa [declared, null] using asked
    · rw [Option.mem_def.mp inside] at second
      by_contra missing
      dsimp only at second
      rw [if_pos] at second
      · cases second
      · simp only [given, Bool.not_false, Bool.true_and, Bool.not_eq_true', List.any_eq_false, Function.comp]
        intro s mem equal
        exact missing ⟨s, mem, strictEq_str.mp equal⟩
    · by_contra held
      rw [if_pos] at third
      · cases third
      · simp [declared, given]
        omega
  · intro holds
    refine ⟨⟨if_neg ?_, ?_⟩, if_neg ?_⟩
    · intro broken
      simp only [Bool.and_eq_true, Bool.or_eq_true, decide_eq_true_eq] at broken
      have given := holds.notNull broken.1.1 broken.1.2
      rw [broken.2] at given
      cases given
    · cases declared : col.enum with
      | none => rfl
      | some values =>
        apply if_neg
        intro broken
        simp only [Bool.and_eq_true, Bool.not_eq_true'] at broken
        obtain ⟨s, mem, equal⟩ := holds.enum values declared broken.1
        exact List.any_eq_false.mp broken.2 s mem (strictEq_str.mpr equal)
    · intro broken
      simp only [Bool.and_eq_true, Bool.not_eq_true', decide_eq_true_eq] at broken
      have none := holds.unique broken.1.1 broken.1.2
      omega

theorem checkViolations_nil {chk : CheckRule} : checkViolations js op row chk = [] ↔
    (op = .create ∨ row.has chk.column = true → evalCheck js chk (row.get chk.column) = true) := by
  unfold checkViolations
  cases op with
  | create => simp
  | update => cases row.has chk.column <;> simp

theorem breaks_iff : ¬ Breaks js spec op row ↔
    (∀ col ∈ spec.columns, (col.notNull = true → op = .create ∨ row.has col.name = true → (row.get col.name).isNullish = false) ∧
      ∀ values ∈ col.enum, (row.get col.name).isNullish = false → ∃ s ∈ values, row.get col.name = .str s) ∧
    ∀ chk ∈ spec.checks, op = .create ∨ row.has chk.column = true → evalCheck js chk (row.get chk.column) = true := by
  unfold Breaks
  rw [not_or]
  constructor
  · intro ⟨columns, checks⟩
    refine ⟨fun col inside => ⟨fun declared asked => ?_, fun values mem given => ?_⟩, fun chk inside asked => ?_⟩
    · by_contra nullish
      exact columns ⟨col, inside, asked, .inl ⟨declared, Bool.not_eq_false _ ▸ nullish⟩⟩
    · by_contra missing
      refine columns ⟨col, inside, .inr (has_of_get given), .inr ⟨values, mem, given, fun s own equal => ?_⟩⟩
      exact missing ⟨s, own, equal⟩
    · by_contra failed
      exact checks ⟨chk, inside, asked, eq_false_of_ne_true failed⟩
  · intro ⟨columns, checks⟩
    constructor
    · intro ⟨col, inside, asked, broken⟩
      rcases broken with ⟨declared, nullish⟩ | ⟨values, mem, given, missing⟩
      · rw [(columns col inside).1 declared asked] at nullish
        cases nullish
      · obtain ⟨s, own, equal⟩ := (columns col inside).2 values mem given
        exact missing s own equal
    · intro ⟨chk, inside, asked, failed⟩
      rw [checks chk inside asked] at failed
      cases failed

def NoForeignKeys (spec : ConstraintSpec) : Prop := ∀ col ∈ spec.columns, col.fk = none

theorem found_nil {value : JsValue} :
    (found store docs column value).length = 0 ↔ ∀ d ∈ docs, store.finds column (d.get column) value = false := by
  unfold found
  rw [List.length_eq_zero_iff, List.take_eq_nil_iff]
  simp

theorem not_taken_iff : ¬ Taken store spec docs row ↔
    ∀ col ∈ spec.columns, col.unique = true → (row.get col.name).isNullish = false →
      ∀ d ∈ docs, store.same (d.get col.name) (row.get col.name) = false := by
  unfold Taken
  constructor
  · intro free col inside declared given d mem
    by_contra same
    exact free ⟨col, inside, declared, given, d, mem, Bool.not_eq_false _ ▸ same⟩
  · intro free ⟨col, inside, declared, given, d, mem, same⟩
    rw [free col inside declared given d mem] at same
    cases same

theorem not_found_iff : ¬ Found store spec docs row ↔
    ∀ col ∈ spec.columns, col.unique = true → (row.get col.name).isNullish = false →
      ∀ d ∈ docs, store.finds col.name (d.get col.name) (row.get col.name) = false := by
  unfold Found
  constructor
  · intro free col inside declared given d mem
    by_contra finds
    exact free ⟨col, inside, declared, given, d, mem, Bool.not_eq_false _ ▸ finds⟩
  · intro free ⟨col, inside, declared, given, d, mem, finds⟩
    rw [free col inside declared given d mem] at finds
    cases finds

theorem validate_nil (plain : NoForeignKeys spec) : validate js rows spec op (lookups store fkExists path docs) = [] ↔
    ∀ row ∈ rows, ¬ Breaks js spec op row ∧ ¬ Found store spec docs row := by
  unfold validate
  rw [List.flatMap_eq_nil_iff]
  refine forall₂_congr fun row _ => ?_
  rw [List.append_eq_nil_iff, List.flatMap_eq_nil_iff, List.flatMap_eq_nil_iff, breaks_iff, not_found_iff]
  constructor
  · intro ⟨columns, checks⟩
    have holds col (inside : col ∈ spec.columns) := (columnViolations_nil (plain col inside)).mp (columns col inside)
    refine ⟨⟨fun col inside => ⟨(holds col inside).notNull, (holds col inside).enum⟩, fun chk inside => ?_⟩, ?_⟩
    · exact checkViolations_nil.mp (checks chk inside)
    · exact fun col inside declared given => found_nil.mp ((holds col inside).unique declared given)
  · intro ⟨⟨columns, checks⟩, free⟩
    refine ⟨fun col inside => (columnViolations_nil (plain col inside)).mpr ?_, fun chk inside => ?_⟩
    · exact ⟨(columns col inside).1, (columns col inside).2, fun declared given =>
        found_nil.mpr (free col inside declared given)⟩
    · exact checkViolations_nil.mpr (checks chk inside)

theorem obeys_iff : Obeys js spec row ↔ ¬ Breaks js spec .create row := by
  rw [breaks_iff]
  constructor
  · intro ⟨notNull, enum, checks⟩
    exact ⟨fun col inside => ⟨fun declared _ => notNull col inside declared, enum col inside⟩, fun chk inside _ => checks chk inside⟩
  · intro ⟨columns, checks⟩
    exact ⟨fun col inside declared => (columns col inside).1 declared (.inl rfl), fun col inside => (columns col inside).2,
      fun chk inside => checks chk inside (.inl rfl)⟩

theorem perform_ok {w : Write} :
    (perform js store fkExists spec path docs w).1.isOk = true ↔ violations js store fkExists spec path docs w = [] := by
  unfold perform
  cases violations js store fkExists spec path docs w with
  | nil => exact ⟨fun _ => rfl, fun _ => rfl⟩
  | cons => exact ⟨nofun, nofun⟩

theorem perform_rejected {w : Write} (rejected : (perform js store fkExists spec path docs w).1.isOk = false) :
    (perform js store fkExists spec path docs w).2 = docs := by
  unfold perform at rejected ⊢
  cases found : violations js store fkExists spec path docs w with
  | nil =>
    rw [found] at rejected
    cases rejected
  | cons => rfl

theorem decides_iff {w : Write} : Decides js store fkExists spec path docs w ↔
    (violations js store fkExists spec path docs w = [] ↔ Satisfies js store spec (applied docs w)) := by
  unfold Decides
  dsimp only
  rw [perform_ok]
  exact and_iff_left perform_rejected

theorem satisfies_create (before : Satisfies js store spec docs) : Satisfies js store spec (docs ++ rows) ↔
    (∀ row ∈ rows, ¬ Breaks js spec .create row ∧ ¬ Taken store spec docs row) ∧
      ∀ col ∈ spec.columns, col.unique = true → Distinct store col.name rows := by
  constructor
  · intro after
    have split col (inside : col ∈ spec.columns) (declared : col.unique = true) :=
      List.pairwise_append.mp (after.distinct col inside declared)
    refine ⟨fun row mem => ⟨?_, ?_⟩, fun col inside declared => (split col inside declared).2.1⟩
    · exact obeys_iff.mp (after.obeys row (List.mem_append_right _ mem))
    · rw [not_taken_iff]
      intro col inside declared given d own
      cases nullish : (d.get col.name).isNullish with
      | true => exact store.nothing _ _ nullish given
      | false => exact (split col inside declared).2.2 d own row mem nullish given
  · intro ⟨each, distinct⟩
    constructor
    · intro d mem
      rcases List.mem_append.mp mem with old | new
      · exact before.obeys d old
      · exact obeys_iff.mpr (each d new).1
    · intro col inside declared
      refine List.pairwise_append.mpr ⟨before.distinct col inside declared, distinct col inside declared, ?_⟩
      intro d own row mem _ given
      exact not_taken_iff.mp (each row mem).2 col inside declared given d own

theorem create_iff (plain : NoForeignKeys spec) (before : Satisfies js store spec docs) :
    Decides js store fkExists spec path docs (.create rows) ↔ Fits js store spec path docs (.create rows) := by
  rw [decides_iff]
  change (validate js rows spec .create (lookups store fkExists path docs) = [] ↔ Satisfies js store spec (docs ++ rows)) ↔
    ((∃ row ∈ rows, Breaks js spec .create row) ∨
      ((∃ row ∈ rows, Found store spec docs row) ↔ Collide store spec docs rows))
  have accepted : (∀ row ∈ rows, ¬ Breaks js spec .create row ∧ ¬ Found store spec docs row) ↔
      ¬ (∃ row ∈ rows, Breaks js spec .create row) ∧ ¬ ∃ row ∈ rows, Found store spec docs row := by
    push Not
    exact forall₂_and
  have satisfied : ((∀ row ∈ rows, ¬ Breaks js spec .create row ∧ ¬ Taken store spec docs row) ∧
        ∀ col ∈ spec.columns, col.unique = true → Distinct store col.name rows) ↔
      ¬ (∃ row ∈ rows, Breaks js spec .create row) ∧ ¬ Collide store spec docs rows := by
    unfold Collide
    push Not
    rw [forall₂_and]
    tauto
  rw [validate_nil plain, satisfies_create before, accepted, satisfied]
  by_cases breaks : ∃ row ∈ rows, Breaks js spec .create row
  · simp only [breaks, not_true_eq_false, false_and, true_or]
  · rw [and_iff_right breaks, and_iff_right breaks, or_iff_right breaks, not_iff_not]

theorem lookup_kept (keep : String → Bool) (d : Doc) (column : String) :
    (d.filter fun field => keep field.1).lookup column = if keep column then d.lookup column else none := by
  induction d with
  | nil => simp
  | cons field d ih =>
    obtain ⟨name, value⟩ := field
    rw [List.filter_cons]
    by_cases same : column = name
    · subst same
      cases kept : keep column with
      | true => simp
      | false => simp [kept, ih]
    · have other : (column == name) = false := by simpa using same
      have skip : ((name, value) :: d).lookup column = d.lookup column := by rw [List.lookup_cons, other]
      rw [skip]
      by_cases kept : keep name = true
      · rw [if_pos kept, List.lookup_cons, other, ih]
      · rw [if_neg kept, ih]

theorem get_set (d data : Doc) (column : String) :
    (d.set data).get column = if data.has column then data.get column else d.get column := by
  unfold Doc.set Doc.get Doc.has
  rw [List.lookup_append, lookup_kept (fun name => !(data.lookup name).isSome)]
  cases data.lookup column <;> simp

theorem obeys_set (before : Obeys js spec d) : Obeys js spec (d.set data) ↔ ¬ Breaks js spec .update data := by
  rw [breaks_iff]
  constructor
  · intro ⟨notNull, enum, checks⟩
    simp only [get_set] at notNull enum checks
    refine ⟨fun col inside => ⟨fun declared asked => ?_, fun values mem given => ?_⟩, fun chk inside asked => ?_⟩
    · have has : data.has col.name = true := asked.resolve_left nofun
      have value := notNull col inside declared
      rwa [if_pos has] at value
    · have value := enum col inside values mem
      rw [if_pos (has_of_get given)] at value
      exact value given
    · have has : data.has chk.column = true := asked.resolve_left nofun
      have value := checks chk inside
      rwa [if_pos has] at value
  · intro ⟨columns, checks⟩
    constructor
    · intro col inside declared
      rw [get_set]
      split_ifs with has
      · exact (columns col inside).1 declared (.inr has)
      · exact before.notNull col inside declared
    · intro col inside values mem
      rw [get_set]
      split_ifs with has
      · exact (columns col inside).2 values mem
      · exact before.enum col inside values mem
    · intro chk inside
      rw [get_set]
      split_ifs with has
      · exact checks chk inside (.inr has)
      · exact before.checks chk inside

theorem selected_once {p : Doc → Bool} (once : (docs.filter p).length ≤ 1) :
    docs.Pairwise fun d e => ¬ (p d = true ∧ p e = true) := by
  rw [List.pairwise_iff_forall_sublist]
  intro d e sub ⟨first, second⟩
  have both := (sub.filter p).length_le
  rw [List.filter_cons_of_pos first, List.filter_cons_of_pos second] at both
  simp only [List.filter_nil, List.length_cons, List.length_nil] at both
  omega

variable {selects : Doc → Bool}

theorem distinct_null (before : Distinct store column docs) (nullish : (data.get column).isNullish = true) :
    Distinct store column (applied docs (.update selects data)) := by
  have value (d : Doc) : ((if selects d then d.set data else d).get column).isNullish = false →
      (if selects d then d.set data else d).get column = d.get column := by
    intro given
    split_ifs at given ⊢ with chosen
    · rw [get_set] at given ⊢
      split_ifs at given ⊢
      · rw [nullish] at given
        cases given
      · rfl
    · rfl
  refine List.pairwise_map.mpr (before.imp fun {d e} apart given given' => ?_)
  have first := value d given
  have second := value e given'
  rw [first] at given ⊢
  rw [second] at given' ⊢
  exact apart given given'

def Apart (store : Store) (column : String) (d e : Doc) : Prop :=
  (d.get column).isNullish = false → (e.get column).isNullish = false → store.same (d.get column) (e.get column) = false

theorem apart_symm {e : Doc} (h : Apart store column d e) : Apart store column e d :=
  fun given given' => (store.symm _ _).trans (h given' given)

theorem distinct_given (before : Distinct store column docs) (given : (data.get column).isNullish = false)
    (some : docs.filter selects ≠ []) : Distinct store column (applied docs (.update selects data)) ↔
      (∀ d ∈ docs.filter fun d => !selects d, store.same (d.get column) (data.get column) = false) ∧
        (docs.filter selects).length ≤ 1 := by
  let write (d : Doc) : Doc := if selects d then d.set data else d
  have now (d : Doc) (chosen : selects d = true) : (write d).get column = data.get column := by
    dsimp only [write]
    rw [if_pos chosen, get_set, if_pos (has_of_get given)]
  have kept (d : Doc) (left : selects d = false) : write d = d := by
    dsimp only [write]
    rw [left]
    rfl
  have mapped : Distinct store column (applied docs (.update selects data)) ↔
      docs.Pairwise fun d e => Apart store column (write d) (write e) := List.pairwise_map
  rw [mapped]
  constructor
  · intro pairs
    constructor
    · intro d inside
      obtain ⟨own, left⟩ := List.mem_filter.mp inside
      rw [Bool.not_eq_true'] at left
      obtain ⟨m, picked⟩ := List.exists_mem_of_ne_nil _ some
      obtain ⟨mem, chosen⟩ := List.mem_filter.mp picked
      have other : d ≠ m := by
        rintro rfl
        rw [left] at chosen
        cases chosen
      cases nullish : (d.get column).isNullish with
      | true => exact store.nothing _ _ nullish given
      | false =>
        have symmetric : Std.Symm fun d e => Apart store column (write d) (write e) := ⟨fun _ _ => apart_symm⟩
        have apart := pairs.forall own mem other
        rw [kept d left, Apart, now m chosen] at apart
        exact apart nullish given
    · by_contra several
      obtain ⟨a, b, rest, split⟩ : ∃ a b rest, docs.filter selects = a :: b :: rest := by
        rcases found : docs.filter selects with _ | ⟨a, _ | ⟨b, rest⟩⟩
        · exact absurd found some
        · rw [found] at several
          simp at several
        · exact ⟨a, b, rest, rfl⟩
      have first : [a, b].Sublist (docs.filter selects) := by
        rw [split]
        exact ((List.nil_sublist rest).cons_cons b).cons_cons a
      have chosen (d : Doc) (mem : d ∈ [a, b]) : selects d = true := (List.mem_filter.mp (first.subset mem)).2
      have apart := List.pairwise_iff_forall_sublist.mp pairs (first.trans List.filter_sublist)
      rw [Apart, now a (chosen a (by simp)), now b (chosen b (by simp)), store.refl _ given] at apart
      exact Bool.noConfusion (apart given given)
  · intro ⟨others, once⟩
    refine (before.and (selected_once once)).imp_of_mem ?_
    intro d e own own' ⟨apart, single⟩
    have free (x : Doc) (mem : x ∈ docs) (left : selects x = false) : store.same (x.get column) (data.get column) = false :=
      others x (List.mem_filter.mpr ⟨mem, by simp [left]⟩)
    cases chosen : selects d with
    | true =>
      cases chosen' : selects e with
      | true => exact absurd ⟨chosen, chosen'⟩ single
      | false =>
        rw [Apart, now d chosen, kept e chosen']
        exact fun _ _ => (store.symm _ _).trans (free e own' chosen')
    | false =>
      rw [kept d chosen]
      cases chosen' : selects e with
      | true =>
        rw [Apart, now e chosen']
        exact fun _ _ => free d own chosen
      | false =>
        rw [kept e chosen']
        exact apart

theorem satisfies_update (before : Satisfies js store spec docs) :
    Satisfies js store spec (applied docs (.update selects data)) ↔ docs.filter selects = [] ∨
      ¬ Breaks js spec .update data ∧ ¬ Taken store spec (docs.filter fun d => !selects d) data ∧
        (SetsUnique spec data → (docs.filter selects).length ≤ 1) := by
  by_cases some : docs.filter selects = []
  · have same : applied docs (.update selects data) = docs := by
      refine (List.map_congr_left fun d mem => ?_).trans (List.map_id docs)
      have left := List.filter_eq_nil_iff.mp some d mem
      rw [if_neg left]
      rfl
    rw [same]
    exact ⟨fun _ => .inl some, fun _ => before⟩
  · rw [or_iff_right some]
    obtain ⟨m, chosen⟩ := List.exists_mem_of_ne_nil _ some
    obtain ⟨mem, chosen⟩ := List.mem_filter.mp chosen
    constructor
    · intro after
      refine ⟨?_, ?_, ?_⟩
      · have own : m.set data ∈ applied docs (.update selects data) :=
          List.mem_map.mpr ⟨m, mem, if_pos chosen⟩
        exact (obeys_set (before.obeys m mem)).mp (after.obeys _ own)
      · rw [not_taken_iff]
        intro col inside declared given
        exact ((distinct_given (before.distinct col inside declared) given some).mp (after.distinct col inside declared)).1
      · intro ⟨col, inside, declared, given⟩
        exact ((distinct_given (before.distinct col inside declared) given some).mp (after.distinct col inside declared)).2
    · intro ⟨obeys, free, once⟩
      constructor
      · intro d inside
        obtain ⟨d₀, own, rfl⟩ := List.mem_map.mp inside
        split_ifs
        · exact (obeys_set (before.obeys d₀ own)).mpr obeys
        · exact before.obeys d₀ own
      · intro col inside declared
        have old := before.distinct col inside declared
        cases given : (data.get col.name).isNullish with
        | true => exact distinct_null old given
        | false =>
          exact (distinct_given old given some).mpr
            ⟨not_taken_iff.mp free col inside declared given, once ⟨col, inside, declared, given⟩⟩

theorem not_setsUnique_of_taken (taken : Taken store spec docs data) : SetsUnique spec data := by
  obtain ⟨col, inside, declared, given, -⟩ := taken
  exact ⟨col, inside, declared, given⟩

theorem update_iff (plain : NoForeignKeys spec) (before : Satisfies js store spec docs) :
    Decides js store fkExists spec path docs (.update selects data) ↔
      Fits js store spec path docs (.update selects data) := by
  rw [decides_iff, satisfies_update before]
  unfold Fits violations
  cases path with
  | hub =>
    dsimp only
    rcases found : docs.filter selects with _ | ⟨d, _ | ⟨e, rest⟩⟩
    · simp
    · simp
    · simp only [true_iff, List.cons_ne_nil, false_or, List.length_cons]
      constructor
      · intro ⟨obeys, _, once⟩
        refine ⟨obeys, fun sets => ?_⟩
        have short := once sets
        omega
      · intro ⟨obeys, free⟩
        exact ⟨obeys, fun taken => free (not_setsUnique_of_taken taken), fun sets => absurd sets free⟩
  | remote =>
    dsimp only
    rw [validate_nil plain, List.forall_mem_singleton]
    have own : Taken store spec (docs.filter fun d => !selects d) data → SetsUnique spec data := not_setsUnique_of_taken
    rcases found : docs.filter selects with _ | ⟨d, _ | ⟨e, rest⟩⟩
    · simp
    · simp only [List.cons_ne_nil, false_or, List.length_cons, List.length_nil]
      tauto
    · simp only [List.cons_ne_nil, false_or, List.length_cons]
      have wide : ¬ (rest.length + 1 + 1 ≤ 1) := by omega
      tauto

def byValue : Store where
  finds _ v w := v = w
  same v w := v = w
  refl v _ := by simp
  symm v w := by simp [eq_comm]
  nothing v w nullish given := by
    simp only [decide_eq_false_iff_not]
    rintro rfl
    rw [nullish] at given
    cases given

/-- Expressions never match and numbers are only themselves. -/
def plainLanguage : Language where
  number
    | .num q => .finite q
    | _ => .nan
  regex _ _ := some false

def users : ConstraintSpec := ⟨[⟨"email", true, true, none, none⟩], []⟩

def user (email : String) : Doc := [("email", .str email)]

theorem users_obey (email : String) : Obeys plainLanguage users (user email) where
  notNull := by simp [users, user, Doc.get, JsValue.isNullish]
  enum := by simp [users]
  checks := by simp [users]

end DataFabric.RowConstraints
