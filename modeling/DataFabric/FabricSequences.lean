import DataFabric.Doubles
import DataFabric.ManifestPlans
import Mathlib.Tactic.Linarith
import Mathlib.Tactic.Ring

set_option autoImplicit false

/-!
# The fabric's own sequences

The rows of `fabric_system.fabric_sequences`. Callers advance them through `nextval` and through the
documents whose defaults are filled in on insert, and an apply seeds them for the sequences a manifest
declares on engines that have none. Each of the three is one statement or one transaction on the row.
-/
namespace DataFabric.FabricSequences
open CharText TenantIdentifiers Manifests ManifestPlans TransitionRuns Doubles

structure FabricSequence where
  currentValue : ℤ
  increment : ℤ
  deriving DecidableEq

abbrev Sequences := String → String → Option FabricSequence

def Sequences.put (rows : Sequences) (tenantId name : String) (r : FabricSequence) : Sequences :=
  fun t n => if t = tenantId ∧ n = name then some r else rows t n

def int4 (n : ℤ) : Bool := -2 ^ 31 ≤ n ∧ n < 2 ^ 31

def int8 (n : ℤ) : Bool := -2 ^ 63 ≤ n ∧ n < 2 ^ 63

def trunc (q : ℚ) : ℤ := q.num.tdiv q.den

/-- The caller's options; what is not a finite number counts as absent. -/
structure NextvalOptions where
  start : Option ℚ
  increment : Option ℚ
  count : Option ℚ

def NextvalOptions.inc (opts : NextvalOptions) : ℤ := opts.increment.elim 1 trunc

def NextvalOptions.first (opts : NextvalOptions) : ℤ := opts.start.elim 1 trunc

/-- `Math.max(1, Math.min(100000, Math.trunc(opts.count || 1)))` -/
def NextvalOptions.size (opts : NextvalOptions) : ℕ :=
  (max 1 (min 100000 (trunc ((opts.count.filter (· ≠ 0)).getD 1)))).toNat

def sequenceNameRe (name : String) : Bool := matchesWord isWord isWord 0 62 name

def NextvalOptions.seed (opts : NextvalOptions) : ℤ :=
  toDouble (opts.first + toDouble (opts.inc * (opts.size - 1)))

/-- The row after the upsert; a value out of its column's range is refused. -/
def allocate (row : Option FabricSequence) (opts : NextvalOptions) : Option FabricSequence :=
  if int8 opts.seed && int4 opts.inc then
    match row with
    | none => some ⟨opts.seed, opts.inc⟩
    | some r =>
      if int4 (r.increment * opts.size) && int8 (r.currentValue + r.increment * opts.size) then
        some ⟨r.currentValue + r.increment * opts.size, r.increment⟩
      else none
  else none

def blockOf (r : FabricSequence) (count : ℕ) : List ℤ :=
  if count = 1 then [toDouble r.currentValue]
  else (List.range count).reverse.map fun i : ℕ =>
    toDouble (toDouble r.currentValue - toDouble (r.increment * i))

def nextval (rows : Sequences) (tenantId name : String) (opts : NextvalOptions) :
    Option (FabricSequence × List ℤ) :=
  if sequenceNameRe name then
    (allocate (rows tenantId name) opts).map fun r => (r, blockOf r opts.size)
  else none

/-- The row's next value; a sequence without a row is not advanced. -/
def autoPopulate (rows : Sequences) (tenantId name : String) : Option FabricSequence :=
  (rows tenantId name).bind fun r =>
    if int8 (r.currentValue + r.increment) then some ⟨r.currentValue + r.increment, r.increment⟩
    else none

inductive EngineType | POSTGRES | MYSQL | ORACLE | MONGODB | ELASTICSEARCH | SNOWFLAKE
  deriving DecidableEq

def EngineType.supportsSequences : EngineType → Bool
  | .POSTGRES | .ORACLE | .SNOWFLAKE => true
  | .MYSQL | .MONGODB | .ELASTICSEARCH => false

/-- `a || b` on optional names: an empty one counts as absent. -/
def orName (a b : Option String) : Option String := a.filter (· ≠ "") <|> b.filter (· ≠ "")

def sourceOf (m : MetadataManifest) (s : SchemaDefinition) : String :=
  (orName s.targetSource m.targetSource).getD hubName

def SchemaDefinition.sequences (s : SchemaDefinition) : List SequenceDefinition :=
  s.resources.filterMap fun
    | .sequence q => some q
    | _ => none

/-- The sequences an apply plans to compensate, each with its schema: `diffSequence` plans every one
of them again, whatever is there. -/
def compensated (engineOf : String → EngineType) (m : MetadataManifest) :
    List (String × SequenceDefinition) :=
  (m.schemas.filter fun s => !(engineOf (sourceOf m s)).supportsSequences).flatMap fun s =>
    (SchemaDefinition.sequences s).map (s.name, ·)

def orOne (value : Option ℤ) : ℤ := (value.filter (· ≠ 0)).getD 1

def seedRow (q : SequenceDefinition) : FabricSequence :=
  ⟨toDouble (orOne q.start - orOne q.increment), orOne q.increment⟩

def seed (tenantId : String) (rows : Sequences) (e : String × SequenceDefinition) : Option Sequences :=
  if identRe e.2.name && (physicalName tenantId e.1).isSome && int8 (seedRow e.2).currentValue &&
      int4 (seedRow e.2).increment then
    some (rows.put tenantId e.2.name (seedRow e.2))
  else none

structure World where
  rows : Sequences
  /-- what was handed out, with the sequence it came from -/
  issued : List (String × String × ℤ)

inductive Event
  | nextval (tenantId name : String) (opts : NextvalOptions)
  | insert (tenantId name : String)
  | apply (tenantId : String) (engineOf : String → EngineType) (m : MetadataManifest)

def World.issue (w : World) (tenantId name : String) (r : FabricSequence) (values : List ℤ) : World :=
  ⟨w.rows.put tenantId name r, w.issued ++ values.map fun v => (tenantId, name, v)⟩

/-- An apply whose statements fail is rolled back as a whole. -/
def step (w : World) : Event → Option World
  | .nextval tenantId name opts =>
    (nextval w.rows tenantId name opts).map fun (r, values) => w.issue tenantId name r values
  | .insert tenantId name =>
    (autoPopulate w.rows tenantId name).map fun r => w.issue tenantId name r [toDouble r.currentValue]
  | .apply tenantId engineOf m =>
    ((compensated engineOf m).foldlM (seed tenantId) w.rows).map fun rows => { w with rows }

def initial : World := ⟨fun _ _ => none, []⟩

/-- The last `count` values of a progression that has come to `c`. -/
def block (c d : ℤ) (count : ℕ) : List ℤ := (List.range count).reverse.map fun i : ℕ => c - d * i

theorem mem_block {c d v : ℤ} {count : ℕ} : v ∈ block c d count ↔ ∃ i < count, c - d * (i : ℤ) = v := by
  simp [block]

theorem block_nodup {d : ℤ} (hd : d ≠ 0) (c : ℤ) (count : ℕ) : (block c d count).Nodup := by
  refine (List.nodup_reverse.mpr List.nodup_range).map fun i j hij => ?_
  have hmul : d * (i : ℤ) = d * (j : ℤ) := by omega
  exact_mod_cast mul_left_cancel₀ hd hmul

theorem block_le {c d v : ℤ} {count : ℕ} (h : v ∈ block c d count) : 0 ≤ d * (c - v) := by
  obtain ⟨i, _, rfl⟩ := mem_block.mp h
  have hsquare : d * (c - (c - d * (i : ℤ))) = d * d * (i : ℤ) := by ring
  rw [hsquare]
  exact mul_nonneg (mul_self_nonneg d) (Int.natCast_nonneg i)

theorem block_beyond {c d v : ℤ} {count : ℕ} (hd : d ≠ 0) (h : v ∈ block (c + d * count) d count) :
    0 < d * (v - c) := by
  obtain ⟨i, hi, rfl⟩ := mem_block.mp h
  have hsquare : d * (c + d * (count : ℤ) - d * (i : ℤ) - c) = d * d * ((count : ℤ) - i) := by ring
  rw [hsquare]
  exact mul_pos (mul_self_pos.mpr hd) (by omega)

theorem int4_bounds {n : ℤ} (h : int4 n = true) : n.natAbs ≤ 2 ^ 31 := by
  have hbounds : -2 ^ 31 ≤ n ∧ n < 2 ^ 31 := of_decide_eq_true h
  omega

theorem NextvalOptions.size_pos (opts : NextvalOptions) : 0 < opts.size := by
  unfold NextvalOptions.size
  omega

theorem NextvalOptions.size_le (opts : NextvalOptions) : opts.size ≤ 100000 := by
  unfold NextvalOptions.size
  omega

theorem exact_between {a b n : ℤ} (ha : Exact a) (hb : Exact b) (h : a ≤ n ∧ n ≤ b ∨ b ≤ n ∧ n ≤ a) :
    Exact n := by
  unfold Exact at *
  omega

theorem exact_within {c d : ℤ} {i n : ℕ} (hc : Exact c) (hfirst : Exact (c - d * (n : ℤ))) (hi : i ≤ n) :
    Exact (c - d * (i : ℤ)) := by
  have hi' : (i : ℤ) ≤ n := by exact_mod_cast hi
  have hi₀ : (0 : ℤ) ≤ i := Int.natCast_nonneg i
  rcases le_total 0 d with hd | hd
  · have hle := mul_le_mul_of_nonneg_left hi' hd
    have hnonneg := mul_nonneg hd hi₀
    exact exact_between hfirst hc (.inl (by omega))
  · have hle := mul_le_mul_of_nonpos_left hi' hd
    have hnonpos := mul_nonpos_of_nonpos_of_nonneg hd hi₀
    exact exact_between hfirst hc (.inr (by omega))

theorem exact_step {d : ℤ} {i n : ℕ} (h : (d * (n : ℤ)).natAbs ≤ 2 ^ 53) (hi : i ≤ n) :
    Exact (d * (i : ℤ)) := by
  rw [Int.natAbs_mul, Int.natAbs_natCast] at h
  unfold Exact
  rw [Int.natAbs_mul, Int.natAbs_natCast]
  exact (Nat.mul_le_mul_left _ hi).trans h

theorem blockOf_exact {r : FabricSequence} {count : ℕ} (hpos : 0 < count) (hlast : Exact r.currentValue)
    (hfirst : Exact (r.currentValue - r.increment * ((count - 1 : ℕ) : ℤ)))
    (hsteps : (r.increment * ((count - 1 : ℕ) : ℤ)).natAbs ≤ 2 ^ 53) :
    blockOf r count = block r.currentValue r.increment count := by
  have hvalue (i : ℕ) (hi : i < count) :
      toDouble (toDouble r.currentValue - toDouble (r.increment * (i : ℤ))) =
        r.currentValue - r.increment * (i : ℤ) := by
    have hi' : i ≤ count - 1 := by omega
    rw [toDouble_exact hlast, toDouble_exact (exact_step hsteps hi'),
      toDouble_exact (exact_within hlast hfirst hi')]
  by_cases hone : count = 1
  · subst hone
    rw [blockOf, if_pos rfl, toDouble_exact hlast]
    simp [block]
  · rw [blockOf, if_neg hone, block]
    refine List.map_congr_left fun i hi => hvalue i ?_
    simpa using hi

/-- A block continues its row: it follows what the row had come to and ends where the row now is. -/
structure Continues (row : Option FabricSequence) (r : FabricSequence) (values : List ℤ) : Prop where
  moves : r.increment ≠ 0
  distinct : values.Nodup
  within : ∀ v ∈ values, 0 ≤ r.increment * (r.currentValue - v)
  beyond : ∀ r₀ ∈ row, r.increment = r₀.increment ∧ 0 ≤ r.increment * (r.currentValue - r₀.currentValue) ∧
    ∀ v ∈ values, 0 < r.increment * (v - r₀.currentValue)

theorem continues_block {r₀ : FabricSequence} (hd : r₀.increment ≠ 0) (count : ℕ) :
    Continues (some r₀) ⟨r₀.currentValue + r₀.increment * count, r₀.increment⟩
      (block (r₀.currentValue + r₀.increment * count) r₀.increment count) := by
  refine ⟨hd, block_nodup hd _ _, fun v hv => block_le hv, fun r hr => ?_⟩
  cases hr
  refine ⟨rfl, ?_, fun v hv => block_beyond hd hv⟩
  have hsquare : r₀.increment * (r₀.currentValue + r₀.increment * (count : ℤ) - r₀.currentValue) =
      r₀.increment * r₀.increment * (count : ℤ) := by ring
  dsimp only
  rw [hsquare]
  exact mul_nonneg (mul_self_nonneg _) (Int.natCast_nonneg count)

/-- What keeps a block among the exact integers, and its steps other than zero. -/
def ExactBlock (row : Option FabricSequence) (opts : NextvalOptions) : Prop :=
  match row with
  | none => opts.inc ≠ 0 ∧ Exact opts.first ∧ Exact (opts.first + opts.inc * (opts.size - 1))
  | some r => Exact (r.currentValue + r.increment) ∧ Exact (r.currentValue + r.increment * opts.size)

instance (row : Option FabricSequence) (opts : NextvalOptions) : Decidable (ExactBlock row opts) := by
  unfold ExactBlock
  cases row <;> infer_instance

theorem seed_exact {opts : NextvalOptions} (hinc : int4 opts.inc = true)
    (hlast : Exact (opts.first + opts.inc * (opts.size - 1))) :
    (opts.inc * ((opts.size - 1 : ℕ) : ℤ)).natAbs ≤ 2 ^ 53 ∧
      opts.seed = opts.first + opts.inc * ((opts.size - 1 : ℕ) : ℤ) := by
  have hpos := opts.size_pos
  have hsize : ((opts.size - 1 : ℕ) : ℤ) = (opts.size : ℤ) - 1 := by omega
  have hproduct : (opts.inc * ((opts.size - 1 : ℕ) : ℤ)).natAbs ≤ 2 ^ 53 := by
    rw [Int.natAbs_mul, Int.natAbs_natCast]
    have hle : opts.size - 1 ≤ 100000 := by have := opts.size_le; omega
    exact (Nat.mul_le_mul (int4_bounds hinc) hle).trans (by norm_num)
  refine ⟨hproduct, ?_⟩
  rw [NextvalOptions.seed, ← hsize, toDouble_exact (n := opts.inc * _) hproduct, hsize,
    toDouble_exact hlast]

theorem allocate_new {opts : NextvalOptions} {r : FabricSequence} (h : allocate none opts = some r) :
    int4 opts.inc = true ∧ r = ⟨opts.seed, opts.inc⟩ := by
  unfold allocate at h
  split at h
  · rename_i hseed
    cases h
    rw [Bool.and_eq_true] at hseed
    exact ⟨hseed.2, rfl⟩
  · cases h

theorem allocate_next {opts : NextvalOptions} {r₀ r : FabricSequence} (h : allocate (some r₀) opts = some r) :
    int4 (r₀.increment * opts.size) = true ∧
      r = ⟨r₀.currentValue + r₀.increment * opts.size, r₀.increment⟩ := by
  unfold allocate at h
  split at h
  · dsimp only at h
    split at h
    · rename_i hrange
      cases h
      rw [Bool.and_eq_true] at hrange
      exact ⟨hrange.1, rfl⟩
    · cases h
  · cases h

theorem new_continues {opts : NextvalOptions} {r : FabricSequence} (h : allocate none opts = some r)
    (hexact : ExactBlock none opts) : Continues none r (blockOf r opts.size) := by
  obtain ⟨hinc, rfl⟩ := allocate_new h
  obtain ⟨hne, hfirst, hlast⟩ := hexact
  obtain ⟨hsteps, hvalue⟩ := seed_exact hinc hlast
  have hpos := opts.size_pos
  have hsize : ((opts.size - 1 : ℕ) : ℤ) = (opts.size : ℤ) - 1 := by omega
  rw [blockOf_exact hpos (by rw [hvalue, hsize]; exact hlast) (by rw [hvalue]; simpa using hfirst) hsteps]
  exact ⟨hne, block_nodup hne _ _, fun v hv => block_le hv, fun r₀ hr₀ => by cases hr₀⟩

theorem next_continues {opts : NextvalOptions} {r₀ r : FabricSequence} (h : allocate (some r₀) opts = some r)
    (hmoves : r₀.increment ≠ 0) (hexact : ExactBlock (some r₀) opts) :
    Continues (some r₀) r (blockOf r opts.size) := by
  obtain ⟨hrange, rfl⟩ := allocate_next h
  obtain ⟨hfirst, hlast⟩ := hexact
  have hpos := opts.size_pos
  have hsize : ((opts.size - 1 : ℕ) : ℤ) = (opts.size : ℤ) - 1 := by omega
  have hback : r₀.currentValue + r₀.increment * (opts.size : ℤ) - r₀.increment * ((opts.size - 1 : ℕ) : ℤ) =
      r₀.currentValue + r₀.increment := by
    rw [hsize]
    ring
  have hproduct : (r₀.increment * (opts.size : ℤ)).natAbs ≤ 2 ^ 53 :=
    (int4_bounds hrange).trans (by norm_num)
  have hsteps : Exact (r₀.increment * ((opts.size - 1 : ℕ) : ℤ)) := exact_step hproduct (by omega)
  have hblock : blockOf ⟨r₀.currentValue + r₀.increment * opts.size, r₀.increment⟩ opts.size = _ :=
    blockOf_exact hpos hlast (by rw [hback]; exact hfirst) hsteps
  rw [hblock]
  exact continues_block hmoves opts.size

theorem nextval_continues {rows : Sequences} {t n : String} {opts : NextvalOptions}
    {r : FabricSequence} {values : List ℤ} (h : nextval rows t n opts = some (r, values))
    (hmoves : ∀ r₀ ∈ rows t n, r₀.increment ≠ 0) (hexact : ExactBlock (rows t n) opts) :
    Continues (rows t n) r values := by
  unfold nextval at h
  split at h
  · obtain ⟨r', hr', hpair⟩ := Option.map_eq_some_iff.mp h
    cases hpair
    cases hrow : rows t n with
    | none =>
      rw [hrow] at hr' hexact
      exact new_continues hr' hexact
    | some r₀ =>
      rw [hrow] at hr' hexact
      exact next_continues hr' (hmoves r₀ hrow) hexact
  · cases h

theorem autoPopulate_continues {rows : Sequences} {t n : String} {r : FabricSequence}
    (h : autoPopulate rows t n = some r) (hmoves : ∀ r₀ ∈ rows t n, r₀.increment ≠ 0)
    (hexact : ∀ r₀ ∈ rows t n, Exact (r₀.currentValue + r₀.increment)) :
    Continues (rows t n) r [toDouble r.currentValue] := by
  obtain ⟨r₀, hrow, hr⟩ := Option.bind_eq_some_iff.mp h
  split at hr
  · cases hr
    rw [hrow, toDouble_exact (hexact r₀ hrow)]
    simpa [block] using continues_block (hmoves r₀ hrow) 1
  · cases hr

/-- The declaration that decides the row of a name: the last one. -/
def declared (es : List (String × SequenceDefinition)) (name : String) :
    Option (String × SequenceDefinition) := es.reverse.find? (·.2.name = name)

theorem seed_rows {rows rows' : Sequences} {t : String} {e : String × SequenceDefinition}
    (h : seed t rows e = some rows') : rows' = rows.put t e.2.name (seedRow e.2) := by
  unfold seed at h
  split at h
  · exact (Option.some.inj h).symm
  · cases h

theorem seeds_rows {t : String} {es : List (String × SequenceDefinition)} {rows rows' : Sequences}
    (h : es.foldlM (seed t) rows = some rows') (t' n : String) :
    rows' t' n = if t' = t then ((declared es n).map (seedRow ·.2)).or (rows t' n) else rows t' n := by
  induction es generalizing rows with
  | nil =>
    cases h
    simp [declared]
  | cons e es ih =>
    rw [List.foldlM_cons] at h
    obtain ⟨mid, hmid, hrest⟩ := Option.bind_eq_some_iff.mp h
    rw [ih hrest, seed_rows hmid]
    by_cases ht : t' = t
    · by_cases hn : n = e.2.name
      · cases hfind : es.reverse.find? (·.2.name = e.2.name) <;>
          simp [declared, Sequences.put, ht, hn, hfind, List.find?_append]
      · cases hfind : es.reverse.find? (·.2.name = n) <;>
          simp [declared, Sequences.put, ht, hn, List.find?_append, Ne.symm hn]
    · simp [Sequences.put, ht]

theorem orOne_ne_zero (value : Option ℤ) : orOne value ≠ 0 := by
  unfold orOne
  cases h : value.filter (· ≠ 0) with
  | none => exact one_ne_zero
  | some d => simpa using (Option.filter_eq_some_iff.mp h).2

structure Consistent (w : World) : Prop where
  distinct : w.issued.Nodup
  recorded : ∀ t n v, (t, n, v) ∈ w.issued → ∃ r, w.rows t n = some r ∧ 0 ≤ r.increment * (r.currentValue - v)
  moves : ∀ t n r, w.rows t n = some r → r.increment ≠ 0

theorem consistent_initial : Consistent initial :=
  ⟨List.nodup_nil, fun _ _ _ h => (List.not_mem_nil h).elim,
    fun _ _ _ h => (Option.some_ne_none _ h.symm).elim⟩

theorem put_self (rows : Sequences) (t n : String) (r : FabricSequence) : rows.put t n r t n = some r := by
  simp [Sequences.put]

theorem put_other {rows : Sequences} {t n t' n' : String} {r : FabricSequence} (h : ¬ (t' = t ∧ n' = n)) :
    rows.put t n r t' n' = rows t' n' := by
  rw [Sequences.put, if_neg h]

theorem issue_consistent {w : World} (hw : Consistent w) {t n : String} {r : FabricSequence} {values : List ℤ}
    (h : Continues (w.rows t n) r values) : Consistent (w.issue t n r values) := by
  refine ⟨?_, ?_, ?_⟩
  · refine List.nodup_append.mpr ⟨hw.distinct, h.distinct.map fun _ _ he => ?_, ?_⟩
    · simpa using he
    · rintro ⟨t', n', v⟩ hold e hnew rfl
      obtain ⟨v', hv', he⟩ := List.mem_map.mp hnew
      cases he
      obtain ⟨r₀, hrow, hle⟩ := hw.recorded t n v hold
      obtain ⟨hinc, _, hbeyond⟩ := h.beyond r₀ hrow
      have hlt := hbeyond v hv'
      rw [← hinc] at hle
      have hsum : r.increment * (v - r₀.currentValue) + r.increment * (r₀.currentValue - v) = 0 := by ring
      omega
  · intro t' n' v hv
    by_cases hkey : t' = t ∧ n' = n
    · obtain ⟨rfl, rfl⟩ := hkey
      refine ⟨r, put_self _ _ _ _, ?_⟩
      rcases List.mem_append.mp hv with hold | hnew
      · obtain ⟨r₀, hrow, hle⟩ := hw.recorded _ _ _ hold
        obtain ⟨hinc, hgrown, _⟩ := h.beyond r₀ hrow
        rw [← hinc] at hle
        have hsum : r.increment * (r.currentValue - v) =
          r.increment * (r.currentValue - r₀.currentValue) + r.increment * (r₀.currentValue - v) := by ring
        omega
      · obtain ⟨v', hv', he⟩ := List.mem_map.mp hnew
        cases he
        exact h.within v hv'
    · have hold : (t', n', v) ∈ w.issued := by
        refine (List.mem_append.mp hv).resolve_right fun hnew => ?_
        obtain ⟨_, _, he⟩ := List.mem_map.mp hnew
        cases he
        exact hkey ⟨rfl, rfl⟩
      obtain ⟨r₀, hrow, hle⟩ := hw.recorded t' n' v hold
      exact ⟨r₀, (put_other hkey).trans hrow, hle⟩
  · intro t' n' r' hr'
    by_cases hkey : t' = t ∧ n' = n
    · obtain ⟨rfl, rfl⟩ := hkey
      cases (put_self _ _ _ _).symm.trans hr'
      exact h.moves
    · exact hw.moves t' n' r' ((put_other hkey).symm.trans hr')

/-- An apply that finds every row it declares as it would seed it. -/
def Undisturbed (w : World) : Event → Prop
  | .nextval t n opts => ExactBlock (w.rows t n) opts
  | .insert t n => ∀ r ∈ w.rows t n, Exact (r.currentValue + r.increment)
  | .apply t engineOf m => ∀ e ∈ compensated engineOf m, declared (compensated engineOf m) e.2.name = some e →
      ∀ r ∈ w.rows t e.2.name, r = seedRow e.2

instance (w : World) (e : Event) : Decidable (Undisturbed w e) := by
  unfold Undisturbed
  cases e <;> infer_instance

theorem declared_mem {es : List (String × SequenceDefinition)} {name : String}
    {e : String × SequenceDefinition} (h : declared es name = some e) : e ∈ es ∧ e.2.name = name := by
  refine ⟨List.mem_reverse.mp (List.mem_of_find?_eq_some h), ?_⟩
  simpa using List.find?_some h

theorem apply_keeps {w : World} {t : String} {engineOf : String → EngineType} {m : MetadataManifest}
    {rows : Sequences} (hseeds : (compensated engineOf m).foldlM (seed t) w.rows = some rows)
    (h : Undisturbed w (.apply t engineOf m)) {t' n : String} {r : FabricSequence}
    (hr : w.rows t' n = some r) : rows t' n = some r := by
  rw [seeds_rows hseeds]
  split
  · rename_i ht
    subst ht
    cases hdecl : declared (compensated engineOf m) n with
    | none => simpa using hr
    | some e =>
      obtain ⟨hmem, rfl⟩ := declared_mem hdecl
      rw [h e hmem hdecl r hr]
      rfl
  · exact hr

theorem apply_consistent {w : World} (hw : Consistent w) {t : String} {engineOf : String → EngineType}
    {m : MetadataManifest} {rows : Sequences}
    (hseeds : (compensated engineOf m).foldlM (seed t) w.rows = some rows)
    (h : Undisturbed w (.apply t engineOf m)) : Consistent { w with rows } := by
  refine ⟨hw.distinct, fun t' n v hv => ?_, fun t' n r hr => ?_⟩
  · obtain ⟨r, hr, hle⟩ := hw.recorded t' n v hv
    exact ⟨r, apply_keeps hseeds h hr, hle⟩
  · dsimp only at hr
    rw [seeds_rows hseeds] at hr
    split at hr
    · cases hdecl : declared (compensated engineOf m) n with
      | none =>
        rw [hdecl] at hr
        exact hw.moves t' n r (by simpa using hr)
      | some e =>
        rw [hdecl] at hr
        cases hr
        exact orOne_ne_zero e.2.increment
    · exact hw.moves t' n r hr

theorem step_consistent {w w' : World} {e : Event} (hw : Consistent w) (h : Undisturbed w e)
    (hstep : step w e = some w') : Consistent w' := by
  cases e with
  | nextval t n opts =>
    obtain ⟨⟨r, values⟩, hnext, rfl⟩ := Option.map_eq_some_iff.mp hstep
    exact issue_consistent hw (nextval_continues hnext (fun r₀ hr₀ => hw.moves t n r₀ hr₀) h)
  | insert t n =>
    obtain ⟨r, hnext, rfl⟩ := Option.map_eq_some_iff.mp hstep
    exact issue_consistent hw (autoPopulate_continues hnext (fun r₀ hr₀ => hw.moves t n r₀ hr₀) h)
  | apply t engineOf m =>
    obtain ⟨rows, hseeds, rfl⟩ := Option.map_eq_some_iff.mp hstep
    exact apply_consistent hw hseeds h

def KeepsValues (w w' : World) : Prop :=
  ∀ t n r, w.rows t n = some r → ∃ r', w'.rows t n = some r' ∧ r'.currentValue = r.currentValue

/-- After the event nothing has been handed out twice, and an apply has moved no sequence. -/
def Unreissued (w : World) (e : Event) : Prop :=
  ∀ w', step w e = some w' → w'.issued.Nodup ∧
    ∀ t engineOf m, e = .apply t engineOf m → KeepsValues w w'

theorem step_unreissued {w : World} {e : Event} (hw : Consistent w) (h : Undisturbed w e) :
    Unreissued w e := by
  intro w' hstep
  refine ⟨(step_consistent hw h hstep).distinct, ?_⟩
  rintro t engineOf m rfl t' n r hr
  obtain ⟨rows, hseeds, rfl⟩ := Option.map_eq_some_iff.mp hstep
  exact ⟨r, apply_keeps hseeds h hr, rfl⟩

/-- Nothing is handed out twice as long as every apply finds its rows as it would seed them. -/
theorem never_reissued {es : List Event} (h : Throughout step Undisturbed initial es) :
    Throughout step Unreissued initial es := by
  intro pre e post w hes hpre
  refine step_unreissued ?_ (h pre e post w hes hpre)
  refine run_preserves_under (Q := Undisturbed) (P := Consistent) hpre ?_ consistent_initial
    fun e _ _ _ hw hu hx => step_consistent hw hu hx
  intro pre' e' post' w' hpre' hrun
  exact h pre' e' (post' ++ e :: post) w' (by rw [hes, hpre', List.append_assoc]; rfl) hrun

def ordersManifest : MetadataManifest :=
  ⟨some "orders_store", [],
    [⟨"app", none, [.sequence ⟨"order_no", some 100, none, none, none, none, false⟩]⟩], []⟩

def deploy : Event := .apply "acme" (fun _ => .MONGODB) ordersManifest

def draw (count : ℚ) : Event := .nextval "acme" "order_no" ⟨none, none, some count⟩

/-- Deployed twice before it is first used. -/
theorem deployed_before_use : Throughout step Unreissued initial [deploy, deploy, draw 1, draw 3] ∧
    (run step initial [deploy, deploy, draw 1, draw 3]).map (·.issued.map (·.2.2)) =
      some [100, 101, 102, 103] :=
  ⟨never_reissued (throughout_of_checks (by decide +kernel)), by decide +kernel⟩

/-- A value is handed out again after the same manifest has been applied a second time. -/
theorem redeployed_reissues : ¬ ∀ es : List Event, (∀ e ∈ es, ∀ t engineOf m, e = .apply t engineOf m →
    t = "acme" ∧ (∀ source, engineOf source = .MONGODB) ∧ m = ordersManifest) →
      Throughout step Unreissued initial es := by
  intro hclaim
  have hthroughout := hclaim [deploy, draw 1, deploy, draw 1] ?_
  · have hissued : (run step initial [deploy, draw 1, deploy, draw 1]).map (·.issued) =
        some [("acme", "order_no", 100), ("acme", "order_no", 100)] := by
      decide +kernel
    obtain ⟨w', hrun, hvalues⟩ := Option.map_eq_some_iff.mp hissued
    have hsplit : (run step initial [deploy, draw 1, deploy]).bind (step · (draw 1)) = some w' := hrun
    obtain ⟨w, hpre, hstep⟩ := Option.bind_eq_some_iff.mp hsplit
    obtain ⟨hdistinct, _⟩ := hthroughout [deploy, draw 1, deploy] (draw 1) [] w rfl hpre w' hstep
    rw [hvalues] at hdistinct
    simp at hdistinct
  · intro e he t engineOf m happly
    simp only [List.mem_cons, List.not_mem_nil, or_false] at he
    rcases he with rfl | rfl | rfl | rfl <;> cases happly <;> exact ⟨rfl, fun _ => rfl, rfl⟩

end DataFabric.FabricSequences
