import DataFabric.FabricSequences

set_option autoImplicit false

/-!
# The blocks that concurrent callers get

A call advances the row of its sequence in one statement and computes its block from the row
that comes back, so an interleaving of calls is an order of their statements.
-/
namespace DataFabric.SequenceBlocks
open TransitionRuns Doubles FabricSequences

structure Call where
  tenantId : String
  name : String
  opts : NextvalOptions

/-- The rows after the statement of a call; a refused one changes nothing. -/
def serve (rows : Sequences) (c : Call) : Option Sequences :=
  some ((nextval rows c.tenantId c.name c.opts).elim rows fun r => rows.put c.tenantId c.name r.1)

section

variable (t n : String)

/-- What the callers of one sequence get, in the order of their statements. -/
def blocks : Sequences → List Call → List (List ℤ)
  | _, [] => []
  | rows, c :: cs =>
    match nextval rows c.tenantId c.name c.opts with
    | none => blocks rows cs
    | some (r, values) =>
      let later := blocks (rows.put c.tenantId c.name r) cs
      if c.tenantId = t ∧ c.name = n then values :: later else later

/-- The start value and the stored increment: of the row if there is one, else of the call that makes it. -/
def definition : Sequences → List Call → Option (ℤ × ℤ)
  | rows, [] => (rows t n).map fun r => (r.currentValue + r.increment, r.increment)
  | rows, c :: cs =>
    match rows t n with
    | some r => some (r.currentValue + r.increment, r.increment)
    | none =>
      match nextval rows c.tenantId c.name c.opts with
      | none => definition rows cs
      | some (r, _) =>
        if c.tenantId = t ∧ c.name = n then some (c.opts.first, c.opts.inc)
        else definition (rows.put c.tenantId c.name r) cs

end

def progression (start increment : ℤ) (count : ℕ) : List ℤ :=
  (List.range count).map fun i : ℕ => start + increment * i

/-- The first and the last value of the block are met exactly. -/
def Representable (row : Option FabricSequence) (opts : NextvalOptions) : Prop :=
  match row with
  | none => Exact opts.first ∧ Exact (opts.first + opts.inc * (opts.size - 1))
  | some r => Exact (r.currentValue + r.increment) ∧ Exact (r.currentValue + r.increment * opts.size)

instance : (row : Option FabricSequence) → (opts : NextvalOptions) → Decidable (Representable row opts)
  | none, opts => inferInstanceAs (Decidable (Exact opts.first ∧ Exact (opts.first + opts.inc * (opts.size - 1))))
  | some r, opts =>
    inferInstanceAs (Decidable (Exact (r.currentValue + r.increment) ∧ Exact (r.currentValue + r.increment * opts.size)))

/-- The condition on a statement of the sequence and the rows before it. -/
def Fits (t n : String) (rows : Sequences) (c : Call) : Prop :=
  c.tenantId = t ∧ c.name = n → Representable (rows t n) c.opts

instance (t n : String) (rows : Sequences) (c : Call) : Decidable (Fits t n rows c) := by
  unfold Fits
  infer_instance

section

variable {s d : ℤ}

theorem progression_append (s d : ℤ) (k m : ℕ) :
    progression s d (k + m) = progression s d k ++ progression (s + d * k) d m := by
  unfold progression
  rw [List.range_add, List.map_append, List.map_map]
  congr 1
  apply List.map_congr_left
  intro i _
  change s + d * ((k + i : ℕ) : ℤ) = s + d * k + d * i
  push_cast
  ring

theorem progression_nodup (moves : d ≠ 0) (s : ℤ) (k : ℕ) : (progression s d k).Nodup := by
  apply List.nodup_range.map
  intro i j same
  have product : d * (i : ℤ) = d * (j : ℤ) := by
    dsimp only at same
    omega
  exact_mod_cast mul_left_cancel₀ moves product

theorem block_progression (c d : ℤ) (count : ℕ) : block c d count = progression (c - d * (count - 1)) d count := by
  unfold block progression
  apply List.ext_getElem
  · simp
  · intro i inBlock _
    rw [List.length_map, List.length_reverse, List.length_range] at inBlock
    rw [List.getElem_map, List.getElem_map, List.getElem_reverse, List.getElem_range, List.getElem_range,
      List.length_range]
    have back : ((count - 1 - i : ℕ) : ℤ) = (count : ℤ) - 1 - i := by omega
    rw [back]
    ring

end

section

variable {t n : String} {rows : Sequences} {opts : NextvalOptions} {r r₀ : FabricSequence} {values : List ℤ}

theorem nextval_some (h : nextval rows t n opts = some (r, values)) :
    allocate (rows t n) opts = some r ∧ values = blockOf r opts.size := by
  unfold nextval at h
  split at h
  · obtain ⟨own, allocated, same⟩ := Option.map_eq_some_iff.mp h
    cases same
    exact ⟨allocated, rfl⟩
  · cases h

theorem new_block (row : rows t n = none) (h : nextval rows t n opts = some (r, values))
    (fits : Representable none opts) :
    r = ⟨opts.first + opts.inc * (opts.size - 1), opts.inc⟩ ∧ values = progression opts.first opts.inc opts.size := by
  obtain ⟨allocated, rfl⟩ := nextval_some h
  rw [row] at allocated
  obtain ⟨small, rfl⟩ := allocate_new allocated
  obtain ⟨first, last⟩ := fits
  obtain ⟨steps, seeded⟩ := seed_exact small last
  have pos := opts.size_pos
  have back : ((opts.size - 1 : ℕ) : ℤ) = (opts.size : ℤ) - 1 := by omega
  have whole := blockOf_exact (r := ⟨opts.seed, opts.inc⟩) pos (by rw [seeded, back]; exact last)
    (by rw [seeded]; simpa using first) steps
  rw [whole, block_progression, seeded, back]
  constructor
  · rfl
  · congr 1
    ring

theorem next_block (row : rows t n = some r₀) (h : nextval rows t n opts = some (r, values))
    (fits : Representable (some r₀) opts) :
    r = ⟨r₀.currentValue + r₀.increment * opts.size, r₀.increment⟩ ∧
      values = progression (r₀.currentValue + r₀.increment) r₀.increment opts.size := by
  obtain ⟨allocated, rfl⟩ := nextval_some h
  rw [row] at allocated
  obtain ⟨small, rfl⟩ := allocate_next allocated
  obtain ⟨first, last⟩ := fits
  have pos := opts.size_pos
  have back : ((opts.size - 1 : ℕ) : ℤ) = (opts.size : ℤ) - 1 := by omega
  have start : r₀.currentValue + r₀.increment * (opts.size : ℤ) - r₀.increment * ((opts.size : ℤ) - 1) =
      r₀.currentValue + r₀.increment := by ring
  have product : (r₀.increment * (opts.size : ℤ)).natAbs ≤ 2 ^ 53 := (int4_bounds small).trans (by norm_num)
  have steps : Exact (r₀.increment * ((opts.size - 1 : ℕ) : ℤ)) := exact_step product (by omega)
  have whole := blockOf_exact (r := ⟨r₀.currentValue + r₀.increment * opts.size, r₀.increment⟩) pos last
    (by dsimp only; rw [back, start]; exact first) steps
  rw [whole, block_progression, start]
  exact ⟨rfl, rfl⟩

end

section

variable {t n : String} {rows : Sequences} {calls : List Call}

theorem blocks_continue {r₀ : FabricSequence} (row : rows t n = some r₀) (fits : Throughout serve (Fits t n) rows calls) :
    ∃ count, (blocks t n rows calls).flatten = progression (r₀.currentValue + r₀.increment) r₀.increment count := by
  induction calls generalizing rows r₀ with
  | nil => exact ⟨0, rfl⟩
  | cons c cs ih =>
    rw [blocks]
    have here := fits [] c cs rows rfl rfl
    have after := fits.tail rfl
    cases called : nextval rows c.tenantId c.name c.opts with
    | none =>
      rw [called] at after
      exact ih row after
    | some step =>
      obtain ⟨r, values⟩ := step
      rw [called] at after
      dsimp only
      by_cases own : c.tenantId = t ∧ c.name = n
      · obtain ⟨rfl, rfl⟩ := own
        rw [if_pos ⟨rfl, rfl⟩, List.flatten_cons]
        have fit := here ⟨rfl, rfl⟩
        rw [row] at fit
        obtain ⟨rfl, rfl⟩ := next_block row called fit
        obtain ⟨count, rest⟩ := ih (put_self _ _ _ _) after
        refine ⟨c.opts.size + count, ?_⟩
        rw [rest, progression_append]
        congr 2
        dsimp only
        ring
      · rw [if_neg own]
        refine ih ?_ after
        rw [put_other fun same => own ⟨same.1.symm, same.2.symm⟩, row]

theorem blocks_progress {start increment : ℤ} (defined : definition t n rows calls = some (start, increment))
    (fits : Throughout serve (Fits t n) rows calls) :
    ∃ count, (blocks t n rows calls).flatten = progression start increment count := by
  induction calls generalizing rows with
  | nil => exact ⟨0, rfl⟩
  | cons c cs ih =>
    cases row : rows t n with
    | some r₀ =>
      rw [definition, row] at defined
      cases defined
      exact blocks_continue row fits
    | none =>
      rw [definition, row] at defined
      dsimp only at defined
      rw [blocks]
      have here := fits [] c cs rows rfl rfl
      have after := fits.tail rfl
      cases called : nextval rows c.tenantId c.name c.opts with
      | none =>
        rw [called] at after defined
        exact ih defined after
      | some step =>
        obtain ⟨r, values⟩ := step
        rw [called] at after defined
        dsimp only at defined ⊢
        by_cases own : c.tenantId = t ∧ c.name = n
        · obtain ⟨rfl, rfl⟩ := own
          rw [if_pos ⟨rfl, rfl⟩] at defined
          cases defined
          have fit := here ⟨rfl, rfl⟩
          rw [row] at fit
          obtain ⟨rfl, rfl⟩ := new_block row called fit
          obtain ⟨count, rest⟩ := blocks_continue (put_self _ _ _ _) after
          refine ⟨c.opts.size + count, ?_⟩
          rw [if_pos ⟨rfl, rfl⟩, List.flatten_cons, rest, progression_append]
          congr 2
          dsimp only
          ring
        · rw [if_neg own] at defined ⊢
          exact ih defined after

/-- Blocks that stay among the exact integers are pairwise disjoint and make up the progression. -/
theorem blocks_disjoint {start increment : ℤ} (defined : definition t n rows calls = some (start, increment))
    (moves : increment ≠ 0) (fits : Throughout serve (Fits t n) rows calls) :
    (blocks t n rows calls).Pairwise List.Disjoint ∧
      ∃ count, (blocks t n rows calls).flatten = progression start increment count := by
  obtain ⟨count, whole⟩ := blocks_progress defined fits
  have distinct := progression_nodup moves start count
  rw [← whole] at distinct
  exact ⟨(List.nodup_flatten.mp distinct).2, count, whole⟩

end

def invoice (count : ℚ) : Call := ⟨"acme", "invoice", ⟨some 10, some (-2), some count⟩⟩

theorem invoices_disjoint :
    (blocks "acme" "invoice" (fun _ _ => none) [invoice 3, ⟨"acme", "order", ⟨none, none, none⟩⟩, invoice 2]).Pairwise
        List.Disjoint ∧
      ∃ count, (blocks "acme" "invoice" (fun _ _ => none)
        [invoice 3, ⟨"acme", "order", ⟨none, none, none⟩⟩, invoice 2]).flatten = progression 10 (-2) count :=
  blocks_disjoint (by decide +kernel) (by decide) (throughout_of_checks (by decide +kernel))

/-- From `2 ^ 53` on two callers may be handed one value. -/
theorem large_blocks_overlap : ¬ ∀ (t n : String) (rows : Sequences) (calls : List Call) (start increment : ℤ),
    definition t n rows calls = some (start, increment) → increment ≠ 0 →
      (blocks t n rows calls).Pairwise List.Disjoint ∧
        ∃ count, (blocks t n rows calls).flatten = progression start increment count := by
  intro always
  have two := always "acme" "invoice" (fun _ _ => none)
    [⟨"acme", "invoice", ⟨some (2 ^ 53), none, none⟩⟩, ⟨"acme", "invoice", ⟨none, none, none⟩⟩] (2 ^ 53) 1
    (by decide +kernel) (by decide)
  have same : blocks "acme" "invoice" (fun _ _ => none)
      [⟨"acme", "invoice", ⟨some (2 ^ 53), none, none⟩⟩, ⟨"acme", "invoice", ⟨none, none, none⟩⟩] =
        [[2 ^ 53], [2 ^ 53]] := by decide +kernel
  rw [same] at two
  simpa using two.1

end DataFabric.SequenceBlocks
