import Mathlib.Data.List.Perm.Basic
import Mathlib.Data.List.Nodup

set_option autoImplicit false

/-!
# Rows and the writes a destination takes

A row is its primary key, of which the copies only use the first column, and the other columns.
-/
namespace DataFabric.ReplicaTables

structure Row (κ ν : Type*) where
  /-- The value of `pkCols[0]`. -/
  lead : κ
  others : List κ
  data : ν
deriving DecidableEq

structure TableInfo where
  /-- The primary-key columns after the first one. -/
  width : ℕ
  /-- The table has no column but the first one of its key. -/
  bare : Bool
  /-- The key column holds texts. -/
  textKey : Bool

inductive DestKind | pg | mysql | oracle | mongo | es | snowflake
deriving DecidableEq

variable {κ ν : Type*}

/-- The rows that `hit` picks out take the values of `r`; without one `r` is added. -/
def putRow (hit : Row κ ν → Bool) (rows : List (Row κ ν)) (r : Row κ ν) : List (Row κ ν) :=
  if rows.any hit then rows.map fun s => if hit s then r else s else rows ++ [r]

def Keyed (rows : List (Row κ ν)) : Prop := (rows.map Row.lead).Nodup

theorem mem_putRow {hit : Row κ ν → Bool} {rows : List (Row κ ν)} {r x : Row κ ν} :
    x ∈ putRow hit rows r ↔ x = r ∨ x ∈ rows ∧ hit x = false := by
  unfold putRow
  by_cases h : rows.any hit = true
  · rw [if_pos h, List.mem_map]
    rw [List.any_eq_true] at h
    constructor
    · rintro ⟨s, hs, rfl⟩
      by_cases hhit : hit s = true
      · exact .inl (if_pos hhit)
      · rw [if_neg hhit]
        exact .inr ⟨hs, Bool.eq_false_iff.mpr hhit⟩
    · rintro (rfl | ⟨hx, hhit⟩)
      · obtain ⟨s, hs, hsh⟩ := h
        exact ⟨s, hs, if_pos hsh⟩
      · exact ⟨x, hx, by simp [hhit]⟩
  · rw [if_neg h, List.mem_append, List.mem_singleton]
    rw [List.any_eq_true] at h
    constructor
    · rintro (hx | rfl)
      · exact .inr ⟨hx, Bool.eq_false_iff.mpr fun hhit => h ⟨x, hx, hhit⟩⟩
      · exact .inl rfl
    · rintro (rfl | ⟨hx, -⟩)
      · exact .inr rfl
      · exact .inl hx

theorem keyed_filter {rows : List (Row κ ν)} (h : Keyed rows) (p : Row κ ν → Bool) : Keyed (rows.filter p) :=
  h.sublist (List.filter_sublist.map _)

theorem keyed_inj {rows : List (Row κ ν)} {r x : Row κ ν} (h : Keyed rows) (hr : r ∈ rows) (hx : x ∈ rows) (heq : x.lead = r.lead) : x = r :=
  List.inj_on_of_nodup_map h hx hr heq

variable [DecidableEq κ]

def sameLead (r s : Row κ ν) : Bool := s.lead == r.lead

def samePk (r s : Row κ ν) : Bool := s.lead == r.lead && s.others == r.others

/-- One row of `DestOps.upsert`; `none` is a statement the engine refuses. -/
def upsert (kind : DestKind) (t : TableInfo) (rows : List (Row κ ν)) (r : Row κ ν) :
    Option (List (Row κ ν)) :=
  match kind with
  -- `ON CONFLICT (pk)` needs a unique constraint on exactly that column
  | .pg => if t.width = 0 then some (putRow (sameLead r) rows r) else none
  -- without a column to update the clause `ON DUPLICATE KEY` is left out
  | .mysql => if t.bare && rows.any (samePk r) then none else some (putRow (samePk r) rows r)
  -- `MERGE` rewrites every row with the key's first column, and two rows cannot take one key
  | .oracle =>
    if (rows.filter (sameLead r)).length ≤ 1 then some (putRow (sameLead r) rows r) else none
  | .snowflake => some (putRow (sameLead r) rows r)
  -- documents are replaced by `_id`, the first column of the key
  | .mongo | .es => some (putRow (sameLead r) rows r)

/-- `DestOps.del`: the key arrives as text, which MongoDB does not convert. -/
def del (kind : DestKind) (t : TableInfo) (rows : List (Row κ ν)) (pk : κ) : List (Row κ ν) :=
  match kind with
  | .mongo => if t.textKey then rows.filter fun s => s.lead != pk else rows
  | _ => rows.filter fun s => s.lead != pk

/-- The upsert of a row by the first key column, where nothing else decides. -/
def Plain (kind : DestKind) (t : TableInfo) : Prop :=
  t.width = 0 ∧ (kind = .mongo → t.textKey = true) ∧ (kind = .mysql → t.bare = false)

instance (kind : DestKind) (t : TableInfo) : Decidable (Plain kind t) := by
  unfold Plain
  infer_instance

section Rows

variable {rows : List (Row κ ν)} {r x : Row κ ν}

theorem mem_upsert_lead : x ∈ putRow (sameLead r) rows r ↔ x = r ∨ x ∈ rows ∧ x.lead ≠ r.lead := by
  rw [mem_putRow]
  simp [sameLead]

theorem keyed_putRow (h : Keyed rows) : Keyed (putRow (sameLead r) rows r) := by
  unfold putRow
  by_cases hany : rows.any (sameLead r) = true
  · rw [if_pos hany]
    have hsame : ((rows.map fun s => if sameLead r s then r else s).map Row.lead) =
        rows.map Row.lead := by
      rw [List.map_map]
      refine List.map_congr_left fun s _ => ?_
      by_cases hs : sameLead r s = true
      · have hlead : s.lead = r.lead := by simpa [sameLead] using hs
        change (if sameLead r s then r else s).lead = s.lead
        rw [if_pos hs, hlead]
      · simp [hs]
    unfold Keyed
    rwa [hsame]
  · rw [if_neg hany]
    unfold Keyed
    rw [List.map_append, List.map_singleton]
    refine List.nodup_append.mpr ⟨h, List.nodup_singleton _, ?_⟩
    intro k hk l hl heq
    obtain ⟨s, hs, rfl⟩ := List.mem_map.mp hk
    rw [List.mem_singleton] at hl
    exact hany (List.any_eq_true.mpr ⟨s, hs, by simp [sameLead, heq, hl]⟩)

theorem hits_le_one (h : Keyed rows) : (rows.filter (sameLead r)).length ≤ 1 := by
  have hkeyed := keyed_filter h (sameLead r)
  match hf : rows.filter (sameLead r) with
  | [] => simp
  | [a] => simp
  | a :: b :: rest =>
    have ha : a ∈ rows.filter (sameLead r) := by simp [hf]
    have hb : b ∈ rows.filter (sameLead r) := by simp [hf]
    have hlead : a.lead = b.lead := by
      have h1 := (List.mem_filter.mp ha).2
      have h2 := (List.mem_filter.mp hb).2
      rw [sameLead, beq_iff_eq] at h1 h2
      rw [h1, h2]
    rw [hf] at hkeyed
    unfold Keyed at hkeyed
    rw [List.map_cons, List.map_cons, List.nodup_cons, hlead] at hkeyed
    exact absurd List.mem_cons_self hkeyed.1

end Rows

section Plain

variable {kind : DestKind} {t : TableInfo} {rows : List (Row κ ν)} {r : Row κ ν}

theorem upsert_plain (hplain : Plain kind t) (hkeyed : Keyed rows)
    (hflat : ∀ s ∈ rows, s.others = r.others) :
    upsert kind t rows r = some (putRow (sameLead r) rows r) := by
  cases kind with
  | pg => exact if_pos hplain.1
  | mysql =>
    have hbare := hplain.2.2 rfl
    have hsame : putRow (samePk r) rows r = putRow (sameLead r) rows r := by
      have hcongr : ∀ s ∈ rows, samePk r s = sameLead r s := by
        intro s hs
        simp [samePk, sameLead, hflat s hs]
      have hany : rows.any (samePk r) = rows.any (sameLead r) := by
        rw [Bool.eq_iff_iff, List.any_eq_true, List.any_eq_true]
        constructor <;> rintro ⟨s, hs, hh⟩
        · exact ⟨s, hs, hcongr s hs ▸ hh⟩
        · exact ⟨s, hs, (hcongr s hs).symm ▸ hh⟩
      unfold putRow
      rw [hany]
      congr 1
      exact List.map_congr_left fun s hs => by rw [hcongr s hs]
    simp [upsert, hbare, hsame]
  | oracle => exact if_pos (hits_le_one hkeyed)
  | snowflake => rfl
  | mongo => rfl
  | es => rfl

theorem del_plain (hplain : Plain kind t) (pk : κ) :
    del kind t rows pk = rows.filter fun s => s.lead != pk := by
  cases kind with
  | mongo => simp [del, hplain.2.1 rfl]
  | pg => rfl
  | mysql => rfl
  | oracle => rfl
  | es => rfl
  | snowflake => rfl

end Plain

end DataFabric.ReplicaTables
