import DataFabric.KeyedJoins
import DataFabric.OrderedRecords
import Mathlib.Data.List.Induction

set_option autoImplicit false

/-!
# Folds over the groups of a list

A record of accumulators, one for each key of the list in the order of their first
rows. What it holds of a key is the fold over the rows of that key.
-/
namespace DataFabric.OrderedRecords
open KeyedJoins

universe u v w

section

variable {κ : Type u} {ν : Type v} [DecidableEq κ]

def Record.erase (r : Record κ ν) (k : κ) : Record κ ν where
  entries := r.entries.filter fun e => e.1 ≠ k
  distinct := r.distinct.sublist (List.filter_sublist.map _)

@[simp] theorem Record.get?_erase (r : Record κ ν) (k k' : κ) :
    (r.erase k).get? k' = if k' = k then none else r.get? k' := by
  apply Option.ext
  intro v
  rw [get?_eq_some_iff, erase, List.mem_filter]
  by_cases h : k' = k
  · simp [h]
  · simp [h, get?_eq_some_iff]

def Record.ofEntries (es : List (κ × ν)) : Record κ ν := es.foldl (fun r e => r.assign e.1 e.2) .empty

theorem Record.get?_ofEntries {es : List (κ × ν)} (hes : (es.map Prod.fst).Nodup) (k : κ) :
    (ofEntries es).get? k = es.lookup k := by
  have fields := get?_foldl_update (fun _ _ v => v) hes empty k
  rwa [get?_empty, Option.or_none, Option.map_id'] at fields

theorem Record.entries_eq (r : Record κ ν) {f : κ → ν} {keys : List κ} (hkeys : r.entries.map Prod.fst = keys)
    (held : ∀ k ∈ keys, r.get? k = some (f k)) : r.entries = keys.map fun k => (k, f k) := by
  rw [← hkeys, List.map_map]
  symm
  rw [List.map_congr_left (g := id), List.map_id]
  intro e inEntries
  have value := held e.1 (hkeys ▸ List.mem_map_of_mem inEntries)
  rw [(r.get?_eq_some_iff e.1 e.2).mpr inEntries, Option.some.injEq] at value
  simp [← value]

end

section

variable {α : Type u} {β : Type v} {κ : Type w} [DecidableEq κ]

def distinctKeys (keys : List κ) : List κ := keys.eraseDups

theorem mem_distinctKeys {keys : List κ} {k : κ} : k ∈ distinctKeys keys ↔ k ∈ keys := List.mem_eraseDups

theorem nodup_distinctKeys (keys : List κ) : (distinctKeys keys).Nodup := nodup_eraseDups keys

/-- `groups.get(key)`, made by `start` for a new key, takes in the row. -/
def groupStep (key : α → κ) (start : α → β) (step : β → α → β) (groups : Record κ β) (row : α) : Record κ β :=
  groups.assign (key row) (step ((groups.get? (key row)).getD (start row)) row)

def groupFold (key : α → κ) (start : α → β) (step : β → α → β) (rows : List α) : Record κ β :=
  rows.foldl (groupStep key start step) .empty

variable {key : α → κ} {start : α → β} {step : β → α → β}

theorem groupFold_congr {γ : Type*} {f g : γ → α} {xs : List γ} (hkey : ∀ x ∈ xs, key (f x) = key (g x))
    (hstart : ∀ x ∈ xs, start (f x) = start (g x)) (hstep : ∀ x ∈ xs, ∀ b, step b (f x) = step b (g x)) :
    groupFold key start step (xs.map f) = groupFold key start step (xs.map g) := by
  unfold groupFold
  generalize (Record.empty : Record κ β) = groups
  induction xs generalizing groups with
  | nil => rfl
  | cons x xs ih =>
    have hrow : groupStep key start step groups (f x) = groupStep key start step groups (g x) := by
      unfold groupStep
      rw [hkey x List.mem_cons_self, hstart x List.mem_cons_self, hstep x List.mem_cons_self]
    rw [List.map_cons, List.map_cons, List.foldl_cons, List.foldl_cons, hrow]
    exact ih (fun y hy => hkey y (List.mem_cons_of_mem _ hy)) (fun y hy => hstart y (List.mem_cons_of_mem _ hy))
      (fun y hy => hstep y (List.mem_cons_of_mem _ hy)) _

theorem groupFold_concat (rows : List α) (row : α) :
    groupFold key start step (rows ++ [row]) = groupStep key start step (groupFold key start step rows) row := by
  rw [groupFold, List.foldl_append]
  rfl

theorem keys_groupFold (rows : List α) :
    (groupFold key start step rows).entries.map Prod.fst = distinctKeys (rows.map key) := by
  rw [distinctKeys]
  induction rows using List.reverseRecOn with
  | nil => rfl
  | append_singleton rows row ih =>
    rw [groupFold_concat, groupStep, Record.assign, assignEntry_keys, ih, List.map_append, List.eraseDups_append,
      List.map_singleton]
    by_cases seen : key row ∈ rows.map key
    · have old : [key row].removeAll (rows.map key) = [] := by
        rw [List.removeAll, List.filter_cons_of_neg (by simpa using seen), List.filter_nil]
      rw [if_pos (List.mem_eraseDups.mpr seen), old, List.eraseDups_nil, List.append_nil]
    · have new : [key row].removeAll (rows.map key) = [key row] := by
        rw [List.removeAll, List.filter_cons_of_pos (by simpa using seen), List.filter_nil]
      rw [if_neg (fun h => seen (List.mem_eraseDups.mp h)), new]
      rfl

theorem get?_groupFold {first : κ → β} (hstart : ∀ row, start row = first (key row)) (rows : List α) (k : κ) :
    (groupFold key start step rows).get? k =
      if k ∈ rows.map key then some ((rows.filter fun row => key row = k).foldl step (first k)) else none := by
  induction rows using List.reverseRecOn with
  | nil => rfl
  | append_singleton rows row ih =>
    rw [groupFold_concat, groupStep, Record.get?_assign, List.filter_append, List.foldl_append, List.map_append,
      List.map_singleton]
    by_cases same : k = key row
    · subst same
      rw [ih, hstart]
      by_cases seen : key row ∈ rows.map key
      · simp [seen]
      · have none : (rows.filter fun r => key r = key row) = [] := by
          rw [List.filter_eq_nil_iff]
          intro r inRows equal
          exact seen (of_decide_eq_true equal ▸ List.mem_map_of_mem inRows)
        simp [seen, none]
    · have other : ¬ key row = k := fun h => same h.symm
      rw [if_neg same, ih]
      simp [same, other]

theorem groupFold_entries (first : κ → β) (hstart : ∀ row, start row = first (key row)) (rows : List α) :
    (groupFold key start step rows).entries =
      (distinctKeys (rows.map key)).map fun k => (k, (rows.filter fun row => key row = k).foldl step (first k)) := by
  apply Record.entries_eq _ (keys_groupFold rows)
  intro k inKeys
  rw [get?_groupFold hstart, if_pos (mem_distinctKeys.mp inKeys)]

theorem distinctKeys_of_nodup {keys : List κ} (nodup : keys.Nodup) : distinctKeys keys = keys := by
  rw [distinctKeys]
  induction keys with
  | nil => rfl
  | cons k keys ih =>
    rw [List.nodup_cons] at nodup
    have others : (keys.filter fun b => !b == k) = keys := by
      rw [List.filter_eq_self]
      intro b inKeys
      have differ : b ≠ k := fun same => nodup.1 (same ▸ inKeys)
      simp [differ]
    rw [List.eraseDups_cons, others, ih nodup.2]

theorem filter_own {rows : List α} (nodup : (rows.map key).Nodup) {row : α} (inRows : row ∈ rows) :
    (rows.filter fun r => key r = key row) = [row] := by
  have distinct := List.Nodup.of_map _ nodup
  have inFilter : row ∈ rows.filter fun r => key r = key row :=
    List.mem_filter.mpr ⟨inRows, decide_eq_true rfl⟩
  apply List.perm_singleton.mp
  rw [List.perm_ext_iff_of_nodup (distinct.filter _) (List.nodup_singleton _)]
  intro r
  rw [List.mem_singleton, List.mem_filter]
  constructor
  · intro same
    exact List.inj_on_of_nodup_map nodup same.1 inRows (of_decide_eq_true same.2)
  · rintro rfl
    exact List.mem_filter.mp inFilter

theorem groupFold_entries_of_nodup (first : κ → β) (hstart : ∀ row, start row = first (key row)) {rows : List α}
    (nodup : (rows.map key).Nodup) :
    (groupFold key start step rows).entries = rows.map fun row => (key row, step (start row) row) := by
  rw [groupFold_entries first hstart, distinctKeys_of_nodup nodup, List.map_map]
  apply List.map_congr_left
  intro row inRows
  rw [Function.comp_apply, filter_own nodup inRows, hstart]
  rfl

end

section

variable {κ : Type u} {ρ : Type v}

theorem map_perm_map_iff {keys others : List κ} {f g : κ → ρ} (perm : keys.Perm others)
    (shown : ∀ k ∈ keys, ∀ k' ∈ keys, f k = g k' → k = k') :
    (keys.map f).Perm (others.map g) ↔ ∀ k ∈ keys, f k = g k := by
  constructor
  · intro same k inKeys
    have inOthers := same.subset (List.mem_map_of_mem inKeys)
    rcases List.mem_map.mp inOthers with ⟨k', inOthers, equal⟩
    have same := shown k inKeys k' (perm.mem_iff.mpr inOthers) equal.symm
    rw [← same] at equal
    exact equal.symm
  · intro same
    rw [List.map_congr_left same]
    exact perm.map g

end

end DataFabric.OrderedRecords
