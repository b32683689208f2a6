import DataFabric.JsonTexts
import DataFabric.SetOperations
import Mathlib.Data.Set.Basic

set_option autoImplicit false

/-!
# Partitions of a set operation, in memory and on disk

Every row is written to the partition of its hash as a line that names its leg; the lines are read back
partition by partition.
-/
namespace DataFabric.SpilledPartitions
open CharText JsonTexts FederatedJoins SetOperations

def rowText (r : SourceRow) : String := String.ofList (objectText (fieldTexts r.entries))

def entry (legIdx : ℕ) (text : String) : List Char := (toString legIdx).toList ++ '|' :: text.toList

def written (legs : List (List String)) : List (ℕ × String) :=
  legs.zipIdx.flatMap fun leg => leg.1.map fun text => (leg.2, text)

def inMemory (n : ℕ) (legs : List (List String)) : ℕ → List (List Char) :=
  (written legs).foldl (fun parts row p => if p = partIdx n row.2 then parts p ++ [entry row.1 row.2] else parts p)
    fun _ => []

def onDisk (n : ℕ) (legs : List (List String)) : ℕ → List Char :=
  (written legs).foldl
    (fun files row p => if p = partIdx n row.2 then files p ++ (entry row.1 row.2 ++ ['\n']) else files p) fun _ => []

/-- The lines of a partition; a file that was never written has none. -/
def lines (spill : Bool) (n : ℕ) (legs : List (List String)) (p : ℕ) : List (List Char) :=
  if spill then (splitChars '\n' (onDisk n legs p)).filter (· ≠ []) else inMemory n legs p

def readLine (line : List Char) : Option (ℕ × String) :=
  if '|' ∈ line then
    some (Nat.ofDigitChars 10 (line.takeWhile (· ≠ '|')) 0, String.ofList ((line.dropWhile (· ≠ '|')).drop 1))
  else none

def legRows (ls : List (List Char)) (leg : ℕ) : List String :=
  ((ls.filterMap readLine).filter fun row => row.1 = leg).map Prod.snd

def evaluate (op : SetOp) (n : ℕ) (spill : Bool) (first : List SourceRow) (rest : List (List SourceRow)) : List String :=
  (List.range n).flatMap fun p =>
    let ls := lines spill n ((first :: rest).map fun leg => leg.map rowText) p
    combine op (legRows ls 0) ((List.range rest.length).map fun l => legRows ls (l + 1))

def apply (op : SetOp) (s t : Set String) : Set String :=
  match op with
  | .union => s ∪ t
  | .intersect => s ∩ t
  | .except => s \ t

def leftToRight (op : SetOp) (first : List String) (rest : List (List String)) : Set String :=
  rest.foldl (fun acc leg => apply op acc {t | t ∈ leg}) {t | t ∈ first}

variable {op : SetOp} {n : ℕ} {legs : List (List String)} {text : String}

theorem bar_free (legIdx : ℕ) : '|' ∉ (toString legIdx).toList := by
  intro inside
  rw [Nat.toString_eq_repr, Nat.toList_repr] at inside
  exact absurd (Nat.isDigit_of_mem_toDigits (by decide) (by decide) inside) (by decide)

theorem readLine_entry (legIdx : ℕ) (text : String) : readLine (entry legIdx text) = some (legIdx, text) := by
  have apart : ∀ c ∈ (toString legIdx).toList, (decide (c ≠ '|')) = true := by
    intro c inside
    rw [decide_eq_true_eq]
    exact fun same => bar_free legIdx (same ▸ inside)
  have inside : '|' ∈ entry legIdx text := by simp [entry]
  rw [readLine, if_pos inside, entry, List.takeWhile_append_of_pos apart, List.dropWhile_append_of_pos apart]
  simp

theorem inMemory_eq (n : ℕ) (legs : List (List String)) (p : ℕ) :
    inMemory n legs p = ((written legs).filter fun row => partIdx n row.2 = p).map fun row => entry row.1 row.2 := by
  have general : ∀ (rows : List (ℕ × String)) (parts : ℕ → List (List Char)),
      rows.foldl (fun parts row p => if p = partIdx n row.2 then parts p ++ [entry row.1 row.2] else parts p) parts p =
        parts p ++ (rows.filter fun row => partIdx n row.2 = p).map fun row => entry row.1 row.2 := by
    intro rows
    induction rows with
    | nil => simp
    | cons row rows ih =>
      intro parts
      rw [List.foldl_cons, ih, List.filter_cons]
      by_cases own : partIdx n row.2 = p
      · simp [own]
      · simp [own, Ne.symm own]
  exact general (written legs) fun _ => []

theorem onDisk_eq (n : ℕ) (legs : List (List String)) (p : ℕ) :
    onDisk n legs p = (inMemory n legs p).flatMap fun line => line ++ ['\n'] := by
  have general : ∀ (rows : List (ℕ × String)) (files : ℕ → List Char),
      rows.foldl (fun files row p => if p = partIdx n row.2 then files p ++ (entry row.1 row.2 ++ ['\n']) else files p)
          files p =
        files p ++ ((rows.filter fun row => partIdx n row.2 = p).map fun row => entry row.1 row.2).flatMap
          fun line => line ++ ['\n'] := by
    intro rows
    induction rows with
    | nil => simp
    | cons row rows ih =>
      intro files
      rw [List.foldl_cons, ih, List.filter_cons]
      by_cases own : partIdx n row.2 = p
      · simp [own]
      · simp [own, Ne.symm own]
  rw [inMemory_eq]
  exact general (written legs) fun _ => []

theorem split_lines {ls : List (List Char)} (lines : ∀ line ∈ ls, '\n' ∉ line ∧ line ≠ []) :
    (splitChars '\n' (ls.flatMap fun line => line ++ ['\n'])).filter (· ≠ []) = ls := by
  induction ls with
  | nil => rfl
  | cons line ls ih =>
    rw [List.forall_mem_cons] at lines
    have own : line ++ ['\n'] ++ (ls.flatMap fun line => line ++ ['\n']) =
        line ++ '\n' :: ls.flatMap fun line => line ++ ['\n'] := by simp
    rw [List.flatMap_cons, own, splitChars_append_cons, splitChars_plain lines.1.1, List.filter_append, ih lines.2]
    simp [lines.1.2]

theorem lines_eq (spill : Bool) (oneLine : ∀ leg ∈ legs, ∀ text ∈ leg, '\n' ∉ text.toList) (p : ℕ) :
    lines spill n legs p = inMemory n legs p := by
  cases spill with
  | false => rfl
  | true =>
    rw [lines, if_pos rfl, onDisk_eq]
    apply split_lines
    intro line inside
    rw [inMemory_eq] at inside
    obtain ⟨row, chosen, rfl⟩ := List.mem_map.mp inside
    obtain ⟨leg, inLegs, inLeg⟩ := List.mem_flatMap.mp (List.mem_filter.mp chosen).1
    obtain ⟨text, own, rfl⟩ := List.mem_map.mp inLeg
    constructor
    · intro newline
      rw [entry, List.mem_append, List.mem_cons, Nat.toString_eq_repr, Nat.toList_repr] at newline
      rcases newline with digit | impossible | inText
      · exact absurd (Nat.isDigit_of_mem_toDigits (by decide) (by decide) digit) (by decide)
      · exact absurd impossible (by decide)
      · exact oneLine leg.1 (List.fst_mem_of_mem_zipIdx inLegs) text own inText
    · simp [entry]

theorem written_leg (legs : List (List String)) (k l : ℕ) :
    (((legs.zipIdx k).flatMap fun leg => leg.1.map fun text => (leg.2, text)).filter fun row => row.1 = l).map Prod.snd =
      if l < k then [] else legs.getD (l - k) [] := by
  induction legs generalizing k with
  | nil => simp
  | cons leg legs ih =>
    have own : ((leg.map fun text => (k, text)).filter fun row => row.1 = l).map Prod.snd = if k = l then leg else [] := by
      by_cases same : k = l
      · simp [List.filter_map, Function.comp_def, same]
      · simp [List.filter_map, Function.comp_def, same]
    rw [List.zipIdx_cons, List.flatMap_cons, List.filter_append, List.map_append, own, ih (k + 1)]
    by_cases same : k = l
    · subst same
      simp
    · by_cases before : l < k
      · rw [if_neg same, if_pos (by omega), if_pos before, List.nil_append]
      · have shift : l - k = (l - (k + 1)) + 1 := by omega
        rw [if_neg same, if_neg (by omega), if_neg before, shift, List.getD_cons_succ, List.nil_append]

theorem legRows_inMemory (n : ℕ) (legs : List (List String)) (p l : ℕ) :
    legRows (inMemory n legs p) l = (legs.getD l []).filter fun text => partIdx n text = p := by
  have read : (fun row : ℕ × String => readLine (entry row.1 row.2)) = some := funext fun row => readLine_entry row.1 row.2
  have leg := written_leg legs 0 l
  rw [if_neg (Nat.not_lt_zero l), Nat.sub_zero] at leg
  rw [legRows, inMemory_eq, List.filterMap_map, Function.comp_def, read, List.filterMap_some, List.filter_comm, ← leg,
    List.filter_map]
  rfl

theorem evaluate_eq (op : SetOp) (n : ℕ) (spill : Bool) (first : List SourceRow) (rest : List (List SourceRow)) :
    evaluate op n spill first rest = partitioned op n (first.map rowText) (rest.map fun leg => leg.map rowText) := by
  have oneLine : ∀ leg ∈ (first :: rest).map fun leg => leg.map rowText, ∀ text ∈ leg, '\n' ∉ text.toList := by
    intro leg inLegs text inLeg
    obtain ⟨rows, _, rfl⟩ := List.mem_map.mp inLegs
    obtain ⟨r, _, rfl⟩ := List.mem_map.mp inLeg
    rw [rowText, String.toList_ofList]
    exact (object_tidy (fieldTexts_tidy r.entries)).line
  unfold evaluate partitioned
  apply List.flatMap_congr
  intro p _
  dsimp only
  rw [lines_eq spill oneLine, legRows_inMemory]
  congr 1
  apply List.ext_getElem
  · simp
  · intro l left right
    simp only [List.length_map, List.length_range] at left
    simp [legRows_inMemory, left]

theorem mem_leftToRight {first : List String} {rest : List (List String)} {t : String} :
    t ∈ leftToRight op first rest ↔ Belongs op first rest t := by
  have general : ∀ (rest : List (List String)) (s : Set String),
      t ∈ rest.foldl (fun acc leg => apply op acc {t | t ∈ leg}) s ↔
        match op with
        | .union => t ∈ s ∨ ∃ leg ∈ rest, t ∈ leg
        | .intersect => t ∈ s ∧ ∀ leg ∈ rest, t ∈ leg
        | .except => t ∈ s ∧ ∀ leg ∈ rest, t ∉ leg := by
    intro rest
    induction rest with
    | nil => cases op <;> simp
    | cons leg rest ih =>
      intro s
      rw [List.foldl_cons, ih]
      cases op with
      | union => simp [apply, or_assoc]
      | intersect => simp [apply, and_assoc]
      | except => simp [apply, and_assoc]
  rw [leftToRight, general]
  cases op <;> simp [Belongs]

/-- A query over several legs. -/
structure SetQuery where
  union : Option (List (List SourceRow))
  intersect : Option (List (List SourceRow))
  except : Option (List (List SourceRow))

/-- The operator of the query and its legs. -/
def SetQuery.chosen (q : SetQuery) : SetOp × List (List SourceRow) :=
  match q.union, q.intersect, q.except with
  | some legs, _, _ => (.union, legs)
  | none, some legs, _ => (.intersect, legs)
  | none, none, legs => (.except, legs.getD [])

def SetQuery.evaluate (q : SetQuery) (n : ℕ) (spill : Bool) : List String :=
  match q.chosen.2 with
  | [] => []
  | first :: rest => SpilledPartitions.evaluate q.chosen.1 n spill first rest

/-- The set algebra over the legs of one operator. -/
def operated (op : SetOp) : List (List SourceRow) → Set String
  | [] => ∅
  | first :: rest => leftToRight op (first.map rowText) (rest.map fun leg => leg.map rowText)

/-- All legs of the query with their operators. -/
def SetQuery.chain (q : SetQuery) : List (SetOp × List SourceRow) :=
  (q.union.getD []).map (.union, ·) ++ (q.intersect.getD []).map (.intersect, ·) ++ (q.except.getD []).map (.except, ·)

/-- The set algebra over all of them, from left to right. -/
def SetQuery.algebra (q : SetQuery) : Set String :=
  match q.chain with
  | [] => ∅
  | (_, first) :: rest =>
    rest.foldl (fun acc leg => apply leg.1 acc {t | t ∈ leg.2.map rowText}) {t | t ∈ first.map rowText}

theorem nodup_evaluate (q : SetQuery) (spill : Bool) : (q.evaluate n spill).Nodup := by
  unfold SetQuery.evaluate
  split
  · exact List.nodup_nil
  · rw [evaluate_eq]
    exact nodup_partitioned

theorem mem_evaluate (q : SetQuery) (spill : Bool) (positive : 0 < n) :
    text ∈ q.evaluate n spill ↔ text ∈ operated q.chosen.1 q.chosen.2 := by
  unfold SetQuery.evaluate
  split
  · rename_i none
    rw [none]
    exact iff_of_false List.not_mem_nil (Set.notMem_empty text)
  · rename_i first rest legs
    rw [legs, evaluate_eq, mem_partitioned positive]
    exact mem_leftToRight.symm

/-- Whatever the number of partitions and wherever they are kept, the rows are those of the set operation from
left to right, each once. The operation is the first that the query names. -/
theorem partitions_invisible (q : SetQuery) (n : ℕ) (spill : Bool) (positive : 0 < n) :
    (q.evaluate n spill).Nodup ∧ ∀ t, t ∈ q.evaluate n spill ↔ t ∈ operated q.chosen.1 q.chosen.2 :=
  ⟨nodup_evaluate q spill, fun _ => mem_evaluate q spill positive⟩

def note : SourceRow := ⟨[("text", .str "a|\n1|b")], by decide⟩

def notes : SetQuery := ⟨none, some [[note, note], [note]], none⟩

theorem notes_intersect : (notes.evaluate 16 true).Nodup ∧
    ∀ t, t ∈ notes.evaluate 16 true ↔ t ∈ operated notes.chosen.1 notes.chosen.2 :=
  partitions_invisible notes 16 true (by decide)

/-- Of a query with `union` and `except` the legs of `except` are never looked at. -/
theorem mixed_legs_dropped : ¬ ∀ (q : SetQuery) (n : ℕ) (spill : Bool), 0 < n →
    (q.evaluate n spill).Nodup ∧ ∀ t, t ∈ q.evaluate n spill ↔ t ∈ q.algebra := by
  intro claim
  have all := (claim ⟨some [[note]], none, some [[note]]⟩ 1 false (by decide)).2 (rowText note)
  have present : rowText note ∈ SetQuery.evaluate ⟨some [[note]], none, some [[note]]⟩ 1 false :=
    (mem_evaluate _ false (by decide)).mpr (List.mem_singleton.mpr rfl)
  exact (all.mp present).2 (List.mem_singleton.mpr rfl)

end DataFabric.SpilledPartitions
