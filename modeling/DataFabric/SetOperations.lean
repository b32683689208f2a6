import DataFabric.FederatedJoins

set_option autoImplicit false

/-!
# Set operations across sources

The rows of the legs are told apart by their JSON text and combined partition by
partition. With the default row cap every leg is cut at the LIMIT of the whole query.
-/
namespace DataFabric.SetOperations
open KeyedJoins FederatedJoins

inductive SetOp
  | union | intersect | except
  deriving DecidableEq, Repr

structure SortKey where
  column : String
  descending : Bool
  deriving DecidableEq, Repr

/-- `JSON.parse` and the language's sort by the columns of the keys. -/
structure Language where
  parse : String → SourceRow
  sort : List SortKey → List SourceRow → List SourceRow
  sort_perm : ∀ ks rows, (sort ks rows).Perm rows

structure Window where
  orderBy : List SortKey := []
  limit : Option ℕ := none
  offset : Option ℕ := none

def codeUnits (c : Char) : List ℕ :=
  if c.toNat < 0x10000 then [c.toNat]
  else [0xD800 + (c.toNat - 0x10000) / 0x400, 0xDC00 + (c.toNat - 0x10000) % 0x400]

def toInt32 (v : ℤ) : ℤ := v.bmod (2 ^ 32)

/-- `hash = (hash << 5) - hash + code; hash |= 0` over the text. -/
def rowHash (text : String) : ℤ :=
  (text.toList.flatMap codeUnits).foldl (fun hash code => toInt32 (toInt32 (32 * hash) - hash + code)) 0

def partIdx (numPartitions : ℕ) (text : String) : ℕ := (rowHash text).natAbs % numPartitions

/-- By the LIMIT, if it is positive, and the estimated rows of all legs. -/
def numPartitions (outerLimit : Option ℕ) (totalEstimatedRows : ℚ) : ℕ :=
  if outerLimit.any (· < 10000) then 1
  else if totalEstimatedRows < 50000 then 1
  else if totalEstimatedRows < 2000000 then 16
  else if totalEstimatedRows < 10000000 then 64
  else 128

def combine (op : SetOp) (first : List String) (rest : List (List String)) : List String :=
  match op with
  | .union => ((first :: rest).map List.eraseDups).flatten.eraseDups
  | .intersect => first.eraseDups.filter fun t => rest.all fun leg => leg.eraseDups.contains t
  | .except => first.eraseDups.filter fun t => !rest.any fun leg => leg.eraseDups.contains t

def partitioned (op : SetOp) (n : ℕ) (first : List String) (rest : List (List String)) : List String :=
  (List.range n).flatMap fun p =>
    combine op (first.filter fun t => partIdx n t = p) (rest.map fun leg => leg.filter fun t => partIdx n t = p)

def outerLimit (w : Window) : Option ℕ := w.limit.filter (0 < ·)

/-- How many rows are read of a leg; `envCap` is `maxRowsPerLeg()`. -/
def legCap (envCap : ℕ) (w : Window) : ℕ := if envCap = 50000 then (outerLimit w).getD 10000000 else envCap

def applyOrderLimit (lang : Language) (w : Window) (rows : List SourceRow) : List SourceRow :=
  let sorted := if w.orderBy = [] then rows else lang.sort w.orderBy rows
  let off := w.offset.getD 0
  match w.limit with
  | some n => (sorted.drop off).take n
  | none => sorted.drop off

def executeSetOp (lang : Language) (envCap : ℕ) (totalEstimatedRows : ℚ) (op : SetOp) (w : Window)
    (first : List String) (rest : List (List String)) : List SourceRow :=
  let cap := legCap envCap w
  let rows := partitioned op (numPartitions (outerLimit w) totalEstimatedRows) (first.take cap)
    (rest.map fun leg => leg.take cap)
  applyOrderLimit lang w (rows.map lang.parse)

def Belongs (op : SetOp) (first : List String) (rest : List (List String)) (t : String) : Prop :=
  match op with
  | .union => ∃ leg ∈ first :: rest, t ∈ leg
  | .intersect => ∀ leg ∈ first :: rest, t ∈ leg
  | .except => t ∈ first ∧ ∀ leg ∈ rest, t ∉ leg

/-- The rows of the operation over the complete legs, in some order, then sorted and cut once. -/
def Right (lang : Language) (op : SetOp) (w : Window) (first : List String) (rest : List (List String))
    (result : List SourceRow) : Prop :=
  ∃ rows : List String, rows.Nodup ∧ (∀ t, t ∈ rows ↔ Belongs op first rest t) ∧
    result = applyOrderLimit lang w (rows.map lang.parse)

section

variable {op : SetOp} {n : ℕ} {first : List String} {rest : List (List String)} {t : String}

theorem mem_combine : t ∈ combine op first rest ↔ Belongs op first rest t := by
  cases op with
  | union => simp [combine, Belongs, List.mem_eraseDups]
  | intersect => simp [combine, Belongs, List.mem_eraseDups]
  | except => simp [combine, Belongs, List.mem_eraseDups]

theorem nodup_combine : (combine op first rest).Nodup := by
  cases op with
  | union => exact nodup_eraseDups _
  | intersect => exact (nodup_eraseDups _).filter _
  | except => exact (nodup_eraseDups _).filter _

theorem belongs_partition (p : ℕ) :
    Belongs op (first.filter fun t => partIdx n t = p) (rest.map fun leg => leg.filter fun t => partIdx n t = p) t ↔
      Belongs op first rest t ∧ partIdx n t = p := by
  cases op with
  | union =>
    simp only [Belongs, List.mem_cons, exists_eq_or_imp, List.mem_map, exists_exists_and_eq_and, List.mem_filter,
      decide_eq_true_eq]
    grind
  | intersect =>
    simp only [Belongs, List.mem_cons, forall_eq_or_imp, List.mem_filter, List.forall_mem_map, decide_eq_true_eq]
    grind
  | except =>
    simp only [Belongs, List.mem_filter, List.forall_mem_map, decide_eq_true_eq]
    grind

theorem mem_partitioned (pos : 0 < n) : t ∈ partitioned op n first rest ↔ Belongs op first rest t := by
  simp only [partitioned, List.mem_flatMap, List.mem_range, mem_combine, belongs_partition]
  constructor
  · rintro ⟨_, _, belongs, _⟩
    exact belongs
  · intro belongs
    exact ⟨partIdx n t, Nat.mod_lt _ pos, belongs, rfl⟩

theorem nodup_partitioned : (partitioned op n first rest).Nodup := by
  rw [partitioned, List.nodup_flatMap]
  constructor
  · intro p _
    exact nodup_combine
  · apply List.nodup_range.imp
    intro p q distinct t inFirst inSecond
    rw [mem_combine, belongs_partition] at inFirst inSecond
    exact distinct (inFirst.2.symm.trans inSecond.2)

end

theorem numPartitions_pos (limit : Option ℕ) (est : ℚ) : 0 < numPartitions limit est := by
  rw [numPartitions]
  split_ifs <;> decide

section

variable {lang : Language} {envCap : ℕ} {est : ℚ} {op : SetOp} {w : Window}
  {first : List String} {rest : List (List String)}

theorem right_of_belongs
    (same : ∀ t, Belongs op (first.take (legCap envCap w)) (rest.map fun leg => leg.take (legCap envCap w)) t ↔
      Belongs op first rest t) :
    Right lang op w first rest (executeSetOp lang envCap est op w first rest) := by
  refine ⟨_, nodup_partitioned, ?_, rfl⟩
  intro t
  rw [mem_partitioned (numPartitions_pos _ _), same]

theorem right_of_complete (complete : ∀ leg ∈ first :: rest, leg.length ≤ legCap envCap w) :
    Right lang op w first rest (executeSetOp lang envCap est op w first rest) := by
  apply right_of_belongs
  have whole : (rest.map fun leg => leg.take (legCap envCap w)) = rest := by
    rw [List.map_congr_left (g := id), List.map_id]
    intro leg inRest
    exact List.take_of_length_le (complete leg (List.mem_cons_of_mem _ inRest))
  intro t
  rw [whole, List.take_of_length_le (complete first List.mem_cons_self)]

theorem right_of_empty_leg (empty : [] ∈ first :: rest) :
    Right lang .intersect w first rest (executeSetOp lang envCap est .intersect w first rest) := by
  apply right_of_belongs
  have none : ∀ {first : List String} {rest : List (List String)}, [] ∈ first :: rest →
      ∀ t, ¬ Belongs .intersect first rest t :=
    fun empty t belongs => List.not_mem_nil (belongs [] empty)
  have cut : [] ∈ first.take (legCap envCap w) :: rest.map fun leg => leg.take (legCap envCap w) := by
    rw [List.mem_cons, List.mem_map]
    rcases List.mem_cons.mp empty with head | tail
    · left
      rw [← head, List.take_nil]
    · right
      exact ⟨[], tail, List.take_nil⟩
  intro t
  simp only [none cut t, none empty t]

theorem right_of_empty_first (empty : first = []) :
    Right lang .except w first rest (executeSetOp lang envCap est .except w first rest) := by
  apply right_of_belongs
  intro t
  simp [Belongs, empty]

end

theorem applyOrderLimit_length (lang : Language) (offset n : ℕ) (rows : List String) :
    (applyOrderLimit lang ⟨[], some n, some offset⟩ (rows.map lang.parse)).length = min n (rows.length - offset) := by
  simp [applyOrderLimit]

theorem length_eq_of_mem_iff {rows others : List String} (nodup : rows.Nodup) (nodups : others.Nodup)
    (same : ∀ t, t ∈ rows ↔ t ∈ others) : rows.length = others.length :=
  ((List.perm_ext_iff_of_nodup nodup nodups).mpr same).length_eq

section

variable {lang : Language} {est : ℚ} {op : SetOp} {n offset : ℕ} {first : List String}
  {rest : List (List String)}

theorem counts_agree_of_right (rows cutRows : List String) (pos : 0 < n) (nodup : rows.Nodup) (all : ∀ t, t ∈ rows ↔ Belongs op first rest t)
    (cutNodup : cutRows.Nodup)
    (cut : ∀ t, t ∈ cutRows ↔ Belongs op (first.take n) (rest.map fun leg => leg.take n) t)
    (right : Right lang op ⟨[], some n, some offset⟩ first rest
      (executeSetOp lang 50000 est op ⟨[], some n, some offset⟩ first rest)) :
    min n (cutRows.length - offset) = min n (rows.length - offset) := by
  rcases right with ⟨asked, askedNodup, mem, result⟩
  have limited : legCap 50000 ⟨[], some n, some offset⟩ = n := by
    simp [legCap, outerLimit, Option.filter, pos]
  have lengths := congrArg List.length result
  rw [executeSetOp, applyOrderLimit_length, applyOrderLimit_length, limited] at lengths
  rw [length_eq_of_mem_iff cutNodup nodup_partitioned, length_eq_of_mem_iff nodup askedNodup]
  · exact lengths
  · intro t
    rw [all, mem]
  · intro t
    rw [cut, mem_partitioned (numPartitions_pos _ _)]

end

def ending (c : ℕ) (a b : String) : List String := List.replicate (c - 1) a ++ [b]

theorem ending_length {c n : ℕ} (longer : n < c) (a b : String) : (ending c a b).length = c := by
  rw [ending, List.length_append, List.length_replicate, List.length_singleton]
  omega

theorem ending_take {c n : ℕ} (longer : n < c) (a b : String) : (ending c a b).take n = List.replicate n a := by
  rw [ending, List.take_append_of_le_length, List.take_replicate]
  · congr 1
    omega
  · rw [List.length_replicate]
    omega

theorem mem_ending {c n : ℕ} (pos : 0 < n) (longer : n < c) (a b t : String) :
    t ∈ ending c a b ↔ t = a ∨ t = b := by
  rw [ending, List.mem_append, List.mem_replicate, List.mem_singleton]
  have : c - 1 ≠ 0 := by omega
  tauto

/-- Legs of the given counts, one of them ending in another row and the others full of `filler`. -/
def legs (before : List ℕ) (c : ℕ) (after : List ℕ) (filler a b : String) : List (List String) :=
  before.map (List.replicate · filler) ++ ending c a b :: after.map (List.replicate · filler)

theorem legs_lengths {c n : ℕ} (longer : n < c) (before after : List ℕ) (filler a b : String) :
    (legs before c after filler a b).map List.length = before ++ c :: after := by
  simp [legs, ending_length longer, Function.comp_def]

theorem mem_legs {before after : List ℕ} {c : ℕ} {filler a b : String} {leg : List String} :
    leg ∈ legs before c after filler a b ↔
      leg = ending c a b ∨ ∃ k ∈ before ++ after, leg = List.replicate k filler := by
  simp only [legs, List.mem_append, List.mem_map, List.mem_cons]
  grind

section

variable {lang : Language} {est : ℚ} {n c₀ : ℕ} {cs : List ℕ}

theorem union_cut_iff {first : List String} {rest : List (List String)} {t : String} :
    Belongs .union (first.take n) (rest.map fun leg => leg.take n) t ↔ ∃ leg ∈ first :: rest, t ∈ leg.take n := by
  simp [Belongs]

theorem intersect_cut_iff {first : List String} {rest : List (List String)} {t : String} :
    Belongs .intersect (first.take n) (rest.map fun leg => leg.take n) t ↔ ∀ leg ∈ first :: rest, t ∈ leg.take n := by
  simp [Belongs]

/-- Every query with one operator over legs of these counts gives what it asks for. -/
def OneOperatorRight (lang : Language) (envCap : ℕ) (est : ℚ) (op : SetOp) (limit : Option ℕ) (c₀ : ℕ)
    (cs : List ℕ) : Prop :=
  ∀ orderBy offset first rest, first.length = c₀ → rest.map List.length = cs →
    Right lang op ⟨orderBy, limit, offset⟩ first rest (executeSetOp lang envCap est op ⟨orderBy, limit, offset⟩ first rest)

theorem union_cut (pos : 0 < n) (right : OneOperatorRight lang 50000 est .union (some n) c₀ cs) {c : ℕ}
    (among : c ∈ c₀ :: cs) : c ≤ n := by
  by_contra longer
  have longer : n < c := by omega
  rcases List.append_of_mem among with ⟨before, after, counts⟩
  have lengths := legs_lengths longer before after "a" "a" "b"
  have members := @mem_legs before after c "a" "a" "b"
  generalize legs before c after "a" "a" "b" = all at lengths members
  rw [← counts] at lengths
  cases all with
  | nil => cases lengths
  | cons first rest =>
    rw [List.map_cons, List.cons.injEq] at lengths
    have agree := counts_agree_of_right ["a", "b"] ["a"] pos (by decide) ?_ (by decide) ?_
      (right [] (some 1) first rest lengths.1 lengths.2)
    · simp only [List.length_cons, List.length_nil] at agree
      omega
    · intro t
      simp only [Belongs, members]
      constructor
      · intro inBoth
        refine ⟨_, .inl rfl, ?_⟩
        rw [mem_ending pos longer]
        simpa using inBoth
      · rintro ⟨leg, rfl | ⟨k, _, rfl⟩, inLeg⟩
        · rw [mem_ending pos longer] at inLeg
          simpa using inLeg
        · rw [List.mem_replicate] at inLeg
          simp [inLeg.2]
    · intro t
      rw [union_cut_iff, List.mem_singleton]
      simp only [members]
      constructor
      · rintro rfl
        refine ⟨_, .inl rfl, ?_⟩
        rw [ending_take longer, List.mem_replicate]
        exact ⟨by omega, rfl⟩
      · rintro ⟨leg, rfl | ⟨k, _, rfl⟩, inLeg⟩
        · rw [ending_take longer, List.mem_replicate] at inLeg
          exact inLeg.2
        · rw [List.take_replicate, List.mem_replicate] at inLeg
          exact inLeg.2

theorem intersect_cut (pos : 0 < n) (right : OneOperatorRight lang 50000 est .intersect (some n) c₀ cs)
    (nonempty : 0 ∉ c₀ :: cs) {c : ℕ} (among : c ∈ c₀ :: cs) : c ≤ n := by
  by_contra longer
  have longer : n < c := by omega
  rcases List.append_of_mem among with ⟨before, after, counts⟩
  rw [counts] at nonempty
  have lengths := legs_lengths longer before after "a" "x" "a"
  have members := @mem_legs before after c "a" "x" "a"
  generalize legs before c after "a" "x" "a" = all at lengths members
  rw [← counts] at lengths
  have others : ∀ k ∈ before ++ after, k ≠ 0 := by
    rintro k inside rfl
    apply nonempty
    rw [List.mem_append] at inside
    rw [List.mem_append, List.mem_cons]
    tauto
  cases all with
  | nil => cases lengths
  | cons first rest =>
    rw [List.map_cons, List.cons.injEq] at lengths
    by_cases single : before ++ after = []
    · have agree := counts_agree_of_right ["x", "a"] ["x"] pos (by decide) ?_ (by decide) ?_
        (right [] (some 1) first rest lengths.1 lengths.2)
      · simp only [List.length_cons, List.length_nil] at agree
        omega
      · intro t
        simp [Belongs, members, single, mem_ending pos longer]
      · intro t
        rw [intersect_cut_iff]
        simp only [members, single, List.not_mem_nil, false_and, exists_false, or_false, forall_eq,
          ending_take longer, List.mem_replicate, List.mem_singleton]
        exact (and_iff_right (by omega)).symm
    · rcases List.exists_mem_of_ne_nil _ single with ⟨k, inside⟩
      have agree := counts_agree_of_right ["a"] [] pos (by decide) ?_ (by decide) ?_
        (right [] (some 0) first rest lengths.1 lengths.2)
      · simp only [List.length_cons, List.length_nil] at agree
        omega
      · intro t
        simp only [Belongs, members, List.mem_singleton]
        constructor
        · rintro rfl leg (rfl | ⟨k, inside, rfl⟩)
          · rw [mem_ending pos longer]
            exact .inr rfl
          · rw [List.mem_replicate]
            exact ⟨others k inside, rfl⟩
        · intro inAll
          have := inAll _ (.inr ⟨k, inside, rfl⟩)
          rw [List.mem_replicate] at this
          exact this.2
      · intro t
        rw [intersect_cut_iff]
        simp only [members, List.not_mem_nil, false_iff]
        intro inAll
        have one := inAll _ (.inl rfl)
        have other := inAll _ (.inr ⟨k, inside, rfl⟩)
        rw [ending_take longer, List.mem_replicate] at one
        rw [List.take_replicate, List.mem_replicate] at other
        exact absurd (one.2.symm.trans other.2) (by decide)

theorem except_cut_first (pos : 0 < n) (right : OneOperatorRight lang 50000 est .except (some n) c₀ cs) : c₀ ≤ n := by
  by_contra longer
  have longer : n < c₀ := by omega
  have agree := counts_agree_of_right ["a", "b"] ["a"] pos (by decide) ?_ (by decide) ?_
    (right [] (some 1) (ending c₀ "a" "b") (cs.map (List.replicate · "z")) (ending_length longer _ _)
      (by simp [Function.comp_def]))
  · simp only [List.length_cons, List.length_nil] at agree
    omega
  · intro t
    simp only [Belongs, mem_ending pos longer, List.forall_mem_map, List.mem_replicate]
    grind
  · intro t
    simp only [Belongs, ending_take longer, List.forall_mem_map, List.take_replicate, List.mem_replicate]
    grind

theorem except_cut_rest (pos : 0 < n) (right : OneOperatorRight lang 50000 est .except (some n) c₀ cs) (nonempty : c₀ ≠ 0)
    {c : ℕ} (among : c ∈ cs) : c ≤ n := by
  by_contra longer
  have longer : n < c := by omega
  rcases List.append_of_mem among with ⟨before, after, counts⟩
  have agree := counts_agree_of_right [] ["a"] pos (by decide) ?_ (by decide) ?_
    (right [] (some 0) (List.replicate c₀ "a") (legs before c after "z" "z" "a") List.length_replicate
      ((legs_lengths longer _ _ _ _ _).trans counts.symm))
  · simp only [List.length_cons, List.length_nil] at agree
    omega
  · intro t
    simp only [Belongs, List.not_mem_nil, false_iff, List.mem_replicate, not_and, not_forall, not_not]
    rintro ⟨_, rfl⟩
    refine ⟨_, mem_legs.mpr (.inl rfl), ?_⟩
    rw [mem_ending pos longer]
    exact .inr rfl
  · intro t
    simp only [Belongs, List.forall_mem_map, List.take_replicate, List.mem_replicate, List.mem_singleton, mem_legs]
    constructor
    · rintro rfl
      refine ⟨⟨by omega, rfl⟩, ?_⟩
      rintro leg (rfl | ⟨k, _, rfl⟩)
      · rw [ending_take longer, List.mem_replicate]
        rintro ⟨_, differ⟩
        exact absurd differ (by decide)
      · rw [List.take_replicate, List.mem_replicate]
        rintro ⟨_, differ⟩
        exact absurd differ (by decide)
    · intro belongs
      exact belongs.1.2

end

/-- Below the federation cap the answers are the ones over the complete legs unless the cap is the
default and the LIMIT cuts a leg. -/
theorem one_operator_right_iff (lang : Language) (envCap : ℕ) (est : ℚ) (op : SetOp) (limit : Option ℕ) (c₀ : ℕ) (cs : List ℕ)
    (below : ∀ c ∈ c₀ :: cs, c < envCap) :
    OneOperatorRight lang envCap est op limit c₀ cs ↔
      envCap ≠ 50000 ∨ ∀ n, limit = some n → 0 < n →
        (∀ c ∈ c₀ :: cs, c ≤ n) ∨ op = .intersect ∧ 0 ∈ c₀ :: cs ∨ op = .except ∧ c₀ = 0 := by
  constructor
  · intro right
    by_cases default : envCap = 50000
    · right
      rintro n rfl pos
      subst default
      cases op with
      | union => exact .inl fun c among => union_cut pos right among
      | intersect =>
        by_cases empty : 0 ∈ c₀ :: cs
        · exact .inr (.inl ⟨rfl, empty⟩)
        · exact .inl fun c among => intersect_cut pos right empty among
      | except =>
        by_cases empty : c₀ = 0
        · exact .inr (.inr ⟨rfl, empty⟩)
        · left
          intro c among
          rcases List.mem_cons.mp among with rfl | inRest
          · exact except_cut_first pos right
          · exact except_cut_rest pos right empty inRest
    · exact .inl default
  · rintro holds orderBy offset first rest rfl rfl
    have counted : ∀ leg ∈ first :: rest, leg.length ∈ first.length :: rest.map List.length := by
      intro leg inLegs
      rw [← List.map_cons (f := List.length)]
      exact List.mem_map_of_mem inLegs
    by_cases cut : envCap = 50000 ∧ ∃ n, limit = some n ∧ 0 < n
    · rcases cut with ⟨rfl, n, rfl, pos⟩
      rcases holds.resolve_left (fun h => h rfl) n rfl pos with fits | ⟨rfl, empty⟩ | ⟨rfl, empty⟩
      · apply right_of_complete
        intro leg inLegs
        simpa [legCap, outerLimit, Option.filter, pos] using fits _ (counted leg inLegs)
      · apply right_of_empty_leg
        rw [← List.map_cons (f := List.length), List.mem_map] at empty
        rcases empty with ⟨leg, inLegs, none⟩
        rwa [← List.length_eq_zero_iff.mp none]
      · exact right_of_empty_first (List.length_eq_zero_iff.mp empty)
    · apply right_of_complete
      intro leg inLegs
      have small := below _ (counted leg inLegs)
      rw [legCap]
      split_ifs with default
      · have unlimited : outerLimit ⟨orderBy, limit, offset⟩ = none := by
          rw [outerLimit, Option.filter_eq_none_iff]
          intro n limited pos
          exact cut ⟨default, n, limited, of_decide_eq_true pos⟩
        rw [unlimited, Option.getD_none]
        omega
      · omega

/-- A row of the chain that starts with the legs of one operator and goes on with those of `intersect` and `except`. -/
def BelongsAll (op : SetOp) (first : List String) (rest intersects excepts : List (List String)) (t : String) : Prop :=
  Belongs op first rest t ∧ (∀ leg ∈ intersects, t ∈ leg) ∧ ∀ leg ∈ excepts, t ∉ leg

def RightChain (lang : Language) (op : SetOp) (w : Window) (first : List String)
    (rest intersects excepts : List (List String)) (result : List SourceRow) : Prop :=
  ∃ rows : List String, rows.Nodup ∧ (∀ t, t ∈ rows ↔ BelongsAll op first rest intersects excepts t) ∧
    result = applyOrderLimit lang w (rows.map lang.parse)

/-- Every chain over legs of these counts gives what it asks for. The executor looks at the legs of one operator, the
first that the query has of `union`, `intersect` and `except`. -/
def AlwaysRight (lang : Language) (envCap : ℕ) (est : ℚ) (op : SetOp) (limit : Option ℕ) (c₀ : ℕ)
    (cs is es : List ℕ) : Prop :=
  ∀ orderBy offset first rest intersects excepts, first.length = c₀ → rest.map List.length = cs →
    intersects.map List.length = is → excepts.map List.length = es →
      RightChain lang op ⟨orderBy, limit, offset⟩ first rest intersects excepts
        (executeSetOp lang envCap est op ⟨orderBy, limit, offset⟩ first rest)

/-- Legs of these counts have no row to give. -/
def Void : SetOp → ℕ → List ℕ → Prop
  | .union, c₀, cs => ∀ c ∈ c₀ :: cs, c = 0
  | .intersect, c₀, cs => 0 ∈ c₀ :: cs
  | .except, c₀, _ => c₀ = 0

section

variable {lang : Language} {envCap : ℕ} {est : ℚ} {op : SetOp} {limit : Option ℕ} {c₀ : ℕ} {cs is es : List ℕ}
  {first : List String} {rest intersects excepts : List (List String)}

theorem counted {legs : List (List String)} {counts : List ℕ} (lengths : legs.map List.length = counts)
    {leg : List String} (inside : leg ∈ legs) : leg.length ∈ counts := lengths ▸ List.mem_map_of_mem inside

theorem void_belongs (void : Void op first.length (rest.map List.length)) (t : String) : ¬ Belongs op first rest t := by
  have lengths : (first :: rest).map List.length = first.length :: rest.map List.length := rfl
  intro belongs
  cases op with
  | union =>
    obtain ⟨leg, inside, own⟩ := belongs
    rw [List.length_eq_zero_iff.mp (void _ (counted lengths inside))] at own
    cases own
  | intersect =>
    obtain ⟨leg, inside, none⟩ := List.mem_map.mp (lengths.symm ▸ void : 0 ∈ (first :: rest).map List.length)
    have own := belongs leg inside
    rw [List.length_eq_zero_iff.mp none] at own
    cases own
  | except =>
    rw [List.length_eq_zero_iff.mp void] at belongs
    cases belongs.1

theorem mem_executed {w : Window} {t : String} :
    t ∈ partitioned op (numPartitions (outerLimit w) est) (first.take (legCap envCap w))
        (rest.map fun leg => leg.take (legCap envCap w)) ↔
      Belongs op (first.take (legCap envCap w)) (rest.map fun leg => leg.take (legCap envCap w)) t :=
  mem_partitioned (numPartitions_pos _ _)

theorem right_of_void {w : Window} (void : Void op first.length (rest.map List.length)) :
    RightChain lang op w first rest intersects excepts (executeSetOp lang envCap est op w first rest) := by
  have none : partitioned op (numPartitions (outerLimit w) est) (first.take (legCap envCap w))
      (rest.map fun leg => leg.take (legCap envCap w)) = [] := by
    refine List.eq_nil_iff_forall_not_mem.mpr fun t inside => ?_
    rw [mem_executed] at inside
    refine void_belongs ?_ t inside
    rw [List.length_take, List.map_map]
    cases op with
    | union =>
      intro c among
      rcases List.mem_cons.mp among with rfl | inRest
      · rw [void _ List.mem_cons_self, Nat.min_zero]
      · obtain ⟨leg, inLegs, rfl⟩ := List.mem_map.mp inRest
        rw [Function.comp_apply, List.length_take, void _ (List.mem_cons_of_mem _ (List.mem_map_of_mem inLegs)),
          Nat.min_zero]
    | intersect =>
      rcases List.mem_cons.mp void with head | tail
      · exact List.mem_cons.mpr (.inl (by rw [← head, Nat.min_zero]))
      · obtain ⟨leg, inLegs, none⟩ := List.mem_map.mp tail
        refine List.mem_cons_of_mem _ (List.mem_map.mpr ⟨leg, inLegs, ?_⟩)
        rw [Function.comp_apply, List.length_take, none, Nat.min_zero]
    | except => exact (congrArg (min _) void).trans (Nat.min_zero _)
  refine ⟨[], List.nodup_nil, fun t => ?_, ?_⟩
  · exact iff_of_false List.not_mem_nil fun belongs => void_belongs void t belongs.1
  · rw [executeSetOp, none]

theorem right_of_limit_zero {orderBy : List SortKey} {offset : Option ℕ} :
    RightChain lang op ⟨orderBy, some 0, offset⟩ first rest intersects excepts
      (executeSetOp lang envCap est op ⟨orderBy, some 0, offset⟩ first rest) := by
  classical
  have decides : DecidablePred (BelongsAll op first rest intersects excepts) := Classical.decPred _
  refine ⟨(first :: rest).flatten.eraseDups.filter fun t => decide (BelongsAll op first rest intersects excepts t),
    (nodup_eraseDups _).filter _, fun t => ?_, ?_⟩
  · rw [List.mem_filter, List.mem_eraseDups, decide_eq_true_eq, and_iff_right_iff_imp]
    intro belongs
    cases op with
    | union =>
      obtain ⟨leg, inside, own⟩ := belongs.1
      exact List.mem_flatten.mpr ⟨leg, inside, own⟩
    | intersect => exact List.mem_flatten.mpr ⟨first, List.mem_cons_self, belongs.1 first List.mem_cons_self⟩
    | except => exact List.mem_flatten.mpr ⟨first, List.mem_cons_self, belongs.1.1⟩
  · rfl

/-- Legs of these counts: those that are looked at hold `a` as far as it belongs, the others make away with it. -/
theorem dropped_legs_matter (right : AlwaysRight lang envCap est op limit c₀ cs is es) (some_ : limit ≠ some 0)
    (rows : ¬ Void op c₀ cs) (below : ∀ c ∈ c₀ :: cs, c < envCap) : is = [] ∧ ∀ e ∈ es, e = 0 := by
  by_contra more
  have lengths (counts : List ℕ) (text : String) :
      (counts.map fun c => List.replicate c text).map List.length = counts := by
    rw [List.map_map]
    exact (List.map_congr_left fun _ _ => List.length_replicate).trans (List.map_id _)
  let others := if op = .except then "b" else "a"
  obtain ⟨asked, _, mem, result⟩ := right [] none (List.replicate c₀ "a") (cs.map fun c => List.replicate c others)
    (is.map fun c => List.replicate c "b") (es.map fun c => List.replicate c "a") List.length_replicate (lengths cs _)
    (lengths is _) (lengths es _)
  have absent : asked = [] := by
    refine List.eq_nil_iff_forall_not_mem.mpr fun t inside => more ?_
    obtain ⟨belongs, all, none⟩ := (mem t).mp inside
    have own : t = "a" := by
      cases op with
      | union =>
        obtain ⟨leg, inLegs, own⟩ := belongs
        rcases List.mem_cons.mp inLegs with rfl | inRest
        · exact List.eq_of_mem_replicate own
        · obtain ⟨c, _, rfl⟩ := List.mem_map.mp inRest
          exact List.eq_of_mem_replicate own
      | intersect => exact List.eq_of_mem_replicate (belongs _ List.mem_cons_self)
      | except => exact List.eq_of_mem_replicate belongs.1
    subst own
    constructor
    · refine List.eq_nil_iff_forall_not_mem.mpr fun c inIs => ?_
      exact absurd (List.eq_of_mem_replicate (all _ (List.mem_map_of_mem inIs))) (by decide)
    · intro e inEs
      by_contra filled
      exact none _ (List.mem_map_of_mem inEs) (List.mem_replicate.mpr ⟨filled, rfl⟩)
  have wide : ∀ c ∈ c₀ :: cs, c ≠ 0 → 0 < legCap envCap ⟨[], limit, none⟩ := by
    intro c among filled
    have small := below c among
    rw [legCap]
    split_ifs
    · cases limit with
      | none => exact Nat.succ_pos _
      | some n =>
        have pos : 0 < n := Nat.pos_of_ne_zero fun zero => some_ (congrArg some zero)
        rw [outerLimit, Option.filter_some, if_pos (decide_eq_true pos)]
        exact pos
    · omega
  have kept {c : ℕ} {text : String} (among : c ∈ c₀ :: cs) (filled : c ≠ 0) :
      text ∈ (List.replicate c text).take (legCap envCap ⟨[], limit, none⟩) := by
    rw [List.take_replicate]
    exact List.mem_replicate.mpr ⟨by have := wide c among filled; omega, rfl⟩
  have present : "a" ∈ partitioned op (numPartitions (outerLimit ⟨[], limit, none⟩) est)
      ((List.replicate c₀ "a").take (legCap envCap ⟨[], limit, none⟩))
      ((cs.map fun c => List.replicate c others).map fun leg => leg.take (legCap envCap ⟨[], limit, none⟩)) := by
    rw [mem_executed]
    cases op with
    | union =>
      simp only [Void, not_forall] at rows
      obtain ⟨c, among, filled⟩ := rows
      rcases List.mem_cons.mp among with rfl | inRest
      · exact ⟨_, List.mem_cons_self, kept List.mem_cons_self filled⟩
      · refine ⟨_, List.mem_cons_of_mem _ (List.mem_map_of_mem (List.mem_map_of_mem inRest)), ?_⟩
        exact @kept c "a" among filled
    | intersect =>
      have filled : ∀ c ∈ c₀ :: cs, c ≠ 0 := fun c among zero => rows (show 0 ∈ _ from zero ▸ among)
      intro leg inLegs
      rcases List.mem_cons.mp inLegs with rfl | inRest
      · exact kept List.mem_cons_self (filled _ List.mem_cons_self)
      · obtain ⟨_, inside, rfl⟩ := List.mem_map.mp inRest
        obtain ⟨c, among, rfl⟩ := List.mem_map.mp inside
        exact @kept c "a" (List.mem_cons_of_mem _ among) (filled c (List.mem_cons_of_mem _ among))
    | except =>
      refine ⟨kept List.mem_cons_self rows, fun leg inRest own => ?_⟩
      obtain ⟨_, inside, rfl⟩ := List.mem_map.mp inRest
      obtain ⟨c, _, rfl⟩ := List.mem_map.mp inside
      exact absurd (List.eq_of_mem_replicate (List.mem_of_mem_take own)) (by decide)
  rw [absent, executeSetOp] at result
  have size := congrArg List.length result
  cases limit with
  | none =>
    simp only [applyOrderLimit, if_true, Option.getD_none, List.drop_zero, List.length_map, List.map_nil,
      List.length_nil] at size
    exact absurd (List.length_eq_zero_iff.mp size ▸ present) List.not_mem_nil
  | some n =>
    have pos : n ≠ 0 := fun zero => some_ (congrArg some zero)
    simp only [applyOrderLimit, if_true, Option.getD_none, List.drop_zero, List.length_take, List.length_map,
      List.map_nil, List.take_nil, List.length_nil] at size
    have none := List.length_eq_zero_iff.mp ((Nat.min_eq_zero_iff.mp size).resolve_left pos)
    exact absurd (none ▸ present) List.not_mem_nil

end

/-- Below the federation cap the answers are the ones over the complete legs exactly if there is nothing to answer, or
no leg is left out for its operator and none cut by the LIMIT, which the default cap lets happen. -/
theorem always_right_iff (lang : Language) (envCap : ℕ) (est : ℚ) (op : SetOp) (limit : Option ℕ) (c₀ : ℕ)
    (cs is es : List ℕ) (below : ∀ c ∈ c₀ :: cs, c < envCap) :
    AlwaysRight lang envCap est op limit c₀ cs is es ↔
      limit = some 0 ∨ Void op c₀ cs ∨
        (is = [] ∧ ∀ e ∈ es, e = 0) ∧ (envCap ≠ 50000 ∨ ∀ n, limit = some n → ∀ c ∈ c₀ :: cs, c ≤ n) := by
  have void_of {op : SetOp} (empty : op = .intersect ∧ 0 ∈ c₀ :: cs ∨ op = .except ∧ c₀ = 0) : Void op c₀ cs := by
    rcases empty with ⟨rfl, inside⟩ | ⟨rfl, first⟩
    · exact inside
    · exact first
  constructor
  · intro right
    by_cases zero : limit = some 0
    · exact .inl zero
    by_cases void : Void op c₀ cs
    · exact .inr (.inl void)
    have none := dropped_legs_matter right zero void below
    refine .inr (.inr ⟨none, ?_⟩)
    have single : OneOperatorRight lang envCap est op limit c₀ cs := by
      intro orderBy offset first rest counts restCounts
      obtain ⟨rows, nodup, mem, result⟩ := right orderBy offset first rest [] (es.map fun _ => []) counts restCounts
        none.1.symm (by
          rw [List.map_map]
          exact (List.map_congr_left fun e inEs => (none.2 e inEs).symm).trans (List.map_id _))
      refine ⟨rows, nodup, fun t => (mem t).trans (and_iff_left ⟨List.forall_mem_nil _, fun leg inLegs => ?_⟩), result⟩
      obtain ⟨_, _, rfl⟩ := List.mem_map.mp inLegs
      exact List.not_mem_nil
    refine ((one_operator_right_iff lang envCap est op limit c₀ cs below).mp single).imp_right fun fits n limited => ?_
    have pos : 0 < n := Nat.pos_of_ne_zero fun none => zero (none ▸ limited)
    exact (fits n limited pos).resolve_right fun empty => void (void_of empty)
  · rintro (rfl | void | ⟨⟨rfl, none⟩, fits⟩) orderBy offset first rest intersects excepts rfl rfl counts exceptCounts
    · exact right_of_limit_zero
    · exact right_of_void void
    · have single := (one_operator_right_iff lang envCap est op limit _ _ below).mpr
        (fits.imp_right fun fits n limited _ => .inl (fits n limited))
      obtain ⟨rows, nodup, mem, result⟩ := single orderBy offset first rest rfl rfl
      refine ⟨rows, nodup, fun t => (mem t).trans (and_iff_left ⟨?_, fun leg inLegs own => ?_⟩).symm, result⟩
      · rw [List.map_eq_nil_iff.mp counts]
        exact List.forall_mem_nil _
      · rw [List.length_eq_zero_iff.mp (none _ (counted exceptCounts inLegs))] at own
        cases own

/-- A language whose rows are their texts, and which leaves them in place. -/
def verbatim : Language where
  parse text := ⟨[("row", .str text)], by simp⟩
  sort _ rows := rows
  sort_perm _ _ := .refl _

/-- Two legs of at most three rows under LIMIT 3. -/
theorem small_legs_right : AlwaysRight verbatim 50000 5 .intersect (some 3) 3 [2] [] [] :=
  (always_right_iff verbatim 50000 5 .intersect (some 3) 3 [2] [] [] (by decide)).mpr (by simp)

/-- `SELECT id FROM a INTERSECT SELECT id FROM b LIMIT 1` does not see the second row of `a`. -/
theorem shared_row_lost :
    ¬ Right verbatim .intersect ⟨[], some 1, some 0⟩
      ["\x7b\"id\":1\x7d", "\x7b\"id\":2\x7d"] [["\x7b\"id\":2\x7d"]]
      (executeSetOp verbatim 50000 3 .intersect ⟨[], some 1, some 0⟩
        ["\x7b\"id\":1\x7d", "\x7b\"id\":2\x7d"] [["\x7b\"id\":2\x7d"]]) := by
  intro right
  have agree := counts_agree_of_right ["\x7b\"id\":2\x7d"] [] (by decide) (by decide) ?_
    (by decide) ?_ right
  · simp at agree
  · intro t
    simp only [Belongs, List.mem_cons, List.not_mem_nil, or_false, forall_eq_or_imp, forall_eq]
    tauto
  · intro t
    simp [Belongs]
    rintro rfl
    decide

end DataFabric.SetOperations
