import DataFabric.RecursiveExecutor
import Mathlib.Algebra.Order.Floor.Semiring

set_option autoImplicit false

/-!
# The row cap of a traversal

A capped traversal is a beginning of the one that goes on, cut where the cap is tested: after each
row of a level, and not after the seed.
-/
namespace DataFabric.RecursiveExecutor

open Distances

variable {ρ κ π : Type*} [DecidableEq κ] (spec : RecursiveSpec ρ κ π)

def meet (depth : ℕ) (frontier : List (Tagged ρ π)) : List ρ → List (Cell κ) → List (Tagged ρ π)
  | [], _ => []
  | r :: rs, seen =>
    if spec.child r ∈ seen then meet depth frontier rs seen
    else spec.tag depth (spec.parentOf frontier r) r :: meet depth frontier rs (spec.child r :: seen)

def seenAfter (seen : List (Cell κ)) (added : List (Tagged ρ π)) : List (Cell κ) :=
  (added.map (spec.child ·.row)).reverse ++ seen

def descend (fetch : List κ → List ρ) : ℕ → ℕ → List (Cell κ) → List (Tagged ρ π) → List (Tagged ρ π)
  | 0, _, _, _ => []
  | left + 1, depth, seen, frontier =>
    if frontier = [] then []
    else
      let keys := spec.keysOf frontier
      if keys = [] then []
      else
        let added := meet spec depth frontier (fetch keys) seen
        added ++ descend fetch left (depth + 1) (seenAfter spec seen added) added

/-- The traversal without a row cap: a row for each node that is reached within the depth limit. -/
def uncapped (seed : List ρ) (fetch : List κ → List ρ) : List (Tagged ρ π) :=
  spec.seeded seed ++ descend spec fetch ⌊spec.depthLimit⌋.toNat 1
    ((spec.seeded seed).map (spec.child ·.row)) (seed.map (spec.tag 0 none))

def room (rows : ℕ) : ℕ := max 1 (⌈spec.rowLimit⌉₊ - rows)

/-- At most `maxRows` rows, and the flag exactly where a node is missing that goes without the cap. -/
def CapExact (seed : List ρ) (fetch : List κ → List ρ) : Prop :=
  ((run spec seed fetch).rows.length : ℚ) ≤ spec.rowLimit ∧
    ((run spec seed fetch).truncatedByRows = true ↔
      ∃ t ∈ uncapped spec seed fetch, spec.child t.row ∉ (run spec seed fetch).rows.map (spec.child ·.row))

/-- The nodes are fewer than the cap; or the cap is a whole number between the seeds and the nodes; or
all the nodes are seeds and just as many as the cap. -/
def CapMet (seed : List ρ) (fetch : List κ → List ρ) : Prop :=
  ((uncapped spec seed fetch).length : ℚ) < spec.rowLimit ∨
    (((spec.seeded seed).length : ℚ) < spec.rowLimit ∧ (⌈spec.rowLimit⌉₊ : ℚ) = spec.rowLimit ∧
      spec.rowLimit < (uncapped spec seed fetch).length) ∨
    (((spec.seeded seed).length : ℚ) = spec.rowLimit ∧
      (spec.seeded seed).length = (uncapped spec seed fetch).length)

variable {spec} {depth left : ℕ} {frontier out : List (Tagged ρ π)} {fetched : List ρ} {seen : List (Cell κ)}
  {v : Visit ρ κ π} {fetch : List κ → List ρ} {trace : List TraceEntry} {seed : List ρ}

omit [DecidableEq κ] in
theorem room_pos {rows : ℕ} : 0 < room spec rows := Nat.lt_of_lt_of_le Nat.one_pos (Nat.le_max_left _ _)

omit [DecidableEq κ] in
theorem room_add {rows more : ℕ} (h : more < room spec rows) :
    room spec (rows + more) = room spec rows - more := by
  unfold room at h ⊢
  omega

theorem meet_cons (r : ρ) (rs : List ρ) (seen : List (Cell κ)) : meet spec depth frontier (r :: rs) seen =
    if spec.child r ∈ seen then meet spec depth frontier rs seen
    else spec.tag depth (spec.parentOf frontier r) r :: meet spec depth frontier rs (spec.child r :: seen) := rfl

theorem visit_meet (fetched : List ρ) (v : Visit ρ κ π) :
    visit spec depth frontier fetched v =
      let added := meet spec depth frontier fetched v.seen
      if room spec v.out.length ≤ added.length then
        let kept := added.take (room spec v.out.length)
        ⟨seenAfter spec v.seen kept, v.out ++ kept, v.next ++ kept, true⟩
      else ⟨seenAfter spec v.seen added, v.out ++ added, v.next ++ added, v.truncated⟩ := by
  have hroom : ∀ rows, 0 < room spec rows := fun _ => room_pos
  induction fetched generalizing v with
  | nil =>
    unfold visit
    rw [show meet spec depth frontier [] v.seen = [] from rfl]
    dsimp only
    rw [if_neg (by simpa using (hroom _).ne')]
    simp [seenAfter]
  | cons r rs ih =>
    unfold visit
    rw [meet_cons]
    by_cases old : spec.child r ∈ v.seen
    · rw [if_pos old, if_pos old]
      exact ih v
    · rw [if_neg old, if_neg old]
      dsimp only
      rw [List.length_append, List.length_singleton]
      by_cases full : spec.rowLimit ≤ ((v.out.length + 1 : ℕ) : ℚ)
      · have one : room spec v.out.length = 1 := by
          have ceil := Nat.ceil_le.mpr full
          unfold room
          omega
        rw [if_pos full, one, if_pos (by rw [List.length_cons]; omega)]
        rfl
      · have more : room spec v.out.length = room spec (v.out.length + 1) + 1 := by
          have ceil : v.out.length + 1 < ⌈spec.rowLimit⌉₊ := Nat.lt_of_not_le fun h => full (Nat.ceil_le.mp h)
          unfold room
          omega
        rw [if_neg full, ih, more]
        dsimp only
        rw [List.length_append, List.length_singleton, List.length_cons, List.take_succ_cons]
        by_cases fill : room spec (v.out.length + 1) ≤
            (meet spec depth frontier rs (spec.child r :: v.seen)).length
        · rw [if_pos fill, if_pos (by omega)]
          simp [seenAfter, RecursiveSpec.tag]
        · rw [if_neg fill, if_neg (by omega)]
          simp [seenAfter, RecursiveSpec.tag]

theorem expand_descend : if room spec out.length ≤ (descend spec fetch left depth seen frontier).length then
      (expand spec fetch left depth seen out frontier trace).truncatedByRows = true ∧
      (expand spec fetch left depth seen out frontier trace).rows =
        out ++ (descend spec fetch left depth seen frontier).take (room spec out.length)
    else
      (expand spec fetch left depth seen out frontier trace).truncatedByRows = false ∧
      (expand spec fetch left depth seen out frontier trace).rows =
        out ++ descend spec fetch left depth seen frontier := by
  have hroom : 0 < room spec out.length := room_pos
  induction left generalizing depth seen out frontier trace with
  | zero =>
    unfold expand descend
    rw [if_neg (by simpa using hroom.ne'), List.append_nil]
    exact ⟨rfl, rfl⟩
  | succ left ih =>
    unfold expand descend
    by_cases empty : frontier = []
    · rw [if_pos empty, if_pos empty, if_neg (by simpa using hroom.ne'), List.append_nil]
      exact ⟨rfl, rfl⟩
    rw [if_neg empty, if_neg empty]
    dsimp only
    by_cases keyless : spec.keysOf frontier = []
    · rw [if_pos keyless, if_pos keyless, if_neg (by simpa using hroom.ne'), List.append_nil]
      exact ⟨rfl, rfl⟩
    rw [if_neg keyless, if_neg keyless, visit_meet]
    dsimp only
    generalize meet spec depth frontier (fetch (spec.keysOf frontier)) seen = added
    by_cases full : room spec out.length ≤ added.length
    · rw [if_pos full, if_pos (by rw [List.length_append]; omega), if_pos rfl, List.take_append_of_le_length full]
      exact ⟨rfl, rfl⟩
    · rw [if_neg full, if_neg Bool.false_ne_true, List.nil_append, List.length_append]
      have more : room spec (out ++ added).length = room spec out.length - added.length := by
        rw [List.length_append]
        exact room_add (by omega)
      have rest := @ih (depth + 1) added (out ++ added) (seenAfter spec seen added)
        (trace ++ [⟨depth, frontier.length, (fetch (spec.keysOf frontier)).length, added.length⟩]) room_pos
      rw [more] at rest
      have flagged : ∀ (c : Prop) [Decidable c] (result : RecursiveResult ρ π),
          (if c then { result with truncatedByDepth := true } else result).truncatedByRows = result.truncatedByRows ∧
          (if c then { result with truncatedByDepth := true } else result).rows = result.rows := by
        intro c _ result
        split_ifs <;> exact ⟨rfl, rfl⟩
      rw [(flagged _ _).1, (flagged _ _).2]
      by_cases cut : room spec out.length ≤
          added.length + (descend spec fetch left (depth + 1) (seenAfter spec seen added) added).length
      · rw [if_pos (by omega)] at rest
        rw [if_pos cut, rest.2, List.take_append,
          List.take_of_length_le (show added.length ≤ room spec out.length by omega), List.append_assoc]
        exact ⟨rest.1, rfl⟩
      · rw [if_neg (by omega)] at rest
        rw [if_neg cut, rest.2, List.append_assoc]
        exact ⟨rest.1, rfl⟩

theorem meet_fresh (fetched : List ρ) (seen : List (Cell κ)) :
    ((meet spec depth frontier fetched seen).map (spec.child ·.row)).Nodup ∧
      ∀ t ∈ meet spec depth frontier fetched seen, spec.child t.row ∉ seen := by
  induction fetched generalizing seen with
  | nil => exact ⟨List.nodup_nil, fun t inside => by cases inside⟩
  | cons r rs ih =>
    rw [meet_cons]
    by_cases old : spec.child r ∈ seen
    · rw [if_pos old]
      exact ih seen
    · rw [if_neg old]
      obtain ⟨distinct, fresh⟩ := ih (spec.child r :: seen)
      refine ⟨List.nodup_cons.mpr ⟨fun again => ?_, distinct⟩, fun t inside => ?_⟩
      · obtain ⟨t, inside, same⟩ := List.mem_map.mp again
        exact fresh t inside (same ▸ List.mem_cons_self)
      · rcases List.mem_cons.mp inside with rfl | later
        · exact old
        · exact fun there => fresh t later (List.mem_cons_of_mem _ there)

omit [DecidableEq κ] in
theorem mem_seenAfter {x : Cell κ} {added : List (Tagged ρ π)} :
    x ∈ seenAfter spec seen added ↔ x ∈ added.map (spec.child ·.row) ∨ x ∈ seen := by
  unfold seenAfter
  rw [List.mem_append, List.mem_reverse]

theorem descend_fresh : ((descend spec fetch left depth seen frontier).map (spec.child ·.row)).Nodup ∧
    ∀ t ∈ descend spec fetch left depth seen frontier, spec.child t.row ∉ seen := by
  induction left generalizing depth seen frontier with
  | zero => exact ⟨List.nodup_nil, fun t inside => by cases inside⟩
  | succ left ih =>
    unfold descend
    by_cases empty : frontier = []
    · rw [if_pos empty]
      exact ⟨List.nodup_nil, fun t inside => by cases inside⟩
    rw [if_neg empty]
    dsimp only
    by_cases keyless : spec.keysOf frontier = []
    · rw [if_pos keyless]
      exact ⟨List.nodup_nil, fun t inside => by cases inside⟩
    rw [if_neg keyless]
    obtain ⟨distinct, fresh⟩ := @meet_fresh _ _ _ _ spec depth frontier (fetch (spec.keysOf frontier)) seen
    generalize meet spec depth frontier (fetch (spec.keysOf frontier)) seen = added at distinct fresh ⊢
    obtain ⟨distinctLater, freshLater⟩ := @ih (depth + 1) added (seenAfter spec seen added)
    refine ⟨?_, fun t inside => ?_⟩
    · rw [List.map_append, List.nodup_append]
      refine ⟨distinct, distinctLater, ?_⟩
      rintro x here y later rfl
      obtain ⟨t, inside, same⟩ := List.mem_map.mp later
      exact freshLater t inside (mem_seenAfter.mpr (.inl (same ▸ here)))
    · rcases List.mem_append.mp inside with here | later
      · exact fresh t here
      · exact fun there => freshLater t later (mem_seenAfter.mpr (.inr there))

theorem uncapped_distinct : ((uncapped spec seed fetch).map (spec.child ·.row)).Nodup := by
  obtain ⟨distinct, fresh⟩ := @descend_fresh _ _ _ _ spec 1 ⌊spec.depthLimit⌋.toNat (seed.map (spec.tag 0 none))
    ((spec.seeded seed).map (spec.child ·.row)) fetch
  unfold uncapped
  rw [List.map_append, List.nodup_append]
  refine ⟨(seeded_nodes spec seed).1, distinct, ?_⟩
  rintro x old y new rfl
  obtain ⟨t, inside, same⟩ := List.mem_map.mp new
  exact fresh t inside (same ▸ old)

theorem run_uncapped :
    let cut := (spec.seeded seed).length + room spec (spec.seeded seed).length
    if cut ≤ (uncapped spec seed fetch).length then
      (run spec seed fetch).truncatedByRows = true ∧ (run spec seed fetch).rows = (uncapped spec seed fetch).take cut
    else (run spec seed fetch).truncatedByRows = false ∧ (run spec seed fetch).rows = uncapped spec seed fetch := by
  have walk := @expand_descend _ _ _ _ spec 1 ⌊spec.depthLimit⌋.toNat (seed.map (spec.tag 0 none))
    (spec.seeded seed) ((spec.seeded seed).map (spec.child ·.row)) fetch [⟨0, 0, seed.length, seed.length⟩]
  dsimp only
  unfold uncapped
  rw [List.length_append]
  by_cases cut : room spec (spec.seeded seed).length ≤ (descend spec fetch ⌊spec.depthLimit⌋.toNat 1
      ((spec.seeded seed).map (spec.child ·.row)) (seed.map (spec.tag 0 none))).length
  · rw [if_pos cut] at walk
    rw [if_pos (by omega), List.take_append, List.take_of_length_le (by omega), Nat.add_sub_cancel_left]
    exact walk
  · rw [if_neg cut] at walk
    rw [if_neg (by omega)]
    exact walk

omit [DecidableEq κ] in
theorem left_out_iff {rows : List (Tagged ρ π)} (distinct : (rows.map (spec.child ·.row)).Nodup) (n : ℕ) :
    (∃ t ∈ rows, spec.child t.row ∉ (rows.take n).map (spec.child ·.row)) ↔ n < rows.length := by
  constructor
  · rintro ⟨t, inside, out⟩
    by_contra long
    rw [List.take_of_length_le (by omega)] at out
    exact out (List.mem_map_of_mem inside)
  · intro short
    refine ⟨rows[n], List.getElem_mem short, fun there => ?_⟩
    have later : spec.child rows[n].row ∈ (rows.drop n).map (spec.child ·.row) := by
      rw [List.drop_eq_getElem_cons short]
      exact List.mem_cons_self
    rw [← List.take_append_drop n rows, List.map_append, List.nodup_append] at distinct
    exact distinct.2.2 _ there _ later rfl

omit [DecidableEq κ] in
theorem le_rowLimit_iff (n : ℕ) : (n : ℚ) ≤ spec.rowLimit ↔
    n < ⌈spec.rowLimit⌉₊ ∨ (⌈spec.rowLimit⌉₊ : ℚ) = spec.rowLimit ∧ n = ⌈spec.rowLimit⌉₊ := by
  rw [le_iff_lt_or_eq, Nat.lt_ceil]
  refine or_congr_right ⟨fun same => ?_, fun ⟨whole, same⟩ => same ▸ whole⟩
  rw [← same, Nat.ceil_natCast]
  exact ⟨rfl, rfl⟩

omit [DecidableEq κ] in
theorem rowLimit_lt_iff {n : ℕ} (whole : (⌈spec.rowLimit⌉₊ : ℚ) = spec.rowLimit) :
    spec.rowLimit < n ↔ ⌈spec.rowLimit⌉₊ < n := by
  conv_lhs => rw [← whole]
  exact Nat.cast_lt

theorem meet_first (fetched : List ρ) (seen : List (Cell κ)) : ∀ t ∈ meet spec depth frontier fetched seen,
    t = spec.tag depth (spec.parentOf frontier t.row) t.row ∧
      fetched.find? (fun r => spec.child r = spec.child t.row) = some t.row := by
  induction fetched generalizing seen with
  | nil => exact fun t inside => by cases inside
  | cons r rs ih =>
    intro t inside
    rw [meet_cons] at inside
    by_cases old : spec.child r ∈ seen
    · rw [if_pos old] at inside
      have other : spec.child r ≠ spec.child t.row := fun h => (meet_fresh rs seen).2 t inside (h ▸ old)
      rw [List.find?_cons_of_neg (by simpa using other)]
      exact ih seen t inside
    · rw [if_neg old] at inside
      rcases List.mem_cons.mp inside with rfl | later
      · exact ⟨rfl, List.find?_cons_of_pos (decide_eq_true rfl)⟩
      · have other : spec.child r ≠ spec.child t.row := fun h =>
          (meet_fresh rs (spec.child r :: seen)).2 t later (h ▸ List.mem_cons_self)
        rw [List.find?_cons_of_neg (by simpa using other)]
        exact ih _ t later

theorem meet_all (fetched : List ρ) (seen : List (Cell κ)) : ∀ r ∈ fetched,
    spec.child r ∈ seenAfter spec seen (meet spec depth frontier fetched seen) := by
  induction fetched generalizing seen with
  | nil => exact fun r inside => by cases inside
  | cons r rs ih =>
    intro u inside
    rw [meet_cons]
    by_cases old : spec.child r ∈ seen
    · rw [if_pos old]
      rcases List.mem_cons.mp inside with rfl | later
      · exact mem_seenAfter.mpr (.inr old)
      · exact ih seen u later
    · rw [if_neg old, mem_seenAfter, List.map_cons, List.mem_cons]
      rcases List.mem_cons.mp inside with rfl | later
      · exact .inl (.inl rfl)
      · rcases mem_seenAfter.mp (ih (spec.child r :: seen) u later) with here | there
        · exact .inl (.inr here)
        · exact (List.mem_cons.mp there).imp_left .inl

theorem meet_adds (fetched : List ρ) : Adds spec depth frontier fetched ⟨seen, out, [], false⟩
    ⟨seenAfter spec seen (meet spec depth frontier fetched seen), out ++ meet spec depth frontier fetched seen,
      meet spec depth frontier fetched seen, false⟩ (meet spec depth frontier fetched seen) where
  out := rfl
  next := rfl
  tagged t inside := (meet_first fetched seen t inside).1
  first t inside := (meet_first fetched seen t inside).2
  fresh := (meet_fresh fetched seen).2
  distinct := (meet_fresh fetched seen).1
  seen _ := mem_seenAfter.trans or_comm
  all _ := meet_all fetched seen

section Nodes

variable {rows : List ρ} {anchor : ρ → Bool} {n : ℕ}

theorem descend_nodes (answers : Answers spec rows anchor seed fetch)
    (walked : Walked spec rows anchor n seen out frontier)
    (firm : ∀ m, n < m → m ≤ n + left → ∀ x, At (Link spec rows) (SeedNode spec rows anchor) m x →
      Reach (Firm spec rows anchor) (SeedNode spec rows anchor) m x) (x : Cell κ) :
    x ∈ (out ++ descend spec fetch left (n + 1) seen frontier).map (spec.child ·.row) ↔
      ∃ m ≤ n + left, At (Link spec rows) (SeedNode spec rows anchor) m x := by
  have known : x ∈ out.map (spec.child ·.row) ↔ ∃ m ≤ n, At (Link spec rows) (SeedNode spec rows anchor) m x := by
    constructor
    · intro inside
      obtain ⟨t, there, rfl⟩ := List.mem_map.mp inside
      exact ⟨t.depth, (walked.placed t there).1, (walked.placed t there).2.1⟩
    · rintro ⟨m, le, there⟩
      exact walked.all m le x there
  induction left generalizing n seen out frontier with
  | zero =>
    unfold descend
    rw [List.append_nil]
    exact known
  | succ left ih =>
    have ended (m : ℕ) (le : m ≤ n + 1) (none : ∀ y, ¬ At (Link spec rows) (SeedNode spec rows anchor) m y) :
        x ∈ (out ++ []).map (fun t => spec.child (Tagged.row t)) ↔
          ∃ m ≤ n + (left + 1), At (Link spec rows) (SeedNode spec rows anchor) m x := by
      rw [List.append_nil]
      refine ⟨fun inside => ?_, fun ⟨k, _, there⟩ => List.mem_map.mpr (walked_complete walked le none there.1)⟩
      obtain ⟨k, near, there⟩ := known.mp inside
      exact ⟨k, by omega, there⟩
    unfold descend
    by_cases empty : frontier = []
    · rw [if_pos empty]
      refine ended n (Nat.le_succ n) fun y there => ?_
      obtain ⟨t, inside, _⟩ := walked.here y there
      rw [empty] at inside
      cases inside
    rw [if_neg empty]
    dsimp only
    by_cases keyless : spec.keysOf frontier = []
    · rw [if_pos keyless]
      refine ended (n + 1) le_rfl fun y there => ?_
      obtain ⟨w, before, link⟩ := reach_succ.mp (firm (n + 1) (Nat.lt_succ_self n) (by omega) y there)
      have near := at_before there (reach_mono (fun _ _ => link_of_firm) before) (link_of_firm link)
      obtain ⟨t, inFront, s, _, _, key, own, _⟩ := walked.firm w y near link
      have inKeys := mem_keysOf.mpr ⟨t, inFront, own⟩
      rw [keyless] at inKeys
      cases inKeys
    rw [if_neg keyless]
    have later := walked_next answers walked (firm (n + 1) (Nat.lt_succ_self n) (by omega))
      (meet_adds (fetch (spec.keysOf frontier))) rfl
    have rest := ih later (fun m less le => firm m (by omega) (by omega)) ?_
    · dsimp only at rest
      rwa [List.append_assoc, show n + 1 + left = n + (left + 1) by omega] at rest
    · constructor
      · intro inside
        obtain ⟨t, there, rfl⟩ := List.mem_map.mp inside
        exact ⟨t.depth, (later.placed t there).1, (later.placed t there).2.1⟩
      · rintro ⟨m, le, there⟩
        exact later.all m le x there

theorem uncapped_nodes (answers : Answers spec rows anchor seed fetch) (unaffected : Unaffected spec rows anchor)
    (x : Cell κ) : x ∈ (uncapped spec seed fetch).map (spec.child ·.row) ↔
      ∃ m ≤ spec.levels, Reach (Link spec rows) (SeedNode spec rows anchor) m x := by
  have nodes := @descend_nodes _ _ _ _ spec spec.levels _ _ _ fetch seed rows anchor 0 answers
    (walked_seed answers) (fun m _ le => unaffected.firm m (by omega)) x
  refine nodes.trans ⟨fun ⟨m, le, there⟩ => ⟨m, by omega, there.1⟩, fun ⟨m, le, there⟩ => ?_⟩
  obtain ⟨k, less, near⟩ := exists_at there
  exact ⟨k, by omega, near⟩

end Nodes

end DataFabric.RecursiveExecutor
