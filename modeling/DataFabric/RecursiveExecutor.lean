import DataFabric.Distances
import Mathlib.Algebra.Order.Floor.Ring
import Mathlib.Data.List.Induction
import Mathlib.Data.List.Nodup
import Mathlib.Data.Rat.Floor

set_option autoImplicit false

/-!
# Traversal of a hierarchy level by level

Each level is one query for the rows whose filter column holds a key of the frontier. A set of
the nodes seen guards against cycles; a depth and a number of rows bound the work.
-/
namespace DataFabric.RecursiveExecutor
open Distances

inductive Cell (κ : Type*)
  | absent
  | null
  | value (k : κ)
  deriving DecidableEq

def Cell.key? {κ : Type*} : Cell κ → Option κ
  | .value k => some k
  | _ => none

structure RecursiveSpec (ρ κ π : Type*) where
  parent : ρ → Cell κ
  child : ρ → Cell κ
  up : Bool
  /-- what is not a number counts as absent, infinity as a number above the cap -/
  maxDepth : Option ℚ
  maxRows : Option ℚ
  pathColumn : Option (ρ → π)

structure Tagged (ρ π : Type*) where
  row : ρ
  depth : ℕ
  path : Option (List π)

structure TraceEntry where
  depth : ℕ
  frontier : ℕ
  fetched : ℕ
  added : ℕ

structure RecursiveResult (ρ π : Type*) where
  rows : List (Tagged ρ π)
  trace : List TraceEntry
  truncatedByDepth : Bool
  truncatedByRows : Bool

variable {ρ κ π : Type*} [DecidableEq κ]

namespace RecursiveSpec

variable (spec : RecursiveSpec ρ κ π)

/-- `Math.max(1, Math.min(Number(spec.maxDepth) || 25, 100))` -/
def depthLimit : ℚ := max 1 (min ((spec.maxDepth.filter (· ≠ 0)).getD 25) 100)

def rowLimit : ℚ := max 1 (min ((spec.maxRows.filter (· ≠ 0)).getD 50000) 200000)

def nextFilter : ρ → Cell κ := if spec.up then spec.child else spec.parent

def frontierKey : ρ → Cell κ := if spec.up then spec.parent else spec.child

def tag (depth : ℕ) (before : Option (Tagged ρ π)) (r : ρ) : Tagged ρ π :=
  ⟨r, depth, spec.pathColumn.map fun column => ((before.bind (·.path)).getD []) ++ [column r]⟩

def seeded (seed : List ρ) : List (Tagged ρ π) :=
  seed.foldl (fun out r => if spec.child r ∈ out.map (spec.child ·.row) then out else out ++ [spec.tag 0 none r]) []

def keysOf (frontier : List (Tagged ρ π)) : List κ :=
  (frontier.filterMap fun t => (spec.frontierKey t.row).key?).eraseDups

/-- `parentByKey.get`: the last row of the frontier with the key. -/
def parentOf (frontier : List (Tagged ρ π)) (r : ρ) : Option (Tagged ρ π) :=
  frontier.reverse.find? fun t => spec.frontierKey t.row = spec.nextFilter r

end RecursiveSpec

structure Visit (ρ κ π : Type*) where
  seen : List (Cell κ)
  out : List (Tagged ρ π)
  next : List (Tagged ρ π)
  truncated : Bool

variable (spec : RecursiveSpec ρ κ π)

def visit (depth : ℕ) (frontier : List (Tagged ρ π)) : List ρ → Visit ρ κ π → Visit ρ κ π
  | [], v => v
  | r :: rs, v =>
    if spec.child r ∈ v.seen then visit depth frontier rs v
    else
      let t := spec.tag depth (spec.parentOf frontier r) r
      let v := ⟨spec.child r :: v.seen, v.out ++ [t], v.next ++ [t], v.truncated⟩
      if spec.rowLimit ≤ v.out.length then { v with truncated := true } else visit depth frontier rs v

def expand (fetch : List κ → List ρ) : ℕ → ℕ → List (Cell κ) → List (Tagged ρ π) → List (Tagged ρ π) →
    List TraceEntry → RecursiveResult ρ π
  | 0, _, _, out, _, trace => ⟨out, trace, false, false⟩
  | left + 1, depth, seen, out, frontier, trace =>
    if frontier = [] then ⟨out, trace, false, false⟩
    else
      let keys := spec.keysOf frontier
      if keys = [] then ⟨out, trace, false, false⟩
      else
        let fetched := fetch keys
        let v := visit spec depth frontier fetched ⟨seen, out, [], false⟩
        let trace := trace ++ [⟨depth, frontier.length, fetched.length, v.next.length⟩]
        if v.truncated then ⟨v.out, trace, false, true⟩
        else
          let rest := expand fetch left (depth + 1) v.seen v.out v.next trace
          if (depth : ℚ) = spec.depthLimit ∧ v.next ≠ [] then { rest with truncatedByDepth := true } else rest

def run (seed : List ρ) (fetch : List κ → List ρ) : RecursiveResult ρ π :=
  let out := spec.seeded seed
  let frontier := seed.map (spec.tag 0 none)
  expand spec fetch ⌊spec.depthLimit⌋.toNat 1 (out.map (spec.child ·.row)) out frontier
    [⟨0, 0, seed.length, seed.length⟩]

section

variable (rows : List ρ) (anchor : ρ → Bool)

def Linked (r s : ρ) : Prop := ∃ k, spec.frontierKey r = .value k ∧ spec.nextFilter s = .value k

def Link (x y : Cell κ) : Prop := ∃ r ∈ rows, ∃ s ∈ rows, spec.child r = x ∧ spec.child s = y ∧ Linked spec r s

def SeedNode (x : Cell κ) : Prop := ∃ r ∈ rows, anchor r = true ∧ spec.child r = x

/-- Rows from a seed to the last one, each fetched for the one before. -/
inductive Trail : ρ → List ρ → Prop
  | seed {r : ρ} : r ∈ rows → anchor r = true → Trail r [r]
  | step {r s : ρ} {trail : List ρ} : Trail r trail → s ∈ rows → Linked spec r s → Trail s (trail ++ [s])

/-- A source that answers with exactly the rows asked for, in any order. -/
structure Answers (seed : List ρ) (fetch : List κ → List ρ) : Prop where
  seed : seed.Perm (rows.filter anchor)
  fetch : ∀ keys, (fetch keys).Perm (rows.filter fun s => (spec.nextFilter s).key?.any (· ∈ keys))

structure Closure (result : RecursiveResult ρ π) : Prop where
  distinct : (result.rows.map (spec.child ·.row)).Nodup
  distance : ∀ t ∈ result.rows, At (Link spec rows) (SeedNode spec rows anchor) t.depth (spec.child t.row)
  trails : ∀ t ∈ result.rows, ∃ trail, Trail spec rows anchor t.row trail ∧ trail.length = t.depth + 1 ∧
    t.path = spec.pathColumn.map trail.map
  complete : result.truncatedByDepth = false → result.truncatedByRows = false →
    ∀ n x, Reach (Link spec rows) (SeedNode spec rows anchor) n x → ∃ t ∈ result.rows, spec.child t.row = x

/-- A link that does not depend on which row of a node is met first. -/
def Firm (x y : Cell κ) : Prop :=
  (∃ r ∈ rows, anchor r = true ∧ spec.child r = x ∧ ∃ s ∈ rows, spec.child s = y ∧ Linked spec r s) ∨
    ¬ SeedNode spec rows anchor x ∧ (∃ r ∈ rows, spec.child r = x) ∧
      ∀ r ∈ rows, spec.child r = x → ∃ s ∈ rows, spec.child s = y ∧ Linked spec r s

end

namespace RecursiveSpec

def levels (spec : RecursiveSpec ρ κ π) : ℕ := ⌊spec.depthLimit⌋.toNat

end RecursiveSpec

/-- Within the depth limit the firm links alone make every distance, and the limit is a whole number
or nothing lies beyond it. -/
structure Unaffected (rows : List ρ) (anchor : ρ → Bool) : Prop where
  firm : ∀ n ≤ spec.levels, ∀ x, At (Link spec rows) (SeedNode spec rows anchor) n x →
    Reach (Firm spec rows anchor) (SeedNode spec rows anchor) n x
  whole : (spec.levels : ℚ) = spec.depthLimit ∨
    ∀ x, ¬ At (Link spec rows) (SeedNode spec rows anchor) (spec.levels + 1) x

section

variable {spec} {depth : ℕ} {frontier : List (Tagged ρ π)} {fetched : List ρ} {v : Visit ρ κ π}

variable (spec) in
structure Adds (depth : ℕ) (frontier : List (Tagged ρ π)) (fetched : List ρ) (v v' : Visit ρ κ π)
    (added : List (Tagged ρ π)) : Prop where
  out : v'.out = v.out ++ added
  next : v'.next = v.next ++ added
  tagged : ∀ t ∈ added, t = spec.tag depth (spec.parentOf frontier t.row) t.row
  first : ∀ t ∈ added, fetched.find? (fun r => spec.child r = spec.child t.row) = some t.row
  fresh : ∀ t ∈ added, spec.child t.row ∉ v.seen
  distinct : (added.map (spec.child ·.row)).Nodup
  seen : ∀ x, x ∈ v'.seen ↔ x ∈ v.seen ∨ x ∈ added.map (spec.child ·.row)
  all : v'.truncated = false → ∀ r ∈ fetched, spec.child r ∈ v'.seen

variable (spec) in
theorem visit_adds (depth : ℕ) (frontier : List (Tagged ρ π)) (fetched : List ρ) (v : Visit ρ κ π) :
    ∃ added, Adds spec depth frontier fetched v (visit spec depth frontier fetched v) added := by
  induction fetched generalizing v with
  | nil => exact ⟨[], by simp [visit], by simp [visit], by simp, by simp, by simp, by simp, by simp [visit], by simp⟩
  | cons r rs ih =>
    by_cases old : spec.child r ∈ v.seen
    · have same : visit spec depth frontier (r :: rs) v = visit spec depth frontier rs v := by
        rw [visit, if_pos old]
      rw [same]
      obtain ⟨added, own⟩ := ih v
      refine ⟨added, own.out, own.next, own.tagged, ?_, own.fresh, own.distinct, own.seen, ?_⟩
      · intro t inside
        have other : spec.child r ≠ spec.child t.row := fun h => own.fresh t inside (h ▸ old)
        rw [List.find?_cons_of_neg (by simpa using other)]
        exact own.first t inside
      · intro untruncated u inside
        rcases List.mem_cons.mp inside with rfl | later
        · exact (own.seen _).mpr (.inl old)
        · exact own.all untruncated u later
    · have child : spec.child (spec.tag depth (spec.parentOf frontier r) r).row = spec.child r := rfl
      by_cases full : spec.rowLimit ≤ ((v.out ++ [spec.tag depth (spec.parentOf frontier r) r]).length : ℚ)
      · have stop : visit spec depth frontier (r :: rs) v =
            ⟨spec.child r :: v.seen, v.out ++ [spec.tag depth (spec.parentOf frontier r) r],
              v.next ++ [spec.tag depth (spec.parentOf frontier r) r], true⟩ := by
          rw [visit, if_neg old]
          exact if_pos full
        rw [stop]
        refine ⟨[spec.tag depth (spec.parentOf frontier r) r], rfl, rfl, ?_, ?_, ?_, by simp, ?_, ?_⟩
        · intro t inside
          obtain rfl := List.mem_singleton.mp inside
          rfl
        · intro t inside
          obtain rfl := List.mem_singleton.mp inside
          rw [List.find?_cons_of_pos (by simp [child])]
          rfl
        · intro t inside
          obtain rfl := List.mem_singleton.mp inside
          exact old
        · intro x
          simp [child, or_comm]
        · intro no
          cases no
      · have on : visit spec depth frontier (r :: rs) v = visit spec depth frontier rs
            ⟨spec.child r :: v.seen, v.out ++ [spec.tag depth (spec.parentOf frontier r) r],
              v.next ++ [spec.tag depth (spec.parentOf frontier r) r], v.truncated⟩ := by
          rw [visit, if_neg old]
          exact if_neg full
        rw [on]
        obtain ⟨added, own⟩ := ih ⟨spec.child r :: v.seen, v.out ++ [spec.tag depth (spec.parentOf frontier r) r],
          v.next ++ [spec.tag depth (spec.parentOf frontier r) r], v.truncated⟩
        refine ⟨spec.tag depth (spec.parentOf frontier r) r :: added, ?_, ?_, ?_, ?_, ?_, ?_, ?_, ?_⟩
        · rw [own.out, List.append_assoc, List.singleton_append]
        · rw [own.next, List.append_assoc, List.singleton_append]
        · intro t inside
          rcases List.mem_cons.mp inside with rfl | later
          · rfl
          · exact own.tagged t later
        · intro t inside
          rcases List.mem_cons.mp inside with rfl | later
          · rw [List.find?_cons_of_pos (by simp [child])]
            rfl
          · have other : spec.child r ≠ spec.child t.row := fun h =>
              own.fresh t later (h ▸ List.mem_cons_self)
            rw [List.find?_cons_of_neg (by simpa using other)]
            exact own.first t later
        · intro t inside
          rcases List.mem_cons.mp inside with rfl | later
          · exact old
          · exact fun seen => own.fresh t later (List.mem_cons_of_mem _ seen)
        · rw [List.map_cons, List.nodup_cons]
          refine ⟨?_, own.distinct⟩
          intro again
          obtain ⟨t, later, same⟩ := List.mem_map.mp again
          exact own.fresh t later (same ▸ List.mem_cons_self)
        · intro x
          rw [own.seen, List.map_cons, List.mem_cons, List.mem_cons, child]
          tauto
        · intro untruncated u inside
          rcases List.mem_cons.mp inside with rfl | later
          · exact (own.seen _).mpr (.inl List.mem_cons_self)
          · exact own.all untruncated u later

end

section

variable {spec} {rows : List ρ} {anchor : ρ → Bool} {seed : List ρ} {fetch : List κ → List ρ} {n : ℕ}
  {seen : List (Cell κ)} {out frontier : List (Tagged ρ π)} {x y : Cell κ} {r s : ρ}

omit [DecidableEq κ] in
theorem link_of_firm (firm : Firm spec rows anchor x y) : Link spec rows x y := by
  rcases firm with ⟨r, inR, _, own, s, inS, other, linked⟩ | ⟨_, ⟨r, inR, own⟩, every⟩
  · exact ⟨r, inR, s, inS, own, other, linked⟩
  · obtain ⟨s, inS, other, linked⟩ := every r inR own
    exact ⟨r, inR, s, inS, own, other, linked⟩

theorem mem_keysOf {k : κ} : k ∈ spec.keysOf frontier ↔ ∃ t ∈ frontier, spec.frontierKey t.row = .value k := by
  unfold RecursiveSpec.keysOf
  rw [List.mem_eraseDups, List.mem_filterMap]
  apply exists_congr
  intro t
  cases spec.frontierKey t.row <;> simp [Cell.key?]

theorem mem_fetch (answers : Answers spec rows anchor seed fetch) :
    s ∈ fetch (spec.keysOf frontier) ↔ s ∈ rows ∧ ∃ t ∈ frontier, Linked spec t.row s := by
  rw [(answers.fetch _).mem_iff, List.mem_filter]
  apply and_congr_right
  intro _
  unfold Linked
  cases cell : spec.nextFilter s with
  | absent => simp [Cell.key?]
  | null => simp [Cell.key?]
  | value k => simp [Cell.key?, mem_keysOf]

theorem parentOf_some {t : Tagged ρ π} (inside : t ∈ frontier) (linked : Linked spec t.row s) :
    ∃ p ∈ frontier, spec.parentOf frontier s = some p ∧ Linked spec p.row s := by
  obtain ⟨k, key, filter⟩ := linked
  have found : (spec.parentOf frontier s).isSome = true := by
    rw [RecursiveSpec.parentOf, List.find?_isSome]
    exact ⟨t, List.mem_reverse.mpr inside, by simp [key, filter]⟩
  obtain ⟨p, parent⟩ := Option.isSome_iff_exists.mp found
  refine ⟨p, List.mem_reverse.mp (List.mem_of_find?_eq_some parent), parent, k, ?_, filter⟩
  have own := List.find?_some parent
  rw [decide_eq_true_eq] at own
  rw [own, filter]

/-- A row that has its distance for depth and a trail for path. -/
def Placed (spec : RecursiveSpec ρ κ π) (rows : List ρ) (anchor : ρ → Bool) (t : Tagged ρ π) : Prop :=
  At (Link spec rows) (SeedNode spec rows anchor) t.depth (spec.child t.row) ∧
    ∃ trail, Trail spec rows anchor t.row trail ∧ trail.length = t.depth + 1 ∧ t.path = spec.pathColumn.map trail.map

structure Walked (spec : RecursiveSpec ρ κ π) (rows : List ρ) (anchor : ρ → Bool) (n : ℕ) (seen : List (Cell κ))
    (out frontier : List (Tagged ρ π)) : Prop where
  seen : ∀ x, x ∈ seen ↔ x ∈ out.map (spec.child ·.row)
  distinct : (out.map (spec.child ·.row)).Nodup
  placed : ∀ t ∈ out, t.depth ≤ n ∧ Placed spec rows anchor t
  all : ∀ m ≤ n, ∀ x, At (Link spec rows) (SeedNode spec rows anchor) m x → x ∈ out.map (spec.child ·.row)
  front : ∀ t ∈ frontier, t.row ∈ rows ∧ t.depth = n ∧ Placed spec rows anchor t
  here : ∀ x, At (Link spec rows) (SeedNode spec rows anchor) n x → ∃ t ∈ frontier, spec.child t.row = x
  firm : ∀ x y, At (Link spec rows) (SeedNode spec rows anchor) n x → Firm spec rows anchor x y →
    ∃ t ∈ frontier, ∃ s ∈ rows, spec.child s = y ∧ Linked spec t.row s

theorem placed_next (walked : Walked spec rows anchor n seen out frontier) {t p : Tagged ρ π} (inFront : p ∈ frontier)
    (parent : spec.parentOf frontier t.row = some p) (linked : Linked spec p.row t.row) (inRows : t.row ∈ rows)
    (tagged : t = spec.tag (n + 1) (spec.parentOf frontier t.row) t.row) (fresh : spec.child t.row ∉ seen) :
    t.depth = n + 1 ∧ Placed spec rows anchor t := by
  obtain ⟨inP, depth, place, trail, own, length, path⟩ := walked.front p inFront
  rw [depth] at place length
  have deep : t.depth = n + 1 := by
    rw [tagged]
    rfl
  refine ⟨deep, ?_, trail ++ [t.row], .step own inRows linked, ?_, ?_⟩
  · rw [deep]
    refine ⟨.step place.1 ⟨p.row, inP, t.row, inRows, rfl, rfl, linked⟩, fun m less shorter => ?_⟩
    obtain ⟨k, le, nearer⟩ := exists_at shorter
    exact fresh ((walked.seen _).mpr (walked.all k (by omega) _ nearer))
  · rw [List.length_append, List.length_singleton, length, deep]
  · have given : t.path = spec.pathColumn.map fun column => ((some p).bind (·.path)).getD [] ++ [column t.row] := by
      rw [← parent]
      exact congrArg Tagged.path tagged
    rw [given, Option.bind_some, path]
    cases spec.pathColumn with
    | none => rfl
    | some column => simp

variable {v : Visit ρ κ π} {added : List (Tagged ρ π)}

theorem added_placed (answers : Answers spec rows anchor seed fetch) (walked : Walked spec rows anchor n seen out frontier)
    (adds : Adds spec (n + 1) frontier (fetch (spec.keysOf frontier)) ⟨seen, out, [], false⟩ v added) :
    ∀ t ∈ added, t.row ∈ rows ∧ t.depth = n + 1 ∧ Placed spec rows anchor t := by
  intro t inside
  have fetched : t.row ∈ fetch (spec.keysOf frontier) := List.mem_of_find?_eq_some (adds.first t inside)
  obtain ⟨inRows, u, inFront, linked⟩ := (mem_fetch answers).mp fetched
  obtain ⟨p, inP, parent, linkedP⟩ := parentOf_some inFront linked
  exact ⟨inRows, placed_next walked inP parent linkedP inRows (adds.tagged t inside) (adds.fresh t inside)⟩

theorem added_distinct (walked : Walked spec rows anchor n seen out frontier)
    (adds : Adds spec (n + 1) frontier (fetch (spec.keysOf frontier)) ⟨seen, out, [], false⟩ v added) :
    (v.out.map (spec.child ·.row)).Nodup := by
  rw [adds.out, List.map_append, List.nodup_append]
  refine ⟨walked.distinct, adds.distinct, ?_⟩
  rintro x old y new rfl
  obtain ⟨t, inside, rfl⟩ := List.mem_map.mp new
  exact adds.fresh t inside ((walked.seen _).mpr old)

theorem walked_next (answers : Answers spec rows anchor seed fetch) (walked : Walked spec rows anchor n seen out frontier)
    (firm : ∀ x, At (Link spec rows) (SeedNode spec rows anchor) (n + 1) x →
      Reach (Firm spec rows anchor) (SeedNode spec rows anchor) (n + 1) x)
    (adds : Adds spec (n + 1) frontier (fetch (spec.keysOf frontier)) ⟨seen, out, [], false⟩ v added)
    (untruncated : v.truncated = false) : Walked spec rows anchor (n + 1) v.seen v.out v.next := by
  have placed := added_placed answers walked adds
  have next : v.next = added := adds.next
  have seenOut : ∀ x, x ∈ v.seen ↔ x ∈ v.out.map (spec.child ·.row) := by
    intro x
    rw [adds.seen, adds.out, List.map_append, List.mem_append, walked.seen]
  have placedOut : ∀ t ∈ v.out, t.depth ≤ n + 1 ∧ Placed spec rows anchor t := by
    intro t inside
    rw [adds.out, List.mem_append] at inside
    rcases inside with old | new
    · exact ⟨(walked.placed t old).1.trans (Nat.le_succ n), (walked.placed t old).2⟩
    · exact ⟨(placed t new).2.1.le, (placed t new).2.2⟩
  have all : ∀ x, At (Link spec rows) (SeedNode spec rows anchor) (n + 1) x → x ∈ v.out.map (spec.child ·.row) := by
    intro y there
    obtain ⟨x, before, last⟩ := reach_succ.mp (firm y there)
    have near := at_before there (reach_mono (fun _ _ => link_of_firm) before) (link_of_firm last)
    obtain ⟨t, inFront, s, inRows, rfl, linked⟩ := walked.firm x y near last
    exact (seenOut _).mp (adds.all untruncated s ((mem_fetch answers).mpr ⟨inRows, t, inFront, linked⟩))
  have here : ∀ x, At (Link spec rows) (SeedNode spec rows anchor) (n + 1) x → ∃ t ∈ v.next, spec.child t.row = x := by
    intro x there
    obtain ⟨t, inside, rfl⟩ := List.mem_map.mp (all x there)
    refine ⟨t, ?_, rfl⟩
    rw [adds.out, List.mem_append] at inside
    rcases inside with old | new
    · have same := at_unique there (walked.placed t old).2.1
      have le := (walked.placed t old).1
      omega
    · rw [next]
      exact new
  refine ⟨seenOut, added_distinct walked adds, placedOut, ?_, ?_, here, ?_⟩
  · intro m le x there
    rcases Nat.le_succ_iff.mp le with below | rfl
    · rw [adds.out, List.map_append]
      exact List.mem_append_left _ (walked.all m below x there)
    · exact all x there
  · rw [next]
    exact placed
  · intro x y there link
    obtain ⟨t, inside, rfl⟩ := here x there
    rcases link with ⟨r, inRows, start, own, _⟩ | ⟨_, _, every⟩
    · exact absurd (at_unique there (at_zero.mpr ⟨r, inRows, start, own⟩)) (Nat.succ_ne_zero n)
    · rw [next] at inside
      obtain ⟨s, inS, other, linked⟩ := every t.row (placed t inside).1 rfl
      exact ⟨t, next ▸ inside, s, inS, other, linked⟩

variable (spec fetch seen out frontier n) in
theorem expand_succ (left : ℕ) (trace : List TraceEntry) :
    expand spec fetch (left + 1) (n + 1) seen out frontier trace = ⟨out, trace, false, false⟩ ∧
        (frontier = [] ∨ spec.keysOf frontier = []) ∨
      ∃ added trace', Adds spec (n + 1) frontier (fetch (spec.keysOf frontier)) ⟨seen, out, [], false⟩
          (visit spec (n + 1) frontier (fetch (spec.keysOf frontier)) ⟨seen, out, [], false⟩) added ∧
        ∀ v, v = visit spec (n + 1) frontier (fetch (spec.keysOf frontier)) ⟨seen, out, [], false⟩ →
          expand spec fetch (left + 1) (n + 1) seen out frontier trace =
            if v.truncated then ⟨v.out, trace', false, true⟩
            else
              let rest := expand spec fetch left (n + 2) v.seen v.out v.next trace'
              if ((n + 1 : ℕ) : ℚ) = spec.depthLimit ∧ v.next ≠ [] then { rest with truncatedByDepth := true } else rest := by
  by_cases empty : frontier = []
  · left
    rw [expand, if_pos empty]
    exact ⟨rfl, .inl empty⟩
  · by_cases keyless : spec.keysOf frontier = []
    · left
      rw [expand, if_neg empty]
      exact ⟨if_pos keyless, .inr keyless⟩
    · right
      obtain ⟨added, adds⟩ := visit_adds spec (n + 1) frontier (fetch (spec.keysOf frontier)) ⟨seen, out, [], false⟩
      refine ⟨added, trace ++ [⟨n + 1, frontier.length, (fetch (spec.keysOf frontier)).length, (visit spec (n + 1) frontier
        (fetch (spec.keysOf frontier)) ⟨seen, out, [], false⟩).next.length⟩], adds, ?_⟩
      rintro v rfl
      rw [expand, if_neg empty]
      exact if_neg keyless

theorem expand_sound (answers : Answers spec rows anchor seed fetch) (left : ℕ) (trace : List TraceEntry)
    (walked : Walked spec rows anchor n seen out frontier)
    (firm : ∀ m, n < m → m ≤ n + left → ∀ x, At (Link spec rows) (SeedNode spec rows anchor) m x →
      Reach (Firm spec rows anchor) (SeedNode spec rows anchor) m x) :
    ((expand spec fetch left (n + 1) seen out frontier trace).rows.map (spec.child ·.row)).Nodup ∧
      ∀ t ∈ (expand spec fetch left (n + 1) seen out frontier trace).rows, Placed spec rows anchor t := by
  induction left generalizing n seen out frontier trace with
  | zero => exact ⟨walked.distinct, fun t inside => (walked.placed t inside).2⟩
  | succ left ih =>
    rcases expand_succ spec fetch n seen out frontier left trace
      with ⟨stop, _⟩ | ⟨added, trace', adds, on⟩
    · rw [stop]
      exact ⟨walked.distinct, fun t inside => (walked.placed t inside).2⟩
    · rw [on _ rfl]
      generalize visit spec (n + 1) frontier (fetch (spec.keysOf frontier)) ⟨seen, out, [], false⟩ = v at adds
      have placed := added_placed answers walked adds
      cases truncated : v.truncated with
      | true =>
        refine ⟨added_distinct walked adds, fun t inside => ?_⟩
        change t ∈ v.out at inside
        rw [adds.out, List.mem_append] at inside
        exact inside.elim (fun old => (walked.placed t old).2) fun new => (placed t new).2.2
      | false =>
        have later := walked_next answers walked (firm (n + 1) (Nat.lt_succ_self n) (by omega)) adds truncated
        have rest := ih trace' later fun m less le => firm m (by omega) (by omega)
        rw [if_neg Bool.false_ne_true]
        dsimp only
        split_ifs
        · exact rest
        · exact rest

omit [DecidableEq κ] in
theorem walked_complete (walked : Walked spec rows anchor n seen out frontier) {m : ℕ} (le : m ≤ n + 1)
    (none : ∀ x, ¬ At (Link spec rows) (SeedNode spec rows anchor) m x) {k : ℕ}
    (reached : Reach (Link spec rows) (SeedNode spec rows anchor) k x) : ∃ t ∈ out, spec.child t.row = x := by
  obtain ⟨j, less, there⟩ := at_nearer none reached
  exact List.mem_map.mp (walked.all j (by omega) x there)

theorem expand_complete (answers : Answers spec rows anchor seed fetch) (left : ℕ) (trace : List TraceEntry)
    (walked : Walked spec rows anchor n seen out frontier) (levels : n + left = spec.levels)
    (unaffected : Unaffected spec rows anchor)
    (last : left = 0 → frontier = [] ∨ ∀ x, ¬ At (Link spec rows) (SeedNode spec rows anchor) (spec.levels + 1) x)
    (byDepth : (expand spec fetch left (n + 1) seen out frontier trace).truncatedByDepth = false)
    (byRows : (expand spec fetch left (n + 1) seen out frontier trace).truncatedByRows = false) {k : ℕ}
    (reached : Reach (Link spec rows) (SeedNode spec rows anchor) k x) :
    ∃ t ∈ (expand spec fetch left (n + 1) seen out frontier trace).rows, spec.child t.row = x := by
  have noneHere (empty : frontier = []) : ∀ x, ¬ At (Link spec rows) (SeedNode spec rows anchor) n x := by
    intro x there
    obtain ⟨t, inside, _⟩ := walked.here x there
    rw [empty] at inside
    cases inside
  induction left generalizing n seen out frontier trace with
  | zero =>
    change ∃ t ∈ out, spec.child t.row = x
    rcases last rfl with empty | none
    · exact walked_complete walked (Nat.le_succ n) (noneHere empty) reached
    · rw [← levels, Nat.add_zero] at none
      exact walked_complete walked le_rfl none reached
  | succ left ih =>
    rcases expand_succ spec fetch n seen out frontier left trace
      with ⟨stop, ended⟩ | ⟨added, trace', adds, on⟩
    · rw [stop]
      rcases ended with empty | keyless
      · exact walked_complete walked (Nat.le_succ n) (noneHere empty) reached
      · apply walked_complete walked le_rfl _ reached
        intro y there
        obtain ⟨w, before, link⟩ := reach_succ.mp (unaffected.firm (n + 1) (by omega) y there)
        have near := at_before there (reach_mono (fun _ _ => link_of_firm) before) (link_of_firm link)
        obtain ⟨t, inFront, s, _, _, key, own, _⟩ := walked.firm w y near link
        have inKeys := mem_keysOf.mpr ⟨t, inFront, own⟩
        rw [keyless] at inKeys
        cases inKeys
    · rw [on _ rfl] at byDepth byRows ⊢
      generalize visit spec (n + 1) frontier (fetch (spec.keysOf frontier)) ⟨seen, out, [], false⟩ = v at adds byDepth byRows
      cases truncated : v.truncated with
      | true =>
        rw [truncated] at byRows
        cases byRows
      | false =>
        have later := walked_next answers walked (unaffected.firm (n + 1) (by omega)) adds truncated
        rw [truncated] at byDepth byRows
        dsimp only [Bool.false_eq_true, if_false] at byDepth byRows ⊢
        by_cases atLimit : ((n + 1 : ℕ) : ℚ) = spec.depthLimit ∧ v.next ≠ []
        · rw [if_neg Bool.false_ne_true, if_pos atLimit] at byDepth
          cases byDepth
        · rw [if_neg Bool.false_ne_true, if_neg atLimit] at byDepth byRows ⊢
          refine ih trace' later (by omega) ?_ byDepth byRows ?_
          · rintro rfl
            rcases unaffected.whole with whole | none
            · left
              by_contra filled
              rw [← levels] at whole
              exact atLimit ⟨whole, filled⟩
            · exact .inr none
          · intro empty x there
            obtain ⟨t, inside, _⟩ := later.here x there
            rw [empty] at inside
            cases inside

theorem seeded_nodes (spec : RecursiveSpec ρ κ π) (seed : List ρ) :
    ((spec.seeded seed).map (spec.child ·.row)).Nodup ∧
      (∀ t ∈ spec.seeded seed, ∃ r ∈ seed, t = spec.tag 0 none r) ∧
        ∀ r ∈ seed, spec.child r ∈ (spec.seeded seed).map (spec.child ·.row) := by
  induction seed using List.reverseRecOn with
  | nil => simp [RecursiveSpec.seeded]
  | append_singleton seed r ih =>
    obtain ⟨distinct, tagged, all⟩ := ih
    have step : spec.seeded (seed ++ [r]) =
        if spec.child r ∈ (spec.seeded seed).map (spec.child ·.row) then spec.seeded seed
        else spec.seeded seed ++ [spec.tag 0 none r] := by
      unfold RecursiveSpec.seeded
      rw [List.foldl_append]
      rfl
    rw [step]
    by_cases old : spec.child r ∈ (spec.seeded seed).map (spec.child ·.row)
    · rw [if_pos old]
      refine ⟨distinct, fun t inside => ?_, fun u inside => ?_⟩
      · obtain ⟨u, inSeed, own⟩ := tagged t inside
        exact ⟨u, List.mem_append_left _ inSeed, own⟩
      · rcases List.mem_append.mp inside with inSeed | last
        · exact all u inSeed
        · obtain rfl := List.mem_singleton.mp last
          exact old
    · rw [if_neg old]
      refine ⟨?_, fun t inside => ?_, fun u inside => ?_⟩
      · rw [List.map_append, List.nodup_append]
        refine ⟨distinct, List.nodup_singleton _, ?_⟩
        rintro x inOld y last rfl
        obtain rfl := List.mem_singleton.mp last
        exact old inOld
      · rcases List.mem_append.mp inside with inOld | last
        · obtain ⟨u, inSeed, own⟩ := tagged t inOld
          exact ⟨u, List.mem_append_left _ inSeed, own⟩
        · exact ⟨r, by simp, List.mem_singleton.mp last⟩
      · rw [List.map_append]
        rcases List.mem_append.mp inside with inSeed | last
        · exact List.mem_append_left _ (all u inSeed)
        · obtain rfl := List.mem_singleton.mp last
          exact List.mem_append_right _ List.mem_cons_self

omit [DecidableEq κ] in
theorem placed_seed (inRows : r ∈ rows) (start : anchor r = true) : Placed spec rows anchor (spec.tag 0 none r) := by
  refine ⟨at_zero.mpr ⟨r, inRows, start, rfl⟩, [r], .seed inRows start, rfl, ?_⟩
  unfold RecursiveSpec.tag
  cases spec.pathColumn <;> rfl

theorem walked_seed (answers : Answers spec rows anchor seed fetch) :
    Walked spec rows anchor 0 ((spec.seeded seed).map (spec.child ·.row)) (spec.seeded seed) (seed.map (spec.tag 0 none)) := by
  obtain ⟨distinct, tagged, all⟩ := seeded_nodes spec seed
  have inSeed : ∀ r, r ∈ seed ↔ r ∈ rows ∧ anchor r = true := by
    intro r
    rw [answers.seed.mem_iff, List.mem_filter]
  refine ⟨fun _ => Iff.rfl, distinct, ?_, ?_, ?_, ?_, ?_⟩
  · intro t inside
    obtain ⟨r, own, rfl⟩ := tagged t inside
    exact ⟨le_rfl, placed_seed ((inSeed r).mp own).1 ((inSeed r).mp own).2⟩
  · intro m le x there
    obtain rfl := Nat.le_zero.mp le
    obtain ⟨r, inRows, start, rfl⟩ := at_zero.mp there
    exact all r ((inSeed r).mpr ⟨inRows, start⟩)
  · intro t inside
    obtain ⟨r, own, rfl⟩ := List.mem_map.mp inside
    exact ⟨((inSeed r).mp own).1, rfl, placed_seed ((inSeed r).mp own).1 ((inSeed r).mp own).2⟩
  · intro x there
    obtain ⟨r, inRows, start, rfl⟩ := at_zero.mp there
    exact ⟨spec.tag 0 none r, List.mem_map_of_mem ((inSeed r).mpr ⟨inRows, start⟩), rfl⟩
  · intro x y there firm
    rcases firm with ⟨r, inRows, start, _, s, inS, other, linked⟩ | ⟨noSeed, _⟩
    · exact ⟨spec.tag 0 none r, List.mem_map_of_mem ((inSeed r).mpr ⟨inRows, start⟩), s, inS, other, linked⟩
    · exact absurd (at_zero.mp there) noSeed

omit [DecidableEq κ] in
theorem levels_pos (spec : RecursiveSpec ρ κ π) : 0 < spec.levels := by
  have one : (1 : ℤ) ≤ ⌊spec.depthLimit⌋ := Int.le_floor.mpr (by exact_mod_cast le_max_left _ _)
  unfold RecursiveSpec.levels
  omega

theorem run_closure (answers : Answers spec rows anchor seed fetch) (unaffected : Unaffected spec rows anchor) :
    Closure spec rows anchor (run spec seed fetch) := by
  have walked := walked_seed answers
  obtain ⟨distinct, placed⟩ := expand_sound answers spec.levels [⟨0, 0, seed.length, seed.length⟩] walked
    fun m _ le => unaffected.firm m (by omega)
  refine ⟨distinct, fun t inside => (placed t inside).1, fun t inside => (placed t inside).2, ?_⟩
  intro byDepth byRows k x reached
  exact expand_complete answers spec.levels _ walked (Nat.zero_add _) unaffected
    (fun none => absurd none (levels_pos spec).ne') byDepth byRows reached

/-- The row of the level before that a row was fetched for, and the fetch it came first in. -/
structure Fetched (spec : RecursiveSpec ρ κ π) (seed : List ρ) (fetch : List κ → List ρ) (out : List (Tagged ρ π))
    (t p : Tagged ρ π) (keys : List κ) : Prop where
  linked : Linked spec p.row t.row
  first : (fetch keys).find? (fun r => spec.child r = spec.child t.row) = some t.row
  depth : t.depth = p.depth + 1
  before : p.depth = 0 ∧ p.row ∈ seed ∨ p.depth ≠ 0 ∧ p ∈ out

theorem Fetched.append {t p : Tagged ρ π} {keys : List κ} (own : Fetched spec seed fetch out t p keys)
    (more : List (Tagged ρ π)) : Fetched spec seed fetch (out ++ more) t p keys :=
  ⟨own.linked, own.first, own.depth, own.before.imp_right fun ⟨deep, inside⟩ => ⟨deep, List.mem_append_left _ inside⟩⟩

variable (seen) in
theorem expand_fetched (answers : Answers spec rows anchor seed fetch) (left : ℕ) (trace : List TraceEntry)
    (front : ∀ p ∈ frontier, p.depth = n ∧ (p.depth = 0 ∧ p.row ∈ seed ∨ p.depth ≠ 0 ∧ p ∈ out)) :
    ∃ more, (expand spec fetch left (n + 1) seen out frontier trace).rows = out ++ more ∧
      ∀ t ∈ more, t.depth ≤ n + left ∧ ∃ p keys, Fetched spec seed fetch (out ++ more) t p keys := by
  induction left generalizing n seen out frontier trace with
  | zero => exact ⟨[], by simp [expand], by simp⟩
  | succ left ih =>
    rcases expand_succ spec fetch n seen out frontier left trace
      with ⟨stop, _⟩ | ⟨added, trace', adds, on⟩
    · rw [stop]
      exact ⟨[], by simp, by simp⟩
    · rw [on _ rfl]
      generalize visit spec (n + 1) frontier (fetch (spec.keysOf frontier)) ⟨seen, out, [], false⟩ = v at adds
      have depths : ∀ t ∈ added, t.depth = n + 1 := by
        intro t inside
        rw [adds.tagged t inside]
        rfl
      have found : ∀ t ∈ added, ∃ p keys, Fetched spec seed fetch (out ++ added) t p keys := by
        intro t inside
        have fetched := List.mem_of_find?_eq_some (adds.first t inside)
        obtain ⟨_, p, inFront, linked⟩ := (mem_fetch answers).mp fetched
        obtain ⟨depth, before⟩ := front p inFront
        exact ⟨p, _, Fetched.append ⟨linked, adds.first t inside, by rw [depths t inside, depth], before⟩ added⟩
      cases truncated : v.truncated with
      | true =>
        refine ⟨added, adds.out, fun t inside => ⟨?_, found t inside⟩⟩
        have deep := depths t inside
        omega
      | false =>
        have next : v.next = added := adds.next
        have front' : ∀ p ∈ v.next, p.depth = n + 1 ∧ (p.depth = 0 ∧ p.row ∈ seed ∨ p.depth ≠ 0 ∧ p ∈ v.out) := by
          intro p inside
          rw [next] at inside
          have deep := depths p inside
          exact ⟨deep, .inr ⟨by omega, by rw [adds.out]; exact List.mem_append_right _ inside⟩⟩
        obtain ⟨more, whole, later⟩ := @ih (n + 1) v.seen v.out v.next trace' front'
        rw [if_neg Bool.false_ne_true]
        refine ⟨added ++ more, ?_, ?_⟩
        · dsimp only
          split_ifs
          · exact whole.trans (by rw [adds.out, List.append_assoc])
          · exact whole.trans (by rw [adds.out, List.append_assoc])
        · intro t inside
          rcases List.mem_append.mp inside with new | afterwards
          · obtain ⟨p, keys, own⟩ := found t new
            rw [← List.append_assoc]
            have deep := depths t new
            exact ⟨by omega, p, keys, own.append more⟩
          · obtain ⟨deep, p, keys, own⟩ := later t afterwards
            rw [adds.out, List.append_assoc] at own
            exact ⟨by omega, p, keys, own⟩

theorem run_fetched (answers : Answers spec rows anchor seed fetch) :
    ∀ t ∈ (run spec seed fetch).rows, t.depth ≤ spec.levels ∧
      (t.depth ≠ 0 → ∃ p keys, Fetched spec seed fetch (run spec seed fetch).rows t p keys) := by
  obtain ⟨_, tagged, _⟩ := seeded_nodes spec seed
  have front : ∀ p ∈ seed.map (spec.tag 0 none),
      p.depth = 0 ∧ (p.depth = 0 ∧ p.row ∈ seed ∨ p.depth ≠ 0 ∧ p ∈ spec.seeded seed) := by
    intro p inside
    obtain ⟨r, own, rfl⟩ := List.mem_map.mp inside
    exact ⟨rfl, .inl ⟨rfl, own⟩⟩
  obtain ⟨more, whole, found⟩ := expand_fetched ((spec.seeded seed).map (spec.child ·.row)) answers spec.levels
    [⟨0, 0, seed.length, seed.length⟩] front
  have rowsRun : (run spec seed fetch).rows = spec.seeded seed ++ more := whole
  intro t inside
  rw [rowsRun] at inside ⊢
  rcases List.mem_append.mp inside with start | later
  · obtain ⟨r, _, rfl⟩ := tagged t start
    exact ⟨Nat.zero_le _, fun deep => absurd rfl deep⟩
  · obtain ⟨deep, own⟩ := found t later
    exact ⟨by omega, fun _ => own⟩

/-- The order in which the rows that lead to a node come last. -/
noncomputable def leadingLast (spec : RecursiveSpec ρ κ π) (rows : List ρ) (x : Cell κ) : List ρ :=
  open Classical in
  rows.filter (fun r => !decide (∃ s ∈ rows, spec.child s = x ∧ Linked spec r s)) ++
    rows.filter fun r => decide (∃ s ∈ rows, spec.child s = x ∧ Linked spec r s)

theorem leadingLast_perm (spec : RecursiveSpec ρ κ π) (rows : List ρ) (x : Cell κ) :
    (leadingLast spec rows x).Perm rows :=
  List.perm_append_comm.trans (List.filter_append_perm _ rows)

theorem leadingLast_first {keys : List κ} {p : ρ} (up : spec.up = true)
    (first : ((leadingLast spec rows x).filter fun s => (spec.nextFilter s).key?.any (· ∈ keys)).find?
      (fun u => spec.child u = spec.child p) = some p)
    (leads : ∃ s ∈ rows, spec.child s = x ∧ Linked spec p s) {r : ρ} (inRows : r ∈ rows)
    (same : spec.child r = spec.child p) : ∃ s ∈ rows, spec.child s = x ∧ Linked spec r s := by
  classical
  by_contra apart
  have asked : (spec.nextFilter p).key?.any (· ∈ keys) = true := (List.mem_filter.mp (List.mem_of_find?_eq_some first)).2
  have filter : spec.nextFilter r = spec.nextFilter p := by
    unfold RecursiveSpec.nextFilter
    rw [up]
    exact same
  rw [leadingLast, List.filter_append, List.find?_append] at first
  cases earlier : ((rows.filter fun r => !decide (∃ s ∈ rows, spec.child s = x ∧ Linked spec r s)).filter
      fun s => (spec.nextFilter s).key?.any (· ∈ keys)).find? fun u => spec.child u = spec.child p with
  | none =>
    have none := List.find?_eq_none.mp earlier r
    rw [List.mem_filter, List.mem_filter] at none
    exact none ⟨⟨inRows, by simpa using apart⟩, by rw [filter]; exact asked⟩ (by simpa using same)
  | some e =>
    rw [earlier, Option.some_or, Option.some.injEq] at first
    subst first
    have inside := (List.mem_filter.mp (List.mem_of_mem_filter (List.mem_of_find?_eq_some earlier))).2
    rw [Bool.not_eq_true', decide_eq_false_iff_not] at inside
    exact inside leads

omit [DecidableEq κ] in
theorem firm_down (down : spec.up = false) (link : Link spec rows x y) : Firm spec rows anchor x y := by
  obtain ⟨r, inRows, s, inS, own, other, k, key, filter⟩ := link
  have keys : ∀ u, spec.child u = x → spec.frontierKey u = .value k := by
    intro u same
    unfold RecursiveSpec.frontierKey at key ⊢
    rw [down] at key ⊢
    exact (same.trans own.symm).trans key
  by_cases start : SeedNode spec rows anchor x
  · obtain ⟨u, inU, anchored, same⟩ := start
    exact .inl ⟨u, inU, anchored, same, s, inS, other, k, keys u same, filter⟩
  · exact .inr ⟨start, ⟨r, inRows, own⟩, fun u _ same => ⟨s, inS, other, k, keys u same, filter⟩⟩

theorem unaffected_of_closures
    (always : ∀ seed fetch, Answers spec rows anchor seed fetch → Closure spec rows anchor (run spec seed fetch) ∧
      (run spec seed fetch).truncatedByDepth = false ∧ (run spec seed fetch).truncatedByRows = false) :
    Unaffected spec rows anchor := by
  have ordered : ∀ order : List ρ, order.Perm rows → Answers spec rows anchor (rows.filter anchor)
      fun keys => order.filter fun s => (spec.nextFilter s).key?.any (· ∈ keys) :=
    fun order perm => ⟨List.Perm.refl _, fun keys => perm.filter _⟩
  have firm : ∀ n ≤ spec.levels, ∀ x, At (Link spec rows) (SeedNode spec rows anchor) n x →
      Reach (Firm spec rows anchor) (SeedNode spec rows anchor) n x := by
    intro n
    induction n with
    | zero =>
      intro _ x there
      exact .start (at_zero.mp there)
    | succ n ih =>
      intro le x there
      by_contra soft
      have loose : ∀ y, At (Link spec rows) (SeedNode spec rows anchor) n y → ¬ Firm spec rows anchor y x :=
        fun y near link => soft (.step (ih (by omega) y near) link)
      cases up : spec.up with
      | false =>
        obtain ⟨y, near, link⟩ := at_pred there
        exact loose y near (firm_down up link)
      | true =>
        have perm := leadingLast_perm spec rows x
        have answers := ordered _ perm
        obtain ⟨closure, byDepth, byRows⟩ := always _ _ answers
        obtain ⟨t, inside, rfl⟩ := closure.complete byDepth byRows _ _ there.1
        have deep := at_unique (closure.distance t inside) there
        obtain ⟨p, keys, own⟩ := (run_fetched answers t inside).2 (by omega)
        have depth : p.depth = n := by
          have step := own.depth
          omega
        have leads : ∃ s ∈ rows, spec.child s = spec.child t.row ∧ Linked spec p.row s := by
          have fetched := List.mem_of_find?_eq_some own.first
          exact ⟨t.row, perm.mem_iff.mp (List.mem_of_mem_filter fetched), rfl, own.linked⟩
        rcases own.before with ⟨top, inSeed⟩ | ⟨low, inRun⟩
        · rw [List.mem_filter] at inSeed
          refine loose (spec.child p.row) ?_ (.inl ⟨p.row, inSeed.1, inSeed.2, rfl, leads⟩)
          rw [← depth, top]
          exact at_zero.mpr ⟨p.row, inSeed.1, inSeed.2, rfl⟩
        · have near := closure.distance p inRun
          rw [depth] at near low
          obtain ⟨_, keys', own'⟩ := (run_fetched answers p inRun).2 (by omega)
          have inFetch := List.mem_of_find?_eq_some own'.first
          have inRows : p.row ∈ rows := perm.mem_iff.mp (List.mem_of_mem_filter inFetch)
          have notSeed : ¬ SeedNode spec rows anchor (spec.child p.row) := fun start =>
            low (at_unique near (at_zero.mpr start))
          exact loose _ near (.inr ⟨notSeed, ⟨p.row, inRows, rfl⟩, fun r inR same =>
            leadingLast_first up own'.first leads inR same⟩)
  refine ⟨firm, .inr fun x there => ?_⟩
  obtain ⟨closure, byDepth, byRows⟩ := always _ _ (ordered rows (List.Perm.refl _))
  obtain ⟨t, inside, rfl⟩ := closure.complete byDepth byRows _ _ there.1
  have deep := at_unique (closure.distance t inside) there
  have le := (run_fetched (ordered rows (List.Perm.refl _)) t inside).1
  omega

end

def managers (up : Bool) : RecursiveSpec (ℕ × Option ℕ) ℕ ℕ :=
  ⟨fun r => r.2.elim .null .value, fun r => .value r.1, up, none, none, none⟩

end DataFabric.RecursiveExecutor
