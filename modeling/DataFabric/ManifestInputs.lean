import DataFabric.JsValues
import Mathlib.Data.List.Nodup
import Mathlib.Data.List.Flatten

set_option autoImplicit false

/-!
# Manifests that come from uploads

The parsers build objects on a heap, where an anchor of YAML makes two places share one object. What is let through is
a plain tree, so that it can be changed in place.
-/
namespace DataFabric.ManifestInputs
open JsValues

inductive Value
  | prim (p : Primitive)
  | ref (a : ℕ)

/-- An object as the parser has built it: a list, or its own properties and whether its prototype is that of a plain
object. -/
inductive Cell
  | arr (elems : List Value)
  | obj (plain : Bool) (fields : List (String × Value))

abbrev Heap := ℕ → Cell

namespace Cell

def values : Cell → List Value
  | arr elems => elems
  | obj _ fields => fields.map Prod.snd

end Cell

structure ManifestInputError where
  code : String
  message : String
  status : ℕ
  deriving DecidableEq

def forbiddenKeys : List String := ["__proto__", "constructor", "prototype"]

def maxDepth : ℕ := 40

def maxNodes : ℕ := 500000

structure Progress where
  seen : List ℕ
  nodes : ℕ

def walk (heap : Heap) : ℕ → Value → Progress → Except ManifestInputError Progress
  | _, .prim _, st => .ok st
  | 0, .ref _, _ => .error ⟨"MANIFEST_TOO_DEEP", "Manifest is nested too deeply", 400⟩
  | left + 1, .ref a, st =>
    if maxNodes < st.nodes + 1 then .error ⟨"MANIFEST_TOO_LARGE", "Manifest has too many nodes", 413⟩
    else if a ∈ st.seen then
      .error ⟨"YAML_ALIASES_NOT_ALLOWED", "YAML anchors/aliases are not supported in manifests", 400⟩
    else
      match heap a with
      | .arr elems => elems.foldlM (fun st v => walk heap left v st) ⟨a :: st.seen, st.nodes + 1⟩
      | .obj plain fields =>
        if plain then
          fields.foldlM (fun st f =>
            if f.1 ∈ forbiddenKeys then
              .error ⟨"FORBIDDEN_KEY", s!"Manifest key \"{f.1}\" is not allowed", 400⟩
            else walk heap left f.2 st) ⟨a :: st.seen, st.nodes + 1⟩
        else .error ⟨"INVALID_MANIFEST", "Manifest contains non-plain objects", 400⟩

def assertPlainTree (heap : Heap) (root : Value) : Except ManifestInputError Unit :=
  (walk heap (maxDepth + 1) root ⟨[], 0⟩).map fun _ => ()

/-- The objects along all paths from a value, in the order of the walk; none where a path is too long. -/
def visits (heap : Heap) : ℕ → Value → Option (List ℕ)
  | _, .prim _ => some []
  | 0, .ref _ => none
  | left + 1, .ref a => ((heap a).values.mapM (visits heap left)).map fun parts => a :: parts.flatten

/-- A list, or a plain object without a key that reaches a prototype. -/
def Plain : Cell → Prop
  | .arr _ => True
  | .obj plain fields => plain = true ∧ ∀ f ∈ fields, f.1 ∉ forbiddenKeys

/-- The walk over these objects: each is plain, new, and there is room for it. -/
structure Accepts (heap : Heap) (st : Progress) (as : List ℕ) (st' : Progress) : Prop where
  plain : ∀ a ∈ as, Plain (heap a)
  once : as.Nodup
  new : ∀ a ∈ as, a ∉ st.seen
  room : st.nodes + as.length ≤ maxNodes
  after : st' = ⟨as.reverse ++ st.seen, st.nodes + as.length⟩

section Walk
variable {heap : Heap} {st st' : Progress} {as bs : List ℕ} {left : ℕ}

theorem accepts_nil (room : st.nodes ≤ maxNodes) : Accepts heap st [] st' ↔ st' = st := by
  constructor
  · exact fun h => h.after
  · rintro rfl
    exact ⟨by simp, List.nodup_nil, by simp, room, rfl⟩

theorem accepts_append : Accepts heap st (as ++ bs) st' ↔ ∃ m, Accepts heap st as m ∧ Accepts heap m bs st' := by
  constructor
  · intro h
    have parts := List.nodup_append.mp h.once
    have room := h.room
    rw [List.length_append] at room
    refine ⟨⟨as.reverse ++ st.seen, st.nodes + as.length⟩,
      ⟨fun a ha => h.plain a (List.mem_append_left _ ha), parts.1,
        fun a ha => h.new a (List.mem_append_left _ ha), by omega, rfl⟩,
      fun b hb => h.plain b (List.mem_append_right _ hb), parts.2.1, fun b hb => ?_, ?_, ?_⟩
    · rw [List.mem_append, List.mem_reverse, not_or]
      exact ⟨fun inside => parts.2.2 b inside b hb rfl, h.new b (List.mem_append_right _ hb)⟩
    · change st.nodes + as.length + bs.length ≤ maxNodes
      omega
    · rw [h.after, List.reverse_append, List.length_append, List.append_assoc, Nat.add_assoc]
  · rintro ⟨m, first, second⟩
    have new := second.new
    have room := second.room
    have after := second.after
    rw [first.after] at new room after
    refine ⟨fun a ha => ?_, ?_, fun a ha => ?_, ?_, ?_⟩
    · exact (List.mem_append.mp ha).elim (first.plain a) (second.plain a)
    · refine List.nodup_append.mpr ⟨first.once, second.once, fun a ha b hb same => new b hb ?_⟩
      exact List.mem_append_left _ (List.mem_reverse.mpr (same ▸ ha))
    · exact (List.mem_append.mp ha).elim (first.new a) fun inside old => new a inside (List.mem_append_right _ old)
    · rw [List.length_append, ← Nat.add_assoc]
      exact room
    · rw [after, List.reverse_append, List.length_append, List.append_assoc, Nat.add_assoc]

theorem fields_walk (fields : List (String × Value)) (st st' : Progress) :
    fields.foldlM (fun st f =>
        if f.1 ∈ forbiddenKeys then
          .error ⟨"FORBIDDEN_KEY", s!"Manifest key \"{f.1}\" is not allowed", 400⟩
        else walk heap left f.2 st) st = .ok st' ↔
      (∀ f ∈ fields, f.1 ∉ forbiddenKeys) ∧
        (fields.map Prod.snd).foldlM (fun st v => walk heap left v st) st = .ok st' := by
  induction fields generalizing st with
  | nil => simp
  | cons f fields ih =>
    rw [List.foldlM_cons, List.forall_mem_cons, List.map_cons, List.foldlM_cons]
    by_cases forbidden : f.1 ∈ forbiddenKeys
    · rw [if_pos forbidden]
      constructor
      · intro h
        cases h
      · exact fun h => absurd forbidden h.1.1
    · rw [if_neg forbidden]
      cases walk heap left f.2 st with
      | error e =>
        constructor
        · intro h
          cases h
        · rintro ⟨_, h⟩
          cases h
      | ok m => exact (ih m).trans ⟨fun h => ⟨⟨forbidden, h.1⟩, h.2⟩, fun h => ⟨h.1.2, h.2⟩⟩

theorem values_walk (below : ∀ v st st', st.nodes ≤ maxNodes →
      (walk heap left v st = .ok st' ↔ ∃ as, visits heap left v = some as ∧ Accepts heap st as st'))
    (vs : List Value) (st st' : Progress) (room : st.nodes ≤ maxNodes) :
    vs.foldlM (fun st v => walk heap left v st) st = .ok st' ↔
      ∃ parts, vs.mapM (visits heap left) = some parts ∧ Accepts heap st parts.flatten st' := by
  induction vs generalizing st with
  | nil =>
    constructor
    · intro h
      cases h
      exact ⟨[], rfl, (accepts_nil room).mpr rfl⟩
    · rintro ⟨parts, none, h⟩
      cases none
      rw [(accepts_nil room).mp h]
      rfl
  | cons v vs ih =>
    rw [List.foldlM_cons, List.mapM_cons]
    constructor
    · intro h
      cases first : walk heap left v st with
      | error e =>
        rw [first] at h
        cases h
      | ok m =>
        rw [first] at h
        obtain ⟨as, visited, accepted⟩ := (below v st m room).mp first
        have room' : m.nodes ≤ maxNodes := by
          rw [accepted.after]
          exact accepted.room
        obtain ⟨parts, rest, more⟩ := (ih m room').mp h
        refine ⟨as :: parts, ?_, ?_⟩
        · rw [visited, rest]
          rfl
        · rw [List.flatten_cons]
          exact accepts_append.mpr ⟨m, accepted, more⟩
    · rintro ⟨parts, all, h⟩
      obtain ⟨as, visited, all⟩ := Option.bind_eq_some_iff.mp all
      obtain ⟨rest, others, all⟩ := Option.bind_eq_some_iff.mp all
      cases all
      rw [List.flatten_cons, accepts_append] at h
      obtain ⟨m, first, second⟩ := h
      have room' : m.nodes ≤ maxNodes := by
        rw [first.after]
        exact first.room
      rw [(below v st m room).mpr ⟨as, visited, first⟩]
      exact (ih m room').mpr ⟨rest, others, second⟩

theorem accepts_cons {a : ℕ} : Accepts heap st (a :: as) st' ↔
    (st.nodes + 1 ≤ maxNodes ∧ a ∉ st.seen) ∧ Plain (heap a) ∧
      Accepts heap ⟨a :: st.seen, st.nodes + 1⟩ as st' := by
  rw [← List.singleton_append, accepts_append]
  constructor
  · rintro ⟨m, first, rest⟩
    rw [first.after] at rest
    exact ⟨⟨first.room, first.new a List.mem_cons_self⟩, first.plain a List.mem_cons_self, rest⟩
  · rintro ⟨⟨room, new⟩, plain, rest⟩
    refine ⟨_, ⟨fun b hb => ?_, List.nodup_singleton a, fun b hb => ?_, room, rfl⟩, rest⟩
    · rwa [List.mem_singleton.mp hb]
    · rwa [List.mem_singleton.mp hb]

theorem ref_walk (a : ℕ) (st st' : Progress) :
    walk heap (left + 1) (.ref a) st = .ok st' ↔
      (st.nodes + 1 ≤ maxNodes ∧ a ∉ st.seen) ∧ Plain (heap a) ∧
        (heap a).values.foldlM (fun st v => walk heap left v st) ⟨a :: st.seen, st.nodes + 1⟩ = .ok st' := by
  rw [walk]
  by_cases room : maxNodes < st.nodes + 1
  · rw [if_pos room]
    constructor
    · intro h
      cases h
    · intro h
      omega
  · rw [if_neg room, ← Nat.not_lt]
    by_cases old : a ∈ st.seen
    · rw [if_pos old]
      constructor
      · intro h
        cases h
      · exact fun h => absurd old h.1.2
    · rw [if_neg old, and_iff_right ⟨room, old⟩]
      cases heap a with
      | arr elems => exact (and_iff_right trivial).symm
      | obj plain fields =>
        cases plain with
        | false =>
          constructor
          · intro h
            cases h
          · exact fun h => absurd h.1.1 Bool.false_ne_true
        | true => exact (fields_walk fields _ st').trans (and_congr_left' (and_iff_right rfl).symm)

theorem prim_walk (room : st.nodes ≤ maxNodes) : Except.ok st = (Except.ok st' : Except ManifestInputError Progress) ↔
    ∃ as, some [] = some as ∧ Accepts heap st as st' := by
  rw [Except.ok.injEq, eq_comm, ← accepts_nil room]
  exact ⟨fun h => ⟨[], rfl, h⟩, fun ⟨as, same, h⟩ => Option.some.inj same ▸ h⟩

theorem walk_iff (left : ℕ) (v : Value) (st st' : Progress) (room : st.nodes ≤ maxNodes) :
    walk heap left v st = .ok st' ↔ ∃ as, visits heap left v = some as ∧ Accepts heap st as st' := by
  induction left generalizing v st st' with
  | zero =>
    cases v with
    | prim p =>
      rw [walk, visits]
      exact prim_walk room
    | ref a =>
      rw [walk, visits]
      constructor
      · intro h
        cases h
      · rintro ⟨as, impossible, _⟩
        cases impossible
  | succ left ih =>
    cases v with
    | prim p =>
      rw [walk, visits]
      exact prim_walk room
    | ref a =>
      rw [ref_walk]
      constructor
      · rintro ⟨fresh, plain, rest⟩
        obtain ⟨parts, visited, accepted⟩ := (values_walk ih _ _ st' fresh.1).mp rest
        refine ⟨a :: parts.flatten, ?_, accepts_cons.mpr ⟨fresh, plain, accepted⟩⟩
        rw [visits, visited]
        rfl
      · rintro ⟨as, visited, accepted⟩
        rw [visits] at visited
        obtain ⟨parts, inner, rfl⟩ := Option.map_eq_some_iff.mp visited
        obtain ⟨fresh, plain, rest⟩ := accepts_cons.mp accepted
        exact ⟨fresh, plain, (values_walk ih _ _ st' fresh.1).mpr ⟨parts, inner, rest⟩⟩

def follow (heap : Heap) : Value → List ℕ → Option Value
  | v, [] => some v
  | .prim _, _ :: _ => none
  | .ref a, i :: path => ((heap a).values[i]?).bind fun v => follow heap v path

theorem mapM_some {α β : Type*} {f : α → Option β} {vs : List α} {parts : List β} (h : vs.mapM f = some parts) {i : ℕ}
    {v : α} (at_ : vs[i]? = some v) : ∃ part, parts[i]? = some part ∧ f v = some part := by
  induction vs generalizing parts i with
  | nil => cases at_
  | cons w vs ih =>
    rw [List.mapM_cons] at h
    obtain ⟨part, own, h⟩ := Option.bind_eq_some_iff.mp h
    obtain ⟨rest, others, h⟩ := Option.bind_eq_some_iff.mp h
    cases h
    cases i with
    | zero =>
      cases at_
      exact ⟨part, rfl, own⟩
    | succ i => exact ih others at_

theorem follow_cons {a i : ℕ} {path : List ℕ} {w : Value} {parts : List (List ℕ)}
    (inner : (heap a).values.mapM (visits heap left) = some parts) (h : follow heap (.ref a) (i :: path) = some w) :
    ∃ v part, (heap a).values[i]? = some v ∧ parts[i]? = some part ∧ visits heap left v = some part ∧
      follow heap v path = some w := by
  obtain ⟨v, at_, rest⟩ := Option.bind_eq_some_iff.mp h
  obtain ⟨part, place, own⟩ := mapM_some inner at_
  exact ⟨v, part, at_, place, own, rest⟩

theorem follow_visited {v : Value} {a : ℕ} {path : List ℕ} (visited : visits heap left v = some as)
    (h : follow heap v path = some (.ref a)) : a ∈ as := by
  induction left generalizing v as path with
  | zero =>
    cases v with
    | prim p => cases path <;> cases h
    | ref b => cases visited
  | succ left ih =>
    cases v with
    | prim p => cases path <;> cases h
    | ref b =>
      rw [visits] at visited
      obtain ⟨parts, inner, rfl⟩ := Option.map_eq_some_iff.mp visited
      cases path with
      | nil =>
        cases h
        exact List.mem_cons_self
      | cons i path =>
        obtain ⟨v, part, _, place, own, rest⟩ := follow_cons inner h
        exact List.mem_cons_of_mem _ (List.mem_flatten.mpr ⟨part, List.mem_of_getElem? place, ih own rest⟩)

theorem follow_unique {v : Value} {a : ℕ} {p q : List ℕ} (visited : visits heap left v = some as) (once : as.Nodup)
    (hp : follow heap v p = some (.ref a)) (hq : follow heap v q = some (.ref a)) : p = q := by
  induction left generalizing v as p q with
  | zero =>
    cases v with
    | prim pr => cases p <;> cases hp
    | ref b => cases visited
  | succ left ih =>
    cases v with
    | prim pr => cases p <;> cases hp
    | ref b =>
      rw [visits] at visited
      obtain ⟨parts, inner, rfl⟩ := Option.map_eq_some_iff.mp visited
      have apart := List.nodup_cons.mp once
      have back : ∀ {i path}, follow heap (.ref b) (i :: path) ≠ some (.ref b) := by
        intro i path h
        obtain ⟨v, part, _, place, own, rest⟩ := follow_cons inner h
        exact apart.1 (List.mem_flatten.mpr ⟨part, List.mem_of_getElem? place, follow_visited own rest⟩)
      cases p with
      | nil =>
        cases hp
        cases q with
        | nil => rfl
        | cons j q => exact absurd hq back
      | cons i p =>
        cases q with
        | nil =>
          cases hq
          exact absurd hp back
        | cons j q =>
          obtain ⟨v, part, at_, place, own, rest⟩ := follow_cons inner hp
          obtain ⟨w, part', at', place', own', rest'⟩ := follow_cons inner hq
          have disjoint := List.nodup_flatten.mp apart.2
          by_cases same : i = j
          · subst same
            rw [at_] at at'
            cases at'
            rw [ih own (disjoint.1 part (List.mem_of_getElem? place)) rest rest']
          · -- two positions have no object in common
            have left_ := follow_visited own rest
            have right_ := follow_visited own' rest'
            obtain ⟨hi, rfl⟩ := List.getElem?_eq_some_iff.mp place
            obtain ⟨hj, rfl⟩ := List.getElem?_eq_some_iff.mp place'
            have pairs := List.pairwise_iff_getElem.mp disjoint.2
            rcases Nat.lt_or_gt_of_ne same with less | more
            · exact absurd right_ (pairs i j hi hj less left_)
            · exact absurd left_ (pairs j i hj hi more right_)

end Walk

/-- What is let through is exactly a tree of plain objects, bounded in depth and in number, and each of its objects
stands at one place. -/
theorem plainTree_iff (heap : Heap) (root : Value) :
    (assertPlainTree heap root = .ok () ↔ ∃ as, visits heap (maxDepth + 1) root = some as ∧ as.Nodup ∧
      as.length ≤ maxNodes ∧ ∀ a ∈ as, Plain (heap a)) ∧
      (assertPlainTree heap root = .ok () → ∀ a p q, follow heap root p = some (.ref a) →
        follow heap root q = some (.ref a) → p = q) := by
  have accepted : assertPlainTree heap root = .ok () ↔ ∃ as, visits heap (maxDepth + 1) root = some as ∧ as.Nodup ∧
      as.length ≤ maxNodes ∧ ∀ a ∈ as, Plain (heap a) := by
    unfold assertPlainTree
    constructor
    · intro h
      cases hwalk : walk heap (maxDepth + 1) root ⟨[], 0⟩ with
      | error e =>
        rw [hwalk] at h
        cases h
      | ok st =>
        obtain ⟨as, visited, accepts⟩ := (walk_iff _ root _ st (Nat.zero_le _)).mp hwalk
        have room := accepts.room
        rw [Nat.zero_add] at room
        exact ⟨as, visited, accepts.once, room, accepts.plain⟩
    · rintro ⟨as, visited, once, room, plain⟩
      rw [(walk_iff (maxDepth + 1) root ⟨[], 0⟩ ⟨as.reverse ++ [], 0 + as.length⟩ (Nat.zero_le _)).mpr
        ⟨as, visited, plain, once, fun _ _ => List.not_mem_nil, by rwa [Nat.zero_add], rfl⟩]
      rfl
  refine ⟨accepted, fun h a p q hp hq => ?_⟩
  obtain ⟨as, visited, once, _⟩ := accepted.mp h
  exact follow_unique visited once hp hq

end DataFabric.ManifestInputs
