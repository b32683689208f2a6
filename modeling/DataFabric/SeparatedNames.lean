import Mathlib.Data.List.Infix
import Mathlib.Data.Set.Basic

set_option autoImplicit false

/-!
# Namespaces cut by a separator

A base name owns itself and every word that continues it after one separator.
Two bases share a word only when one of them continues the other, so a set of
bases none of which continues another has pairwise disjoint namespaces.
-/
namespace DataFabric.SeparatedNames

variable {α β : Type*} {sep : α}

/-- `long` is `short`, one separator, and anything after it. -/
def Continues (sep : α) (short long : List α) : Prop := short ++ [sep] <+: long

/-- The namespace of `base`: the base itself and its continuations. -/
def Owns (sep : α) (base name : List α) : Prop := name = base ∨ Continues sep base name

def Separated (sep : α) (bases : Set (List α)) : Prop :=
  ∀ a ∈ bases, ∀ b ∈ bases, ¬ Continues sep a b

/-- Two pairs that a separator glues to one word: they are equal, or one cut lies further on. -/
def Glued (sep : α) (a b c d : List α) : Prop :=
  (a = c ∧ b = d) ∨ (∃ m, c = a ++ sep :: m ∧ b = m ++ sep :: d) ∨ ∃ m, a = c ++ sep :: m ∧ d = m ++ sep :: b

theorem glued_iff {a b c d : List α} : Glued sep a b c d ↔ a ++ sep :: b = c ++ sep :: d := by
  constructor
  · rintro (⟨rfl, rfl⟩ | ⟨m, rfl, rfl⟩ | ⟨m, rfl, rfl⟩)
    · rfl
    · simp
    · simp
  · intro whole
    rcases List.append_eq_append_iff.mp whole with ⟨more, rfl, rest⟩ | ⟨more, rfl, rest⟩
    · cases more with
      | nil => exact .inl ⟨by simp, (List.cons.inj rest).2⟩
      | cons e m =>
        obtain ⟨rfl, tail⟩ := List.cons.inj rest
        exact .inr (.inl ⟨m, rfl, tail⟩)
    · cases more with
      | nil => exact .inl ⟨by simp, (List.cons.inj rest).2.symm⟩
      | cons e m =>
        obtain ⟨rfl, tail⟩ := List.cons.inj rest
        exact .inr (.inr ⟨m, rfl, tail⟩)

theorem glue_inj_left {a b c d : List α} (ha : sep ∉ a) (hc : sep ∉ c)
    (h : a ++ sep :: b = c ++ sep :: d) : a = c ∧ b = d := by
  rcases glued_iff.mpr h with same | ⟨m, rfl, _⟩ | ⟨m, rfl, _⟩
  · exact same
  · exact absurd (by simp) hc
  · exact absurd (by simp) ha

theorem glue_inj_right {a b c d : List α} (hb : sep ∉ b) (hd : sep ∉ d)
    (h : a ++ sep :: b = c ++ sep :: d) : a = c ∧ b = d := by
  rcases glued_iff.mpr h with same | ⟨m, _, rfl⟩ | ⟨m, _, rfl⟩
  · exact same
  · exact absurd (by simp) hb
  · exact absurd (by simp) hd

section Joined
variable [DecidableEq α]

theorem splitOn_joined {parts : List (List α)} (hne : parts ≠ []) :
    ([sep].intercalate parts).splitOn sep = parts.flatMap (·.splitOn sep) := by
  induction parts with
  | nil => exact absurd rfl hne
  | cons p rest ih =>
    cases rest with
    | nil => simp
    | cons q rest =>
      have tail := ih (List.cons_ne_nil q rest)
      rw [List.intercalate_cons_cons, List.append_assoc, List.singleton_append,
        List.splitOn_append_cons_self, tail]
      rfl

theorem joined_eq_iff {a b : List (List α)} (ha : a ≠ []) (hb : b ≠ []) :
    [sep].intercalate a = [sep].intercalate b ↔ a.flatMap (·.splitOn sep) = b.flatMap (·.splitOn sep) := by
  constructor
  · intro same
    rw [← splitOn_joined ha, same, splitOn_joined hb]
  · intro words
    calc [sep].intercalate a
      _ = [sep].intercalate (([sep].intercalate a).splitOn sep) := (List.intercalate_splitOn sep).symm
      _ = [sep].intercalate (([sep].intercalate b).splitOn sep) := by
        rw [splitOn_joined ha, words, splitOn_joined hb]
      _ = [sep].intercalate b := List.intercalate_splitOn sep

end Joined

theorem continues_length {short long : List α} (h : Continues sep short long) :
    short.length < long.length := by
  have hle := List.IsPrefix.length_le h
  rw [List.length_append, List.length_singleton] at hle
  omega

theorem continues_irrefl (a : List α) : ¬ Continues sep a a :=
  fun h => (continues_length h).false

theorem continues_iff_take {short long : List α} :
    Continues sep short long ↔ long.take (short.length + 1) = short ++ [sep] := by
  unfold Continues
  rw [List.prefix_iff_eq_take, List.length_append, List.length_singleton, eq_comm]

theorem continues_append_left (p : List α) {short long : List α} :
    Continues sep (p ++ short) (p ++ long) ↔ Continues sep short long := by
  unfold Continues
  rw [List.append_assoc, List.prefix_append_right_inj]

theorem continues_map (f : α → β) {short long : List α} (h : Continues sep short long) :
    Continues (f sep) (short.map f) (long.map f) := by
  have hm := List.IsPrefix.map f h
  rwa [List.map_append, List.map_singleton] at hm

theorem owns_common {a b name : List α} (ha : Owns sep a name) (hb : Owns sep b name) :
    a = b ∨ Continues sep a b ∨ Continues sep b a := by
  rcases ha with rfl | ha <;> rcases hb with hb | hb
  · exact .inl hb
  · exact .inr (.inr hb)
  · exact .inr (.inl (hb ▸ ha))
  · rcases List.prefix_or_prefix_of_prefix ha hb with h | h
    · rcases List.prefix_concat_iff.mp h with heq | hab
      · exact .inl (List.append_cancel_right heq)
      · exact .inr (.inl hab)
    · rcases List.prefix_concat_iff.mp h with heq | hba
      · exact .inl (List.append_cancel_right heq).symm
      · exact .inr (.inr hba)

theorem separated_of_notMem {s : Set (List α)} (h : ∀ a ∈ s, sep ∉ a) : Separated sep s := by
  intro a _ b hb hcontinues
  have hmem : sep ∈ a ++ [sep] := List.mem_append_right a (List.mem_singleton_self sep)
  exact h b hb (hcontinues.subset hmem)

theorem separated_mono {s t : Set (List α)} (h : s ⊆ t) (ht : Separated sep t) : Separated sep s :=
  fun a ha b hb => ht a (h ha) b (h hb)

theorem separated_insert {s : Set (List α)} {a : List α} (hs : Separated sep s)
    (hout : ∀ b ∈ s, ¬ Continues sep a b) (hin : ∀ b ∈ s, ¬ Continues sep b a) :
    Separated sep (insert a s) := by
  intro x hx y hy
  rcases hx with rfl | hx <;> rcases hy with rfl | hy
  · exact continues_irrefl _
  · exact hout y hy
  · exact hin x hx
  · exact hs x hx y hy

theorem separated_disjoint {s : Set (List α)} (hs : Separated sep s) {a b name : List α}
    (ha : a ∈ s) (hb : b ∈ s) (hne : a ≠ b) (hna : Owns sep a name) : ¬ Owns sep b name := by
  intro hnb
  rcases owns_common hna hnb with h | h | h
  · exact hne h
  · exact hs a ha b hb h
  · exact hs b hb a ha h

end DataFabric.SeparatedNames
