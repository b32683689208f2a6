import Mathlib.Data.List.Basic

set_option autoImplicit false

/-!
# Texts with slots for values

A text is laid out in pieces, each a chunk or a slot with its value. It is written with a mark in
place of each value, numbered from left to right, and read back by looking for the marks.
-/
namespace DataFabric.SlottedTexts

variable {α : Type*}

inductive Piece (α : Type*)
  | chunk (s : String)
  | value (v : α)

/-- A mark begins with a character of its own, then come the digits of its number, if any. -/
structure Marks where
  first : Char
  digits : ℕ → List Char
  first_digit : first.isDigit = false
  digits_digit : ∀ n, ∀ c ∈ digits n, c.isDigit = true

namespace Marks

def mark (m : Marks) (n : ℕ) : List Char := m.first :: m.digits n

theorem digits_first (m : Marks) (n : ℕ) : ∀ c ∈ m.digits n, c ≠ m.first := by
  intro c hc heq
  have hdigit := m.digits_digit n c hc
  rw [heq, m.first_digit] at hdigit
  cases hdigit

end Marks

def values : List (Piece α) → List α
  | [] => []
  | .chunk _ :: ps => values ps
  | .value v :: ps => v :: values ps

def render (m : Marks) (n : ℕ) : List (Piece α) → List Char
  | [] => []
  | .chunk s :: ps => s.toList ++ render m n ps
  | .value _ :: ps => m.mark (n + 1) ++ render m (n + 1) ps

def shown (text : α → List Char) : List (Piece α) → List Char
  | [] => []
  | .chunk s :: ps => s.toList ++ shown text ps
  | .value v :: ps => text v ++ shown text ps

theorem values_append (ps qs : List (Piece α)) : values (ps ++ qs) = values ps ++ values qs := by
  induction ps with
  | nil => rfl
  | cons p ps ih =>
    cases p with
    | chunk s => exact ih
    | value v => exact congrArg (v :: ·) ih

theorem render_append (m : Marks) (n : ℕ) (ps qs : List (Piece α)) :
    render m n (ps ++ qs) = render m n ps ++ render m (n + (values ps).length) qs := by
  induction ps generalizing n with
  | nil => rfl
  | cons p ps ih =>
    cases p with
    | chunk s =>
      change s.toList ++ render m n (ps ++ qs) = s.toList ++ render m n ps ++ _
      rw [ih, List.append_assoc]
      rfl
    | value v =>
      change m.mark (n + 1) ++ render m (n + 1) (ps ++ qs) = m.mark (n + 1) ++ render m (n + 1) ps ++ _
      rw [ih, List.append_assoc, Nat.add_assoc, Nat.add_comm 1]
      rfl

def marksOf (first : Char) : List Char → List (List Char)
  | [] => []
  | c :: cs => if c = first then cs.takeWhile Char.isDigit :: marksOf first cs else marksOf first cs

/-- The text with its marks replaced, by their place and their digits; `inside` a mark digits are left out. -/
def fill (first : Char) (text : ℕ → List Char → List Char) : ℕ → Bool → List Char → List Char
  | _, _, [] => []
  | n, inside, c :: cs =>
    if c = first then text n (cs.takeWhile Char.isDigit) ++ fill first text (n + 1) true cs
    else if inside && c.isDigit then fill first text n true cs
    else c :: fill first text n false cs

def Leads : List (Piece α) → Prop
  | [] => True
  | .value _ :: _ => True
  | .chunk s :: ps => match s.toList with
    | [] => Leads ps
    | c :: _ => c.isDigit = false

/-- No chunk has the first character of a mark, and no digit follows a value. -/
def Readable (m : Marks) : List (Piece α) → Prop
  | [] => True
  | .chunk s :: ps => m.first ∉ s.toList ∧ Readable m ps
  | .value _ :: ps => Leads ps ∧ Readable m ps

theorem leads_append {ps qs : List (Piece α)} (hps : Leads ps) (hqs : Leads qs) : Leads (ps ++ qs) := by
  induction ps with
  | nil => exact hqs
  | cons p ps ih =>
    cases p with
    | value v => trivial
    | chunk s =>
      rw [List.cons_append]
      unfold Leads at hps ⊢
      cases hs : s.toList with
      | nil =>
        rw [hs] at hps
        exact ih hps
      | cons c cs =>
        rw [hs] at hps
        exact hps

theorem readable_append {m : Marks} {ps qs : List (Piece α)} (hps : Readable m ps) (hqs : Readable m qs)
    (hleads : Leads qs) : Readable m (ps ++ qs) := by
  induction ps with
  | nil => exact hqs
  | cons p ps ih =>
    cases p with
    | chunk s => exact ⟨hps.1, ih hps.2⟩
    | value v => exact ⟨leads_append hps.1 hleads, ih hps.2⟩

theorem leads_chunk {s : String} (ps : List (Piece α)) (hs : s.toList.head?.map Char.isDigit = some false) :
    Leads (.chunk s :: ps) := by
  unfold Leads
  cases hchars : s.toList with
  | nil =>
    rw [hchars] at hs
    cases hs
  | cons c cs =>
    rw [hchars] at hs
    exact Option.some.inj hs

section

variable {m : Marks}

theorem takeWhile_render {ps : List (Piece α)} (h : Leads ps) (n : ℕ) :
    (render m n ps).takeWhile Char.isDigit = [] := by
  induction ps with
  | nil => rfl
  | cons p ps ih =>
    cases p with
    | value v => exact List.takeWhile_cons_of_neg (by rw [m.first_digit]; exact Bool.false_ne_true)
    | chunk s =>
      unfold Leads at h
      unfold render
      cases hs : s.toList with
      | nil =>
        rw [hs] at h
        exact ih h
      | cons c cs =>
        rw [hs] at h
        have hdigit : c.isDigit = false := h
        rw [List.cons_append, List.takeWhile_cons_of_neg (by rw [hdigit]; exact Bool.false_ne_true)]

theorem takeWhile_mark {ps : List (Piece α)} (h : Leads ps) (k n : ℕ) :
    (m.digits k ++ render m n ps).takeWhile Char.isDigit = m.digits k := by
  rw [List.takeWhile_append_of_pos (m.digits_digit k), takeWhile_render h, List.append_nil]

theorem marksOf_clean {cs : List Char} (h : m.first ∉ cs) (rest : List Char) :
    marksOf m.first (cs ++ rest) = marksOf m.first rest := by
  induction cs with
  | nil => rfl
  | cons c cs ih =>
    rw [List.mem_cons, not_or] at h
    rw [List.cons_append, marksOf, if_neg (Ne.symm h.1)]
    exact ih h.2

theorem marksOf_render {ps : List (Piece α)} (h : Readable m ps) (n : ℕ) :
    marksOf m.first (render m n ps) = (List.range (values ps).length).map fun k => m.digits (n + k + 1) := by
  induction ps generalizing n with
  | nil => rfl
  | cons p ps ih =>
    cases p with
    | chunk s =>
      change marksOf m.first (s.toList ++ render m n ps) = _
      rw [marksOf_clean h.1, ih h.2]
      rfl
    | value v =>
      change marksOf m.first (m.first :: (m.digits (n + 1) ++ render m (n + 1) ps)) = _
      have hclean : m.first ∉ m.digits (n + 1) := fun hmem => m.digits_first _ _ hmem rfl
      rw [marksOf, if_pos rfl, takeWhile_mark h.1, marksOf_clean hclean, ih h.2]
      change _ = (List.range ((values ps).length + 1)).map _
      rw [List.range_succ_eq_map, List.map_cons, List.map_map]
      refine congrArg₂ List.cons rfl (List.map_congr_left fun k _ => ?_)
      rw [Function.comp_apply, Nat.succ_eq_add_one]
      congr 1
      omega

variable {text : ℕ → List Char → List Char}

theorem fill_clean {cs : List Char} (h : m.first ∉ cs) (n : ℕ) (rest : List Char) :
    fill m.first text n false (cs ++ rest) = cs ++ fill m.first text n false rest := by
  induction cs with
  | nil => rfl
  | cons c cs ih =>
    rw [List.mem_cons, not_or] at h
    rw [List.cons_append, fill, if_neg (Ne.symm h.1), Bool.false_and, if_neg Bool.false_ne_true, ih h.2]
    rfl

theorem fill_digits {cs : List Char} (hclean : m.first ∉ cs) (hdigits : ∀ c ∈ cs, c.isDigit = true) (n : ℕ)
    (rest : List Char) : fill m.first text n true (cs ++ rest) = fill m.first text n true rest := by
  induction cs with
  | nil => rfl
  | cons c cs ih =>
    rw [List.mem_cons, not_or] at hclean
    rw [List.cons_append, fill, if_neg (Ne.symm hclean.1), hdigits c List.mem_cons_self, Bool.true_and, if_pos rfl]
    exact ih hclean.2 fun d hd => hdigits d (List.mem_cons_of_mem _ hd)

theorem fill_leads {cs : List Char} (h : cs.takeWhile Char.isDigit = []) (n : ℕ) :
    fill m.first text n true cs = fill m.first text n false cs := by
  cases cs with
  | nil => rfl
  | cons c cs =>
    have hdigit : c.isDigit = false := by
      cases hc : c.isDigit with
      | false => rfl
      | true =>
        rw [List.takeWhile_cons_of_pos hc] at h
        cases h
    rw [fill, fill, hdigit, Bool.and_false, Bool.and_false]

theorem fill_render {ps : List (Piece α)} (h : Readable m ps) {n : ℕ} {display : α → List Char}
    (htext : ∀ k v, (values ps)[k]? = some v → text (n + k) (m.digits (n + k + 1)) = display v) :
    fill m.first text n false (render m n ps) = shown display ps := by
  induction ps generalizing n with
  | nil => rfl
  | cons p ps ih =>
    cases p with
    | chunk s =>
      change fill m.first text n false (s.toList ++ render m n ps) = s.toList ++ shown display ps
      rw [fill_clean h.1, ih h.2 htext]
    | value v =>
      have hrest : ∀ k w, (values ps)[k]? = some w → text (n + 1 + k) (m.digits (n + 1 + k + 1)) = display w := by
        intro k w hw
        have hnext := htext (k + 1) w hw
        rw [show n + 1 + k = n + (k + 1) by omega]
        exact hnext
      have hclean : m.first ∉ m.digits (n + 1) := fun hmem => m.digits_first _ _ hmem rfl
      change fill m.first text n false (m.first :: (m.digits (n + 1) ++ render m (n + 1) ps)) =
        display v ++ shown display ps
      rw [fill, if_pos rfl, takeWhile_mark h.1, fill_digits hclean (m.digits_digit _),
        fill_leads (takeWhile_render h.1 _), ih h.2 hrest]
      have hfirst := htext 0 v rfl
      rw [Nat.add_zero] at hfirst
      rw [hfirst]

end

def separated (sep : String) : List (List (Piece α)) → List (Piece α)
  | [] => []
  | [p] => p
  | p :: q :: rest => p ++ .chunk sep :: separated sep (q :: rest)

def renderEach (m : Marks) (n : ℕ) : List (List (Piece α)) → List (List Char)
  | [] => []
  | p :: ps => render m n p :: renderEach m (n + (values p).length) ps

theorem values_separated (sep : String) (pss : List (List (Piece α))) :
    values (separated sep pss) = values pss.flatten := by
  induction pss with
  | nil => rfl
  | cons p pss ih =>
    cases pss with
    | nil =>
      rw [List.flatten_cons, List.flatten_nil, List.append_nil]
      rfl
    | cons q rest =>
      rw [separated, values_append, List.flatten_cons, values_append, ← ih]
      rfl

theorem readable_separated {m : Marks} {sep : String} (hsep : sep.toList.head?.map Char.isDigit = some false)
    (hclean : m.first ∉ sep.toList) {pss : List (List (Piece α))}
    (h : ∀ p ∈ pss, Readable m p) : Readable m (separated sep pss) := by
  induction pss with
  | nil => trivial
  | cons p pss ih =>
    have hp := h p List.mem_cons_self
    have hrest := ih fun q hq => h q (List.mem_cons_of_mem _ hq)
    cases pss with
    | nil => exact hp
    | cons q rest => exact readable_append hp ⟨hclean, hrest⟩ (leads_chunk _ hsep)

theorem leads_separated (sep : String) {pss : List (List (Piece α))} (hsep : sep.toList.head?.map Char.isDigit = some false)
    (h : ∀ p ∈ pss, Leads p) : Leads (separated sep pss) := by
  cases pss with
  | nil => trivial
  | cons p pss =>
    have hp := h p List.mem_cons_self
    cases pss with
    | nil => exact hp
    | cons q rest => exact leads_append hp (leads_chunk _ hsep)

theorem readable_flatten {m : Marks} {pss : List (List (Piece α))} (h : ∀ p ∈ pss, Readable m p ∧ Leads p) :
    Readable m pss.flatten ∧ Leads pss.flatten := by
  induction pss with
  | nil => exact ⟨trivial, trivial⟩
  | cons p pss ih =>
    have hp := h p List.mem_cons_self
    have hrest := ih fun q hq => h q (List.mem_cons_of_mem _ hq)
    exact ⟨readable_append hp.1 hrest.1 hrest.2, leads_append hp.2 hrest.2⟩

end DataFabric.SlottedTexts
