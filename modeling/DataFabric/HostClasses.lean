import Mathlib.Data.Nat.Digits.Lemmas
import DataFabric.HostSpellings

set_option autoImplicit false

/-!
# The class of a host under all its spellings

An IPv6 literal counts for its eight groups, and one that maps an IPv4 address for that address.
-/
namespace DataFabric.HostClasses
open CharText NetGuard HostSpellings

def DottedQuad (p : List Char) (o : Octets) : Prop :=
  ∃ w x y z, p = ['.'].intercalate [w, x, y, z] ∧ (∀ q ∈ [w, x, y, z], isOctet q = true) ∧
    o = (positional 10 w, positional 10 x, positional 10 y, positional 10 z)

/-- The parts between single colons and the groups they stand for. -/
inductive Groups (dotted : Bool) : List (List Char) → List ℕ → Prop
  | nil : Groups dotted [] []
  | quad {p : List Char} {a b c d : ℕ} : dotted = true → DottedQuad p (a, b, c, d) →
      Groups dotted [p] [a * 256 + b, c * 256 + d]
  | cons {p : List Char} {ps : List (List Char)} {vs : List ℕ} : isSegment p = true → Groups dotted ps vs →
      Groups dotted (p :: ps) (positional 16 p :: vs)

/-- An IPv6 literal and its groups; two colons stand for one or more groups of zeros. -/
inductive Denotes : List Char → List ℕ → Prop
  | full {ps : List (List Char)} {vs : List ℕ} : Groups true ps vs → vs.length = 8 → Denotes ([':'].intercalate ps) vs
  | gap {ps qs : List (List Char)} {vs ws : List ℕ} : Groups false ps vs → Groups true qs ws →
      vs.length + ws.length ≤ 7 →
      Denotes ([':'].intercalate ps ++ ':' :: ':' :: [':'].intercalate qs)
        (vs ++ List.replicate (8 - vs.length - ws.length) 0 ++ ws)

/-- The host is the text, in any letter case and with or without a final dot. -/
def Writes (host : String) (text : List Char) : Prop :=
  lower (trim host) = text ∨ lower (trim host) = text ++ ['.']

def HostV4 (host : String) (address : ℕ) : Prop := ∃ text, SpellsAddress text address ∧ Writes host text

def HostV6 (host : String) (groups : List ℕ) : Prop :=
  ∃ text, Denotes text groups ∧ (Writes host text ∨ Writes host ('[' :: (text ++ [']'])))

def mapped (address : ℕ) : List ℕ := [0, 0, 0, 0, 0, 0xffff, address / 2 ^ 16, address % 2 ^ 16]

def isPlain (c : Char) : Bool := isPartChar c || c = '.' || c = ':' || c = '[' || c = ']'

theorem partChar_word {c : Char} (part : isPartChar c = true) : isWord c = true := by
  simp only [isPartChar, isHexDigit, Bool.or_eq_true, Bool.and_eq_true, decide_eq_true_eq] at part
  rcases part with (digit | letter) | rfl
  · simp [isWord, Char.isAlphanum, digit]
  · have small : c.isLower = true := by
      unfold Char.isLower
      simp only [Bool.and_eq_true, decide_eq_true_eq]
      exact ⟨letter.1, UInt32.le_trans (Char.le_def.mp letter.2) (by decide)⟩
    unfold isWord Char.isAlphanum Char.isAlpha
    simp [small]
  · decide

theorem plain_ascii {c : Char} (plain : isPlain c = true) : c.toNat < 128 := by
  simp only [isPlain, Bool.or_eq_true, decide_eq_true_eq] at plain
  rcases plain with (((part | rfl) | rfl) | rfl) | rfl
  · exact isWord_ascii (partChar_word part)
  · decide
  · decide
  · decide
  · decide

theorem plain_kept {c : Char} (plain : isPlain c = true) :
    isSpace c = false ∧ lowerChar c = c ∧ c ≠ '%' ∧ c ≠ 'm' ∧ c ≠ 'k' ∧ c ≠ 'l' ∧ c ≠ 'i' := by
  apply ascii_forall (p := fun c => isPlain c = true →
    isSpace c = false ∧ lowerChar c = c ∧ c ≠ '%' ∧ c ≠ 'm' ∧ c ≠ 'k' ∧ c ≠ 'l' ∧ c ≠ 'i') _ (plain_ascii plain) plain
  decide

variable {host : String} {h p q text : List Char} {ps : List (List Char)} {vs : List ℕ}

theorem lower_trim_plain (plain : ∀ c ∈ h, isPlain c = true) : lower (trim (String.ofList h)) = h := by
  have stays : ∀ cs : List Char, (∀ c ∈ cs, isPlain c = true) → cs.dropWhile isSpace = cs := by
    intro cs all
    cases cs with
    | nil => rfl
    | cons c cs => rw [List.dropWhile_cons, if_neg (by simp [(plain_kept (all c List.mem_cons_self)).1])]
  have reversed : ∀ c ∈ h.reverse, isPlain c = true := by
    intro c inside
    exact plain c (List.mem_reverse.mp inside)
  unfold lower trim
  rw [String.toList_ofList, String.toList_ofList, stays h plain, stays _ reversed, List.reverse_reverse]
  exact (List.map_congr_left fun c inside => (plain_kept (plain c inside)).2.1).trans (List.map_id h)

theorem plain_unnamed (plain : ∀ c ∈ h, isPlain c = true) :
    h ∉ metadataHosts.map String.toList ∧ h ∉ localNames.map String.toList ∧
      ".localhost".toList.isSuffixOf h = false := by
  have other : ∀ c ∈ h, c ≠ 'm' ∧ c ≠ 'k' ∧ c ≠ 'l' ∧ c ≠ 'i' := by
    intro c inside
    exact (plain_kept (plain c inside)).2.2.2
  have named : ∀ name ∈ metadataHosts.map String.toList ++ localNames.map String.toList,
      'm' ∈ name ∨ 'k' ∈ name ∨ 'l' ∈ name ∨ 'i' ∈ name := by decide
  have apart : h ∉ metadataHosts.map String.toList ++ localNames.map String.toList := by
    intro inside
    rcases named h inside with m | k | l | i
    · exact (other _ m).1 rfl
    · exact (other _ k).2.1 rfl
    · exact (other _ l).2.2.1 rfl
    · exact (other _ i).2.2.2 rfl
  rw [List.mem_append, not_or] at apart
  refine ⟨apart.1, apart.2, ?_⟩
  rw [← Bool.not_eq_true, List.isSuffixOf_iff_suffix]
  intro suffix
  exact (other 'l' (suffix.subset (by decide))).2.2.1 rfl

theorem segment_shape (segment : isSegment p = true) : p ≠ [] ∧ p.length ≤ 4 ∧ ∀ c ∈ p, isPartChar c = true := by
  simp only [isSegment, Bool.and_eq_true, decide_eq_true_eq, List.all_eq_true] at segment
  refine ⟨segment.1.1, segment.1.2, fun c inside => ?_⟩
  rw [isPartChar, segment.2 c inside]
  rfl

theorem octet_digits (octet : isOctet p = true) : p ≠ [] ∧ p.all Char.isDigit = true ∧ positional 10 p ≤ 255 := by
  simp only [isOctet, Bool.and_eq_true, decide_eq_true_eq, decimalRe_iff] at octet
  obtain ⟨⟨d, ds, rfl, digits, _⟩, range⟩ := octet
  exact ⟨List.cons_ne_nil _ _, digits, range⟩

theorem not_partChar {c : Char} (odd : isPartChar c = false) (all : ∀ c ∈ p, isPartChar c = true) : c ∉ p := by
  intro inside
  rw [all c inside] at odd
  cases odd

theorem intercalate_last {sep : Char} (tidy : ∀ p ∈ ps, p ≠ [] ∧ ∀ c ∈ p.getLast?, c ≠ '.') :
    ∀ c ∈ ([sep].intercalate ps).getLast?, c ≠ '.' := by
  induction ps with
  | nil => simp
  | cons p ps ih =>
    rw [List.forall_mem_cons] at tidy
    cases ps with
    | nil =>
      rw [List.intercalate_singleton]
      exact tidy.1.2
    | cons q qs =>
      have later := ih tidy.2
      have filled : [sep].intercalate (q :: qs) ≠ [] := by
        have own := (tidy.2 q List.mem_cons_self).1
        cases qs with
        | nil => rwa [List.intercalate_singleton]
        | cons r rs => simp [List.intercalate_cons_cons]
      rw [List.intercalate_cons_cons, List.append_assoc, List.getLast?_append_of_ne_nil _ (by simp),
        List.getLast?_append_of_ne_nil _ filled]
      exact later

theorem partChars_last (all : ∀ c ∈ p, isPartChar c = true) : ∀ c ∈ p.getLast?, c ≠ '.' := by
  intro c last same
  have part := all c (List.mem_of_getLast? last)
  rw [same] at part
  exact absurd part (by decide)

structure QuadShape (p : List Char) (o : Octets) : Prop where
  parts : (splitChars '.' p).length = 4
  octets : ∀ q ∈ splitChars '.' p, isOctet q = true
  values : (splitChars '.' p).map (positional 10) = [o.1, o.2.1, o.2.2.1, o.2.2.2]
  chars : ∀ c ∈ p, isPartChar c = true ∨ c = '.'
  last : ∀ c ∈ p.getLast?, c ≠ '.'
  dot : '.' ∈ p

theorem quad_shape {o : Octets} (quad : DottedQuad p o) : QuadShape p o := by
  obtain ⟨w, x, y, z, rfl, octets, rfl⟩ := quad
  have part : ∀ q ∈ [w, x, y, z], q ≠ [] ∧ ∀ c ∈ q, isPartChar c = true := by
    intro q inside
    have own := octet_digits (octets q inside)
    exact ⟨own.1, fun c digit => digit_hex (List.all_eq_true.mp own.2.1 c digit)⟩
  have whole : splitChars '.' (['.'].intercalate [w, x, y, z]) = [w, x, y, z] := by
    apply splitChars_intercalate (List.cons_ne_nil _ _)
    intro q inside
    exact not_partChar (by decide) (part q inside).2
  refine ⟨by rw [whole]; rfl, by rwa [whole], by rw [whole]; rfl, ?_, ?_, ?_⟩
  · intro c inside
    rcases mem_intercalate inside with rfl | ⟨q, inParts, own⟩
    · exact .inr rfl
    · exact .inl ((part q inParts).2 c own)
  · apply intercalate_last
    intro q inside
    exact ⟨(part q inside).1, partChars_last (part q inside).2⟩
  · simp [List.intercalate_cons_cons]

theorem quad_not_segment {o : Octets} (quad : QuadShape p o) : isSegment p = false := by
  rw [← Bool.not_eq_true]
  intro segment
  exact not_partChar (by decide) (segment_shape segment).2.2 quad.dot

theorem quad_no_colon {o : Octets} (quad : QuadShape p o) : ':' ∉ p := by
  intro inside
  rcases quad.chars _ inside with part | dot
  · exact absurd part (by decide)
  · exact absurd dot (by decide)

theorem quad_dottedRe {o : Octets} (quad : QuadShape p o) : dottedRe p = true := by
  rw [dottedRe, quad.parts, Bool.and_eq_true, List.all_eq_true]
  refine ⟨rfl, fun q inside => ?_⟩
  have own := octet_digits (quad.octets q inside)
  simp [own.1, own.2.1]

theorem groups_parts {dotted : Bool} (groups : Groups dotted ps vs) :
    ∀ p ∈ ps, p ≠ [] ∧ ':' ∉ p ∧ (∀ c ∈ p, isPartChar c = true ∨ c = '.') ∧ ∀ c ∈ p.getLast?, c ≠ '.' := by
  induction groups with
  | nil => simp
  | quad _ dottedQuad =>
    have quad := quad_shape dottedQuad
    rw [List.forall_mem_singleton]
    exact ⟨List.ne_nil_of_mem quad.dot, quad_no_colon quad, quad.chars, quad.last⟩
  | cons segment _ ih =>
    have shape := segment_shape segment
    rw [List.forall_mem_cons]
    exact ⟨⟨shape.1, not_partChar (by decide) shape.2.2, fun c inside => .inl (shape.2.2 c inside),
      partChars_last shape.2.2⟩, ih⟩

theorem groups_segments (groups : Groups false ps vs) : ∀ p ∈ ps, isSegment p = true := by
  induction groups with
  | nil => simp
  | quad impossible _ => cases impossible
  | cons segment _ ih =>
    rw [List.forall_mem_cons]
    exact ⟨segment, ih⟩

theorem groupCount_groups {dotted : Bool} (groups : Groups dotted ps vs) (filled : ps ≠ []) :
    groupCount dotted ps = some vs.length := by
  induction groups with
  | nil => exact absurd rfl filled
  | @quad p a b c d allowed dottedQuad =>
    have quad := quad_shape dottedQuad
    have accepted : isDottedQuad p = true := by
      rw [isDottedQuad, quad.parts, Bool.and_eq_true, List.all_eq_true]
      exact ⟨rfl, quad.octets⟩
    simp only [groupCount, quad_not_segment quad, allowed, accepted, Bool.false_eq_true, if_false, Bool.and_self, if_true]
    rfl
  | @cons p ps vs segment rest ih =>
    cases ps with
    | nil =>
      cases rest
      simp [groupCount, segment]
    | cons q qs =>
      simp only [groupCount, segment, if_true, ih (List.cons_ne_nil _ _)]
      rfl

theorem intercalate_nil_iff {sep : Char} (nonempty : ∀ p ∈ ps, p ≠ []) : [sep].intercalate ps = [] ↔ ps = [] := by
  cases ps with
  | nil => simp
  | cons p qs =>
    have own := nonempty p List.mem_cons_self
    cases qs with
    | nil => simpa using own
    | cons q rest => simp [List.intercalate_cons_cons]

theorem groups_intercalate_nil {dotted : Bool} (groups : Groups dotted ps vs) : [':'].intercalate ps = [] ↔ ps = [] :=
  intercalate_nil_iff fun p inside => (groups_parts groups p inside).1

theorem groups_split {dotted : Bool} (groups : Groups dotted ps vs) (filled : ps ≠ []) :
    splitChars ':' ([':'].intercalate ps) = ps :=
  splitChars_intercalate filled fun p inside => (groups_parts groups p inside).2.1

theorem sideParts_groups {dotted : Bool} (groups : Groups dotted ps vs) : sideParts ([':'].intercalate ps) = ps := by
  have empty := groups_intercalate_nil groups
  unfold sideParts
  by_cases none : ps = []
  · rw [if_pos (empty.mpr none), none]
  · rw [if_neg fun blank => none (empty.mp blank)]
    exact groups_split groups none

theorem sideCount_groups {dotted : Bool} (groups : Groups dotted ps vs) :
    sideCount dotted ([':'].intercalate ps) = some vs.length := by
  have empty := groups_intercalate_nil groups
  unfold sideCount
  by_cases none : ps = []
  · rw [if_pos (empty.mpr none)]
    subst none
    cases groups
    rfl
  · rw [if_neg fun blank => none (empty.mp blank), groups_split groups none]
    exact groupCount_groups groups none

def prepend (xs : List Char) : List (List Char) → List (List Char)
  | [] => [xs]
  | p :: ps => (xs ++ p) :: ps

theorem prepend_prepend (xs ys : List Char) (parts : List (List Char)) :
    prepend xs (prepend ys parts) = prepend (xs ++ ys) parts := by
  cases parts <;> simp [prepend]

theorem splitDouble_cons {c : Char} {cs : List Char} (single : c = ':' → cs.head? ≠ some ':') :
    splitDouble (c :: cs) = prepend [c] (splitDouble cs) := by
  have other : ∀ rest, c = ':' → cs = ':' :: rest → False := by
    intro rest same more
    exact single same (by rw [more]; rfl)
  rw [splitDouble.eq_2 c cs other]
  cases splitDouble cs <;> rfl

theorem splitDouble_ne_nil (cs : List Char) : splitDouble cs ≠ [] := by
  unfold splitDouble
  split
  · exact List.cons_ne_nil _ _
  · split <;> exact List.cons_ne_nil _ _
  · exact List.cons_ne_nil _ _

theorem splitDouble_plain {p rest : List Char} (apart : ':' ∉ p) :
    splitDouble (p ++ rest) = prepend p (splitDouble rest) := by
  induction p with
  | nil =>
    rw [List.nil_append]
    cases parts : splitDouble rest with
    | nil => exact absurd parts (splitDouble_ne_nil rest)
    | cons q qs => rfl
  | cons c cs ih =>
    rw [List.mem_cons, not_or] at apart
    rw [List.cons_append, splitDouble_cons fun same => absurd same.symm apart.1, ih apart.2, prepend_prepend]
    rfl

theorem splitDouble_groups {dotted : Bool} (groups : Groups dotted ps vs) (rest : List Char) :
    splitDouble ([':'].intercalate ps ++ rest) = prepend ([':'].intercalate ps) (splitDouble rest) := by
  have parts := groups_parts groups
  clear groups
  induction ps with
  | nil => exact splitDouble_plain (p := []) List.not_mem_nil
  | cons p ps ih =>
    rw [List.forall_mem_cons] at parts
    cases ps with
    | nil =>
      rw [List.intercalate_singleton]
      exact splitDouble_plain parts.1.2.1
    | cons q qs =>
      have next : ([':'].intercalate (q :: qs) ++ rest).head? ≠ some ':' := by
        have own := parts.2 q List.mem_cons_self
        cases q with
        | nil => exact absurd rfl own.1
        | cons c cs =>
          have other : c ≠ ':' := fun same => own.2.1 (same ▸ List.mem_cons_self)
          cases qs <;> simp [List.intercalate_cons_cons, other]
      rw [List.intercalate_cons_cons, List.append_assoc, List.append_assoc, splitDouble_plain parts.1.2.1,
        List.singleton_append, splitDouble_cons fun _ => next, ih parts.2, prepend_prepend, prepend_prepend]

theorem splitDouble_full {dotted : Bool} (groups : Groups dotted ps vs) :
    splitDouble ([':'].intercalate ps) = [[':'].intercalate ps] := by
  have split := splitDouble_groups groups []
  simpa [splitDouble, prepend] using split

theorem splitDouble_gap {dotted dotted' : Bool} {qs : List (List Char)} {ws : List ℕ} (head : Groups dotted ps vs)
    (tail : Groups dotted' qs ws) :
    splitDouble ([':'].intercalate ps ++ ':' :: ':' :: [':'].intercalate qs) =
      [[':'].intercalate ps, [':'].intercalate qs] := by
  rw [splitDouble_groups head, splitDouble, splitDouble_full tail]
  simp [prepend]

theorem isIPv6_denotes {groups : List ℕ} (denotes : Denotes text groups) : isIPv6 text = true := by
  cases denotes with
  | @full ps vs sides size =>
    have filled : ps ≠ [] := by
      rintro rfl
      cases sides
      cases size
    rw [isIPv6, splitDouble_full sides]
    simp [groups_split sides filled, groupCount_groups sides filled, size]
  | gap head tail size =>
    rw [isIPv6, splitDouble_gap head tail]
    simp [sideCount_groups head, sideCount_groups tail, size]

theorem hextets_segments (groups : Groups false ps vs) : ps.map hextet = vs := by
  induction groups with
  | nil => rfl
  | quad impossible _ => cases impossible
  | cons segment _ ih => rw [List.map_cons, ih, hextet, if_neg (segment_shape segment).1]

theorem groups_length (groups : Groups false ps vs) : ps.length = vs.length := by
  rw [← hextets_segments groups, List.length_map]

theorem hextets_full (groups : Groups false ps vs) : hextets ([':'].intercalate ps) = vs := by
  rw [hextets, splitDouble_full groups]
  dsimp only
  rw [sideParts_groups groups, hextets_segments groups]

theorem hextets_gap {qs : List (List Char)} {ws : List ℕ} (head : Groups false ps vs) (tail : Groups false qs ws) :
    hextets ([':'].intercalate ps ++ ':' :: ':' :: [':'].intercalate qs) =
      vs ++ List.replicate (8 - vs.length - ws.length) 0 ++ ws := by
  rw [hextets, splitDouble_gap head tail]
  dsimp only
  rw [sideParts_groups head, sideParts_groups tail, List.map_append, List.map_append, hextets_segments head,
    hextets_segments tail, List.map_replicate, groups_length head, groups_length tail]
  rfl

theorem hexChar_digit {d : ℕ} (small : d < 16) : digitOf (hexChar d) = d ∧ isHexDigit (hexChar d) = true := by
  have checked : ∀ d < 16, digitOf (hexChar d) = d ∧ isHexDigit (hexChar d) = true := by decide
  exact checked d small

theorem hexText_value (n : ℕ) : positional 16 (hexText n) = n := by
  unfold hexText
  by_cases zero : n = 0
  · rw [if_pos zero, zero]
    decide
  · have digits : ((Nat.digits 16 n).map hexChar).map digitOf = Nat.digits 16 n := by
      rw [List.map_map]
      refine (List.map_congr_left fun d inside => ?_).trans (List.map_id _)
      exact (hexChar_digit (Nat.digits_lt_base (by omega) inside)).1
    rw [if_neg zero, positional, ← List.map_reverse, List.reverse_reverse, digits, Nat.ofDigits_digits]

theorem hexText_segment {n : ℕ} (small : n < 16 ^ 4) : isSegment (hexText n) = true := by
  unfold hexText
  by_cases zero : n = 0
  · rw [if_pos zero]
    decide
  · have size : (Nat.digits 16 n).length ≤ 4 := (Nat.digits_length_le_iff (by omega) n).mpr small
    have filled : Nat.digits 16 n ≠ [] := Nat.digits_ne_nil_iff_ne_zero.mpr zero
    rw [if_neg zero]
    simp only [isSegment, Bool.and_eq_true, decide_eq_true_eq, List.all_eq_true, List.length_map, List.length_reverse]
    refine ⟨⟨by simpa using filled, size⟩, fun c inside => ?_⟩
    obtain ⟨d, digit, rfl⟩ := List.mem_map.mp inside
    exact (hexChar_digit (Nat.digits_lt_base (by omega) (List.mem_reverse.mp digit))).2

theorem quadGroups_eq {a b c d : ℕ} (quad : QuadShape p (a, b, c, d)) :
    quadGroups p = hexText (a * 256 + b) ++ ':' :: hexText (c * 256 + d) ∧
      (a ≤ 255 ∧ b ≤ 255 ∧ c ≤ 255 ∧ d ≤ 255) := by
  have range : ∀ n ∈ [a, b, c, d], n ≤ 255 := by
    have values := quad.values
    dsimp only at values
    intro n inside
    rw [← values] at inside
    obtain ⟨q, inParts, rfl⟩ := List.mem_map.mp inside
    exact (octet_digits (quad.octets q inParts)).2.2
  have joined : ∀ x y : ℕ, y ≤ 255 → x <<< 8 ||| y = x * 256 + y := by
    intro x y small
    rw [← Nat.shiftLeft_add_eq_or_of_lt (by omega), Nat.shiftLeft_eq]
  simp only [List.forall_mem_cons, List.not_mem_nil, false_implies, implies_true, and_true] at range
  refine ⟨?_, range⟩
  rw [quadGroups, quad.values]
  dsimp only
  rw [joined a b range.2.1, joined c d range.2.2.2]

theorem dottedRe_no_colon (colon : ':' ∈ text) : dottedRe text = false := by
  rw [← Bool.not_eq_true]
  intro dotted
  rw [dottedRe, Bool.and_eq_true, List.all_eq_true] at dotted
  rw [← intercalate_splitChars '.' text] at colon
  rcases mem_intercalate colon with impossible | ⟨part, inParts, own⟩
  · exact absurd impossible (by decide)
  · have digits := dotted.2 part inParts
    rw [Bool.and_eq_true, List.all_eq_true] at digits
    exact absurd (digits.2 ':' own) (by decide)

theorem expandTail_plain (apart : '.' ∉ text) : expandTail text = text := by
  have none : text.tails.find? dottedRe = none := by
    rw [List.find?_eq_none]
    intro t inside dotted
    have single : splitChars '.' t = [t] :=
      splitChars_plain fun dot => apart (((List.mem_tails t text).mp inside).subset dot)
    rw [dottedRe, single] at dotted
    cases dotted
  rw [expandTail, none]

theorem find_tail {o : Octets} {lead : List Char} (quad : QuadShape q o) :
    (lead ++ ':' :: q).tails.find? dottedRe = some q := by
  induction lead with
  | nil =>
    have self : q.tails.find? dottedRe = some q := by
      cases q with
      | nil => cases quad.dot
      | cons c cs => rw [List.tails, List.find?_cons_of_pos (quad_dottedRe quad)]
    rw [List.nil_append, List.tails, List.find?_cons_of_neg (by simp [dottedRe_no_colon]), self]
  | cons c lead ih =>
    rw [List.cons_append, List.tails, List.find?_cons_of_neg (by simp [dottedRe_no_colon]), ih]

theorem not_earlier {o : Octets} {t : List Char} (quad : QuadShape q o) (apart : '.' ∉ t) (colon : ':' ∈ t) :
    q.isPrefixOf (t ++ q) = false := by
  rw [← Bool.not_eq_true, List.isPrefixOf_iff_prefix]
  rintro ⟨rest, same⟩
  rcases List.append_eq_append_iff.mp same with ⟨more, rfl, _⟩ | ⟨more, rfl, _⟩
  · exact apart (List.mem_append_left _ quad.dot)
  · exact quad_no_colon quad (List.mem_append_left _ colon)

theorem replace_tail {o : Octets} {lead : List Char} (quad : QuadShape q o) (apart : '.' ∉ lead) (fresh : List Char) :
    replaceFirst q fresh (lead ++ ':' :: q) = lead ++ ':' :: fresh := by
  induction lead with
  | nil =>
    have first := not_earlier quad (t := [':']) (by decide) (by decide)
    have self : replaceFirst q fresh q = fresh := by
      cases q with
      | nil => cases quad.dot
      | cons c cs => rw [replaceFirst, if_pos (by simp), List.drop_length, List.append_nil]
    rw [List.singleton_append] at first
    rw [List.nil_append, replaceFirst, if_neg (by simp [first]), self, List.nil_append]
  | cons c lead ih =>
    rw [List.mem_cons, not_or] at apart
    have dots : '.' ∉ c :: lead ++ [':'] := by
      rw [List.cons_append, List.mem_cons, List.mem_append, not_or, not_or]
      exact ⟨apart.1, apart.2, by decide⟩
    have first := not_earlier quad dots (by simp)
    rw [List.append_assoc, List.singleton_append, List.cons_append] at first
    rw [List.cons_append, replaceFirst, if_neg (by simp [first]), ih apart.2, List.cons_append]

theorem expandTail_quad {o : Octets} {lead : List Char} (quad : QuadShape q o) (apart : '.' ∉ lead) :
    expandTail (lead ++ ':' :: q) = lead ++ ':' :: quadGroups q := by
  rw [expandTail, find_tail quad]
  exact replace_tail quad apart _

theorem groups_cases (groups : Groups true ps vs) :
    Groups false ps vs ∨ ∃ init us q a b c d, ps = init ++ [q] ∧ vs = us ++ [a * 256 + b, c * 256 + d] ∧
      Groups false init us ∧ QuadShape q (a, b, c, d) := by
  induction groups with
  | nil => exact .inl .nil
  | @quad p a b c d _ dottedQuad => exact .inr ⟨[], [], p, a, b, c, d, rfl, rfl, .nil, quad_shape dottedQuad⟩
  | cons segment _ ih =>
    rcases ih with plain | ⟨init, us, q, a, b, c, d, rfl, rfl, first, quad⟩
    · exact .inl (.cons segment plain)
    · exact .inr ⟨_ :: init, _ :: us, q, a, b, c, d, rfl, rfl, .cons segment first, quad⟩

theorem groups_append {qs : List (List Char)} {ws : List ℕ} (first : Groups false ps vs) (second : Groups false qs ws) :
    Groups false (ps ++ qs) (vs ++ ws) := by
  induction first with
  | nil => exact second
  | quad impossible _ => cases impossible
  | cons segment _ ih => exact .cons segment ih

theorem expanded_groups {init : List (List Char)} {us : List ℕ} {a b c d : ℕ} (first : Groups false init us)
    (quad : QuadShape q (a, b, c, d)) :
    Groups false (init ++ [hexText (a * 256 + b), hexText (c * 256 + d)]) (us ++ [a * 256 + b, c * 256 + d]) := by
  have range := (quadGroups_eq quad).2
  apply groups_append first
  have both : ∀ x y : ℕ, x ≤ 255 → y ≤ 255 → isSegment (hexText (x * 256 + y)) = true := by
    intro x y left right
    apply hexText_segment
    omega
  have last : Groups false [hexText (c * 256 + d)] [c * 256 + d] := by
    have own : Groups false [hexText (c * 256 + d)] [positional 16 (hexText (c * 256 + d))] :=
      .cons (both c d range.2.2.1 range.2.2.2) .nil
    rwa [hexText_value] at own
  have whole := Groups.cons (both a b range.1 range.2.1) last
  rwa [hexText_value] at whole

theorem intercalate_concat {sep : Char} (ps : List (List Char)) (q : List Char) (filled : ps ≠ []) :
    [sep].intercalate (ps ++ [q]) = [sep].intercalate ps ++ sep :: q := by
  induction ps with
  | nil => exact absurd rfl filled
  | cons p ps ih =>
    cases ps with
    | nil => simp [List.intercalate_cons_cons]
    | cons r rs =>
      rw [List.cons_append, List.cons_append, List.intercalate_cons_cons, ← List.cons_append, ih (List.cons_ne_nil _ _),
        List.intercalate_cons_cons, List.append_assoc, List.append_assoc, List.append_assoc]

theorem segments_no_dot (groups : Groups false ps vs) : '.' ∉ [':'].intercalate ps := by
  intro dot
  rcases mem_intercalate dot with impossible | ⟨p, inParts, own⟩
  · exact absurd impossible (by decide)
  · exact not_partChar (by decide) (segment_shape (groups_segments groups p inParts)).2.2 own

theorem expandTail_side {init : List (List Char)} {us : List ℕ} {a b c d : ℕ} {lead : List Char}
    (first : Groups false init us) (quad : QuadShape q (a, b, c, d)) (apart : '.' ∉ lead) :
    expandTail (lead ++ ':' :: [':'].intercalate (init ++ [q])) =
      lead ++ ':' :: [':'].intercalate (init ++ [hexText (a * 256 + b), hexText (c * 256 + d)]) := by
  have two : init ++ [hexText (a * 256 + b), hexText (c * 256 + d)] =
      (init ++ [hexText (a * 256 + b)]) ++ [hexText (c * 256 + d)] := by simp
  rw [two, intercalate_concat (init ++ [hexText (a * 256 + b)]) _ (by simp)]
  by_cases none : init = []
  · subst none
    rw [List.nil_append, List.nil_append, List.intercalate_singleton, List.intercalate_singleton,
      expandTail_quad quad apart, (quadGroups_eq quad).1]
  · have longer : '.' ∉ lead ++ ':' :: [':'].intercalate init := by
      rw [List.mem_append, List.mem_cons, not_or, not_or]
      exact ⟨apart, by decide, segments_no_dot first⟩
    have expanded := expandTail_quad quad longer
    rw [(quadGroups_eq quad).1] at expanded
    rw [intercalate_concat _ _ none, intercalate_concat _ _ none]
    simpa using expanded

theorem hextets_denotes {groups : List ℕ} (denotes : Denotes text groups) : hextets (expandTail text) = groups := by
  cases denotes with
  | full sides size =>
    rcases groups_cases sides with plain | ⟨init, us, q, a, b, c, d, rfl, rfl, first, quad⟩
    · rw [expandTail_plain (segments_no_dot plain), hextets_full plain]
    · cases first with
      | nil => cases size
      | quad impossible _ => cases impossible
      | @cons p ps vs segment rest =>
        have apart : '.' ∉ p := not_partChar (by decide) (segment_shape segment).2.2
        have whole := hextets_full (expanded_groups (.cons segment rest) quad)
        have front : ∀ qs : List (List Char), qs ≠ [] → [':'].intercalate (p :: qs) = p ++ ':' :: [':'].intercalate qs := by
          intro qs filled
          cases qs with
          | nil => exact absurd rfl filled
          | cons r rs => rw [List.intercalate_cons_cons, List.append_assoc, List.singleton_append]
        rw [List.cons_append, front _ (by simp)] at whole ⊢
        rw [expandTail_side rest quad apart, whole]
  | @gap ps qs vs ws head tail size =>
    have before := segments_no_dot head
    rcases groups_cases tail with plain | ⟨init, us, q, a, b, c, d, rfl, rfl, first, quad⟩
    · have apart : '.' ∉ [':'].intercalate ps ++ ':' :: ':' :: [':'].intercalate qs := by
        rw [List.mem_append, List.mem_cons, List.mem_cons, not_or, not_or, not_or]
        exact ⟨before, by decide, by decide, segments_no_dot plain⟩
      rw [expandTail_plain apart, hextets_gap head plain]
    · have apart : '.' ∉ [':'].intercalate ps ++ [':'] := by
        rw [List.mem_append, not_or]
        exact ⟨before, by decide⟩
      have expanded := expandTail_side first quad apart
      rw [List.append_assoc, List.append_assoc, List.singleton_append, List.singleton_append] at expanded
      rw [expanded, hextets_gap head (expanded_groups first quad)]

theorem denotes_length {groups : List ℕ} (denotes : Denotes text groups) : groups.length = 8 := by
  cases denotes with
  | full _ size => exact size
  | gap _ _ size =>
    rw [List.length_append, List.length_append, List.length_replicate]
    omega

theorem groups_plain {dotted : Bool} (groups : Groups dotted ps vs) : ∀ c ∈ [':'].intercalate ps, isPlain c = true := by
  intro c inside
  unfold isPlain
  rcases mem_intercalate inside with rfl | ⟨p, inParts, own⟩
  · decide
  · rcases (groups_parts groups p inParts).2.2.1 c own with part | rfl
    · rw [part]
      rfl
    · decide

structure Bare (text : List Char) : Prop where
  plain : ∀ c ∈ text, isPlain c = true
  first : text.head? ≠ some '['
  last : text.getLast? ≠ some '.'
  filled : text ≠ []

theorem bare_literal {groups : List ℕ} (denotes : Denotes text groups) : Bare text := by
  have tidy : ∀ {dotted : Bool} {ps : List (List Char)} {vs : List ℕ}, Groups dotted ps vs →
      ∀ c ∈ ([':'].intercalate ps).getLast?, c ≠ '.' := by
    intro dotted ps vs groups
    apply intercalate_last
    intro p inside
    have own := groups_parts groups p inside
    exact ⟨own.1, own.2.2.2⟩
  have front : ∀ {dotted : Bool} {ps : List (List Char)} {vs : List ℕ}, Groups dotted ps vs →
      ([':'].intercalate ps).head? ≠ some '[' := by
    intro dotted ps vs groups bracket
    rcases mem_intercalate (List.mem_of_head? bracket) with impossible | ⟨p, inParts, own⟩
    · exact absurd impossible (by decide)
    · rcases (groups_parts groups p inParts).2.2.1 _ own with part | dot
      · exact absurd part (by decide)
      · exact absurd dot (by decide)
  cases denotes with
  | full sides size =>
    refine ⟨groups_plain sides, front sides, fun dot => tidy sides _ dot rfl, fun empty => ?_⟩
    rw [groups_intercalate_nil sides] at empty
    subst empty
    cases sides
    cases size
  | @gap ps qs vs ws head tail size =>
    refine ⟨?_, ?_, ?_, by simp⟩
    · intro c inside
      rw [List.mem_append, List.mem_cons, List.mem_cons] at inside
      rcases inside with left | rfl | rfl | right
      · exact groups_plain head c left
      · decide
      · decide
      · exact groups_plain tail c right
    · intro bracket
      cases left : [':'].intercalate ps with
      | nil =>
        rw [left] at bracket
        cases bracket
      | cons c cs =>
        have own := front head
        rw [left] at bracket own
        exact own bracket
    · intro dot
      rw [List.getLast?_append_of_ne_nil _ (List.cons_ne_nil _ _)] at dot
      cases right : [':'].intercalate qs with
      | nil =>
        rw [right] at dot
        cases dot
      | cons c cs =>
        rw [List.getLast?_cons_cons, right, List.getLast?_cons_cons, ← right] at dot
        exact tidy tail _ dot rfl

theorem bare_spelling {address : ℕ} (spelled : SpellsAddress text address) : Bare text ∧ ':' ∉ text := by
  obtain ⟨parts, nums, rfl, spells, fills⟩ := spelled
  have shape := spells_all spells
  have member : ∀ c ∈ ['.'].intercalate parts, isPartChar c = true ∨ c = '.' := by
    intro c inside
    rcases mem_intercalate inside with rfl | ⟨p, inParts, own⟩
    · exact .inr rfl
    · exact .inl ((shape p inParts).2.1 c own)
  refine ⟨⟨?_, ?_, ?_, ?_⟩, ?_⟩
  · intro c inside
    unfold isPlain
    rcases member c inside with part | rfl
    · rw [part]
      rfl
    · decide
  · intro bracket
    rcases member _ (List.mem_of_head? bracket) with part | dot
    · exact absurd part (by decide)
    · exact absurd dot (by decide)
  · intro dot
    refine intercalate_last (fun p inside => ?_) _ dot rfl
    exact ⟨(shape p inside).1, partChars_last (shape p inside).2.1⟩
  · intro empty
    rw [intercalate_nil_iff fun p inside => (shape p inside).1] at empty
    subst empty
    cases spells
    exact (fills_length fills).1 rfl
  · intro colon
    rcases member _ colon with part | dot
    · exact absurd part (by decide)
    · exact absurd dot (by decide)

theorem strip_bare (bare : Bare text) : stripBrackets text = text ∧ stripDot text = text := by
  constructor
  · rw [stripBrackets, if_neg (by simp [bare.first])]
  · rw [stripDot, if_neg bare.last]

theorem strip_brackets (text : List Char) : stripBrackets ('[' :: (text ++ [']'])) = text := by
  have closed : (('[' :: (text ++ [']'])).head? = some '[' && ('[' :: (text ++ [']'])).getLast? = some ']') = true := by
    rw [← List.cons_append, List.getLast?_concat]
    simp
  rw [stripBrackets, if_pos closed, List.drop_one, List.tail_cons, List.dropLast_concat]

theorem host_bare (bare : Bare text) (writes : Writes host text) :
    stripDot (stripBrackets (lower (trim host))) = text := by
  rcases writes with same | dotted
  · rw [same, (strip_bare bare).1, (strip_bare bare).2]
  · have open' : (text ++ ['.']).head? ≠ some '[' := by
      cases text with
      | nil => exact absurd rfl bare.filled
      | cons c cs => exact bare.first
    have kept : stripBrackets (text ++ ['.']) = text ++ ['.'] := by
      rw [stripBrackets, if_neg (by simp only [Bool.and_eq_true, decide_eq_true_eq]; exact fun both => open' both.1)]
    rw [dotted, kept, stripDot, List.getLast?_concat, if_pos rfl, List.dropLast_concat]

theorem host_bracketed (bare : Bare text) (writes : Writes host ('[' :: (text ++ [']']))) :
    stripDot (stripBrackets (lower (trim host))) = text ∨
      stripDot (stripBrackets (lower (trim host))) = '[' :: (text ++ [']']) := by
  rcases writes with same | dotted
  · rw [same, strip_brackets, (strip_bare bare).2]
    exact .inl rfl
  · have kept : stripBrackets ('[' :: (text ++ [']']) ++ ['.']) = '[' :: (text ++ [']']) ++ ['.'] := by
      have last : ('[' :: (text ++ [']']) ++ ['.']).getLast? ≠ some ']' := by
        rw [List.getLast?_concat]
        decide
      rw [stripBrackets, if_neg (by simp only [Bool.and_eq_true, decide_eq_true_eq]; exact fun both => last both.2)]
    rw [dotted, kept, stripDot, List.getLast?_concat, if_pos rfl, List.dropLast_concat]
    exact .inr rfl

theorem parseIPv6_literal {groups : List ℕ} (denotes : Denotes text groups)
    (given : h = text ∨ h = '[' :: (text ++ [']'])) :
    parseIPv6 (String.ofList h) = some groups ∧ ∀ c ∈ h, isPlain c = true := by
  have bare := bare_literal denotes
  have plain : ∀ c ∈ h, isPlain c = true := by
    rcases given with rfl | rfl
    · exact bare.plain
    · intro c inside
      rw [List.mem_cons, List.mem_append, List.mem_singleton] at inside
      rcases inside with rfl | inner | rfl
      · decide
      · exact bare.plain c inner
      · decide
  have stripped : stripBrackets h = text := by
    rcases given with rfl | rfl
    · exact (strip_bare bare).1
    · exact strip_brackets text
  have zone : splitChars '%' text = [text] :=
    splitChars_plain fun inside => (plain_kept (bare.plain _ inside)).2.2.1 rfl
  refine ⟨?_, plain⟩
  rw [parseIPv6, lower_trim_plain plain, stripped, zone]
  simp [isIPv6_denotes denotes, hextets_denotes denotes, denotes_length denotes]

theorem not_isIPv6 (apart : ':' ∉ text) : isIPv6 text = false := by
  have single : splitDouble text = [text] := by
    have split := @splitDouble_plain _ [] apart
    simpa [splitDouble, prepend] using split
  have count : groupCount true (splitChars ':' text) ≠ some 8 := by
    rw [splitChars_plain apart, groupCount]
    split
    · decide
    · split <;> decide
  rw [isIPv6, single]
  exact decide_eq_false count

theorem parse_address {address : ℕ} (spelled : SpellsAddress text address) :
    parseIPv6 (String.ofList text) = none ∧ parseIPv4Loose (String.ofList text) = some (octetsOf address) := by
  have bare := bare_spelling spelled
  have zone : splitChars '%' text = [text] :=
    splitChars_plain fun inside => (plain_kept (bare.1.plain _ inside)).2.2.1 rfl
  constructor
  · rw [parseIPv6, lower_trim_plain bare.1.plain, (strip_bare bare.1).1, zone]
    simp [not_isIPv6 bare.2]
  · rw [parseIPv4Loose, lower_trim_plain bare.1.plain, parse_spelling spelled]

theorem classify_parsed (given : stripDot (stripBrackets (lower (trim host))) = h) (filled : h ≠ [])
    (plain : ∀ c ∈ h, isPlain c = true) :
    classifyHost host =
      match parseIPv6 (String.ofList h) with
      | some v6 => classifyV6 v6
      | none =>
        match parseIPv4Loose (String.ofList h) with
        | some v4 => classifyV4 v4
        | none => .publicRange := by
  have unnamed := plain_unnamed plain
  unfold classifyHost
  dsimp only
  have remote : ¬ (decide (h ∈ localNames.map String.toList) || ".localhost".toList.isSuffixOf h) = true := by
    rw [unnamed.2.2, decide_eq_false unnamed.2.1]
    decide
  rw [given, if_neg filled, if_neg unnamed.1]
  refine (if_neg remote).trans ?_
  generalize parseIPv6 (String.ofList h) = v6, parseIPv4Loose (String.ofList h) = v4
  cases v6 with
  | some groups => rfl
  | none => cases v4 <;> rfl

theorem classify_literal {groups : List ℕ} (writes : HostV6 host groups) : classifyHost host = classifyV6 groups := by
  obtain ⟨text, denotes, written⟩ := writes
  have bare := bare_literal denotes
  have given : stripDot (stripBrackets (lower (trim host))) = text ∨
      stripDot (stripBrackets (lower (trim host))) = '[' :: (text ++ [']']) := by
    rcases written with open' | closed
    · exact .inl (host_bare bare open')
    · exact host_bracketed bare closed
  have filled : stripDot (stripBrackets (lower (trim host))) ≠ [] := by
    rcases given with same | same
    · rw [same]
      exact bare.filled
    · rw [same]
      exact List.cons_ne_nil _ _
  have parsed := parseIPv6_literal denotes given
  rw [classify_parsed rfl filled parsed.2, parsed.1]

theorem classify_spelling {address : ℕ} (writes : HostV4 host address) :
    classifyHost host = classifyV4 (octetsOf address) := by
  obtain ⟨text, spelled, written⟩ := writes
  have bare := bare_spelling spelled
  have parsed := parse_address spelled
  rw [classify_parsed (host_bare bare.1 written) bare.1.filled bare.1.plain, parsed.1, parsed.2]

theorem classify_mapped (address : ℕ) :
    classifyV6 (mapped address) = classifyV4 (octetsOf address) := by
  have low : ∀ n : ℕ, n &&& 255 = n % 256 := fun n => Nat.and_two_pow_sub_one_eq_mod n 8
  have bytes : ((address / 2 ^ 16) >>> 8, address / 2 ^ 16 &&& 255, (address % 2 ^ 16) >>> 8, address % 2 ^ 16 &&& 255) =
      octetsOf address := by
    rw [low, low, Nat.shiftRight_eq_div_pow, Nat.shiftRight_eq_div_pow]
    simp only [octetsOf, Prod.mk.injEq]
    refine ⟨?_, trivial, ?_, ?_⟩
    · exact Nat.div_div_eq_div_mul address (2 ^ 16) (2 ^ 8)
    · omega
    · omega
  rw [← bytes]
  rfl

/-- Surrounding white space apart, exactly the spellings of an address are read as it, and no spelling, mapped
form, bracket, letter case or final dot changes the class of a host. -/
theorem spelling_invisible :
    (∀ host o, parseIPv4Loose host = some o ↔
      ∃ address, SpellsAddress (lower (trim host)) address ∧ o = octetsOf address) ∧
    (∀ host address, HostV4 host address → classifyHost host = classifyV4 (octetsOf address)) ∧
    (∀ host groups, HostV6 host groups → classifyHost host = classifyV6 groups) ∧
    ∀ host address, HostV6 host (mapped address) → classifyHost host = classifyV4 (octetsOf address) := by
  refine ⟨parse_iff, fun host address writes => classify_spelling writes, fun host groups writes => classify_literal writes, ?_⟩
  intro host address writes
  rw [classify_literal writes, classify_mapped]

/-- A blank in front is not part of a spelling. -/
theorem blank_accepted : ¬ ∀ host o, parseIPv4Loose host = some o ↔
    ∃ address, SpellsAddress (lower host) address ∧ o = octetsOf address := by
  intro exact'
  have accepted : parseIPv4Loose " 127.1" = some (127, 0, 0, 1) := by decide +kernel
  obtain ⟨address, spelled, _⟩ := (exact' _ _).mp accepted
  exact absurd ((bare_spelling spelled).1.plain ' ' (by decide)) (by decide)

example : classifyHost "[::FFFF:169.254.169.254]." = .metadata := by decide +kernel

example : classifyHost "0251.0xFEA9FE" = .metadata := by decide +kernel

end DataFabric.HostClasses
