import Mathlib.Data.List.Forall2
import DataFabric.NetGuard

set_option autoImplicit false

/-!
# The spellings of an IPv4 address

One to four numbers, each decimal, octal or hexadecimal, of which the last fills the bytes that are left.
-/
namespace DataFabric.HostSpellings
open CharText Doubles NetGuard

inductive Spells : List Char → ℕ → Prop
  | decimal {d : Char} {ds : List Char} : (d :: ds).all Char.isDigit = true → (d = '0' → ds = []) →
      Spells (d :: ds) (positional 10 (d :: ds))
  | octal {d : Char} {ds : List Char} : (d :: ds).all isOctalDigit = true →
      Spells ('0' :: d :: ds) (positional 8 (d :: ds))
  | hexadecimal {d : Char} {ds : List Char} : (d :: ds).all isHexDigit = true →
      Spells ('0' :: 'x' :: d :: ds) (positional 16 (d :: ds))

inductive Fills : List ℕ → ℕ → Prop
  | one {a : ℕ} : a < 2 ^ 32 → Fills [a] a
  | two {a b : ℕ} : a < 2 ^ 8 → b < 2 ^ 24 → Fills [a, b] (a * 2 ^ 24 + b)
  | three {a b c : ℕ} : a < 2 ^ 8 → b < 2 ^ 8 → c < 2 ^ 16 → Fills [a, b, c] (a * 2 ^ 24 + b * 2 ^ 16 + c)
  | four {a b c d : ℕ} : a < 2 ^ 8 → b < 2 ^ 8 → c < 2 ^ 8 → d < 2 ^ 8 →
      Fills [a, b, c, d] (a * 2 ^ 24 + b * 2 ^ 16 + c * 2 ^ 8 + d)

def SpellsAddress (text : List Char) (address : ℕ) : Prop :=
  ∃ parts nums, text = ['.'].intercalate parts ∧ List.Forall₂ Spells parts nums ∧ Fills nums address

def octetsOf (address : ℕ) : Octets :=
  (address / 2 ^ 24, address / 2 ^ 16 % 256, address / 2 ^ 8 % 256, address % 256)

theorem pow_gap {k m n : ℕ} (first : k < m) (second : m < n) : 2 ^ k < 2 ^ n - 2 ^ m := by
  have small : 2 ^ k < 2 ^ m := Nat.pow_lt_pow_right (by omega) first
  have twice : 2 ^ m + 2 ^ m ≤ 2 ^ n := by
    rw [← Nat.two_pow_succ]
    exact Nat.pow_le_pow_right (by omega) second
  omega

theorem infinity_large : 2 ^ 52 < infinity := by
  unfold infinity
  exact pow_gap (by omega) (by omega)

theorem parseInt_small {base : ℕ} {ds : List Char} (small : positional base ds < 2 ^ 52) :
    parseInt base ds = some (positional base ds) := by
  have bound : positional base ds < infinity := small.trans infinity_large
  have exact : Exact (positional base ds : ℤ) := by
    unfold Exact
    rw [Int.natAbs_natCast]
    omega
  rw [parseInt, if_pos bound, toDouble_exact exact, Int.toNat_natCast]

theorem positional_of_parseInt {base n : ℕ} {ds : List Char} (parsed : parseInt base ds = some n) (small : n < 2 ^ 52) :
    positional base ds = n := by
  by_cases exact : positional base ds < 2 ^ 52
  · rw [parseInt_small exact, Option.some.injEq] at parsed
    exact parsed
  · have large := toDouble_large (n := (positional base ds : ℤ)) (by omega)
    unfold parseInt at parsed
    split at parsed
    · cases parsed
      omega
    · cases parsed

theorem positional_zero (base : ℕ) (ds : List Char) : positional base ('0' :: ds) = positional base ds := by
  unfold positional
  rw [List.reverse_cons, List.map_append]
  exact Nat.ofDigits_append_zero _

theorem octal_digits {ds : List Char} (octal : ds.all isOctalDigit = true) : ds.all Char.isDigit = true := by
  rw [List.all_eq_true] at octal ⊢
  intro c inside
  have range := octal c inside
  simp only [isOctalDigit, Bool.and_eq_true, decide_eq_true_eq] at range
  simp only [Char.isDigit, Bool.and_eq_true, decide_eq_true_eq]
  exact ⟨range.1, UInt32.le_trans (Char.le_def.mp range.2) (by decide)⟩

theorem decimalRe_iff {p : List Char} :
    decimalRe p = true ↔ ∃ d ds, p = d :: ds ∧ (d :: ds).all Char.isDigit = true ∧ (d = '0' → ds = []) := by
  cases p with
  | nil => simp [decimalRe]
  | cons d ds =>
    simp only [decimalRe, Bool.and_eq_true, Bool.or_eq_true, decide_eq_true_eq, List.all_cons, List.cons.injEq]
    constructor
    · rintro ⟨digits, lead⟩
      refine ⟨d, ds, ⟨rfl, rfl⟩, digits, fun zero => ?_⟩
      exact lead.resolve_left fun other => other zero
    · rintro ⟨d', ds', ⟨rfl, rfl⟩, digits, lead⟩
      refine ⟨digits, ?_⟩
      by_cases zero : d = '0'
      · exact .inr (lead zero)
      · exact .inl zero

theorem hexRe_iff {p : List Char} :
    hexRe p = true ↔ ∃ d ds, p = '0' :: 'x' :: d :: ds ∧ (d :: ds).all isHexDigit = true := by
  unfold hexRe
  split
  · simp
  · rename_i other
    constructor
    · intro impossible
      cases impossible
    · rintro ⟨d, ds, rfl, _⟩
      exact absurd rfl (other d ds)

theorem octalRe_iff {p : List Char} :
    octalRe p = true ↔ ∃ d ds, p = '0' :: d :: ds ∧ (d :: ds).all isOctalDigit = true := by
  unfold octalRe
  split
  · simp
  · rename_i other
    constructor
    · intro impossible
      cases impossible
    · rintro ⟨d, ds, rfl, _⟩
      exact absurd rfl (other d ds)

theorem parsePart_spells {p : List Char} {n : ℕ} (spells : Spells p n) (small : n < 2 ^ 52) : parsePart p = some n := by
  cases spells with
  | @decimal d ds digits lead =>
    have noHex : hexRe (d :: ds) = false := by
      rw [← Bool.not_eq_true, hexRe_iff]
      rintro ⟨e, es, same, _⟩
      obtain ⟨rfl, rfl⟩ := List.cons.inj same
      cases lead rfl
    have noOctal : octalRe (d :: ds) = false := by
      rw [← Bool.not_eq_true, octalRe_iff]
      rintro ⟨e, es, same, _⟩
      obtain ⟨rfl, rfl⟩ := List.cons.inj same
      cases lead rfl
    have decimal : decimalRe (d :: ds) = true := decimalRe_iff.mpr ⟨d, ds, rfl, digits, lead⟩
    simp only [parsePart, noHex, noOctal, decimal, Bool.false_eq_true, if_false, if_true]
    exact parseInt_small small
  | @octal d ds digits =>
    have noHex : hexRe ('0' :: d :: ds) = false := by
      rw [← Bool.not_eq_true, hexRe_iff]
      rintro ⟨e, es, same, _⟩
      obtain ⟨rfl, rfl⟩ := List.cons.inj (List.cons.inj same).2
      rw [List.all_cons] at digits
      cases digits
    have octal : octalRe ('0' :: d :: ds) = true := octalRe_iff.mpr ⟨d, ds, rfl, digits⟩
    rw [← positional_zero] at small ⊢
    simp only [parsePart, noHex, octal, Bool.false_eq_true, if_false, if_true]
    exact parseInt_small small
  | @hexadecimal d ds digits =>
    have hex : hexRe ('0' :: 'x' :: d :: ds) = true := hexRe_iff.mpr ⟨d, ds, rfl, digits⟩
    simp only [parsePart, hex, if_true]
    exact parseInt_small small

theorem spells_of_parsePart {p : List Char} {n : ℕ} (parsed : parsePart p = some n) (small : n < 2 ^ 52) :
    Spells p n := by
  unfold parsePart at parsed
  split at parsed
  · rename_i hex
    obtain ⟨d, ds, rfl, digits⟩ := hexRe_iff.mp hex
    rw [← positional_of_parseInt parsed small]
    exact .hexadecimal digits
  · split at parsed
    · rename_i octal
      obtain ⟨d, ds, rfl, digits⟩ := octalRe_iff.mp octal
      rw [← positional_of_parseInt parsed small, positional_zero]
      exact .octal digits
    · split at parsed
      · rename_i decimal
        obtain ⟨d, ds, rfl, digits, lead⟩ := decimalRe_iff.mp decimal
        rw [← positional_of_parseInt parsed small]
        exact .decimal digits lead
      · cases parsed

theorem octets_eq {value : ℕ} (range : value < 2 ^ 32) : octets value = octetsOf value := by
  have low : ∀ n : ℕ, n &&& 255 = n % 256 := fun n => Nat.and_two_pow_sub_one_eq_mod n 8
  unfold octets octetsOf
  rw [low, low, low, low, Nat.shiftRight_eq_div_pow, Nat.shiftRight_eq_div_pow,
    Nat.mod_eq_of_lt (a := value / 2 ^ 24) (by omega)]

theorem fills_range {nums : List ℕ} {address : ℕ} (fills : Fills nums address) : address < 2 ^ 32 := by
  cases fills <;> omega

theorem fills_members {nums : List ℕ} {address : ℕ} (fills : Fills nums address) : ∀ n ∈ nums, n < 2 ^ 52 := by
  cases fills <;> simp only [List.forall_mem_cons, List.not_mem_nil, false_implies, implies_true, and_true] <;> omega

theorem assemble_eq {nums : List ℕ} (lead : ∀ n ∈ nums.dropLast, n ≤ 255)
    (last : nums.getLastD 0 < 2 ^ (8 * (5 - nums.length))) :
    assemble nums =
      some (octets (nums.getLastD 0 + (nums.dropLast.zipIdx.map fun n => n.1 * 2 ^ (8 * (3 - n.2))).sum)) := by
  have small : (nums.dropLast.any (255 < ·)) = false := by
    rw [List.any_eq_false]
    intro n inside
    simpa using lead n inside
  unfold assemble
  dsimp only
  rw [small, if_neg Bool.false_ne_true, if_neg (Nat.not_le.mpr last)]

theorem weighed_cons (a i : ℕ) (rest : List ℕ) :
    (((a :: rest).zipIdx i).map fun n => n.1 * 2 ^ (8 * (3 - n.2))).sum =
      a * 2 ^ (8 * (3 - i)) + ((rest.zipIdx (i + 1)).map fun n => n.1 * 2 ^ (8 * (3 - n.2))).sum := by
  rw [List.zipIdx_cons, List.map_cons, List.sum_cons]

theorem weighed_nil (i : ℕ) : (([].zipIdx i).map fun n : ℕ × ℕ => n.1 * 2 ^ (8 * (3 - n.2))).sum = 0 := rfl

theorem assemble_fills {nums : List ℕ} {address : ℕ} (fills : Fills nums address) :
    assemble nums = some (octetsOf address) := by
  rw [← octets_eq (fills_range fills)]
  -- the weights of the first, the second and the third number
  have first : 8 * (3 - 0) = 24 := rfl
  have second : 8 * (3 - (0 + 1)) = 16 := rfl
  have third : 8 * (3 - (0 + 1 + 1)) = 8 := rfl
  cases fills with
  | one a =>
    rw [assemble_eq (by simp) (by simpa using a)]
    rfl
  | @two a b ha hb =>
    have value : b + ([a].zipIdx.map fun n => n.1 * 2 ^ (8 * (3 - n.2))).sum = a * 2 ^ 24 + b := by
      rw [weighed_cons, weighed_nil, first]
      omega
    rw [assemble_eq (by simp; omega) (by simpa using hb)]
    exact congrArg (fun n => some (octets n)) value
  | @three a b c ha hb hc =>
    have value : c + ([a, b].zipIdx.map fun n => n.1 * 2 ^ (8 * (3 - n.2))).sum = a * 2 ^ 24 + b * 2 ^ 16 + c := by
      rw [weighed_cons, weighed_cons, weighed_nil, first, second]
      omega
    rw [assemble_eq (by simp; omega) (by simpa using hc)]
    exact congrArg (fun n => some (octets n)) value
  | @four a b c d ha hb hc hd =>
    have value : d + ([a, b, c].zipIdx.map fun n => n.1 * 2 ^ (8 * (3 - n.2))).sum =
        a * 2 ^ 24 + b * 2 ^ 16 + c * 2 ^ 8 + d := by
      rw [weighed_cons, weighed_cons, weighed_cons, weighed_nil, first, second, third]
      omega
    rw [assemble_eq (by simp; omega) (by simpa using hd)]
    exact congrArg (fun n => some (octets n)) value

theorem fills_of_assemble {nums : List ℕ} {o : Octets} (some' : nums ≠ []) (most : nums.length ≤ 4)
    (assembled : assemble nums = some o) : ∃ address, Fills nums address := by
  unfold assemble at assembled
  dsimp only at assembled
  split at assembled
  · cases assembled
  · rename_i lead
    split at assembled
    · cases assembled
    · rename_i last
      rw [Bool.not_eq_true, List.any_eq_false] at lead
      match nums, some', most with
      | [a], _, _ => exact ⟨_, .one (by simpa using last)⟩
      | [a, b], _, _ =>
        simp at lead last
        exact ⟨_, .two (by omega) (by omega)⟩
      | [a, b, c], _, _ =>
        simp at lead last
        exact ⟨_, .three (by omega) (by omega) (by omega)⟩
      | [a, b, c, d], _, _ =>
        simp at lead last
        exact ⟨_, .four (by omega) (by omega) (by omega) (by omega)⟩
      | _ :: _ :: _ :: _ :: _ :: _, _, most =>
        simp only [List.length_cons] at most
        omega

theorem mapM_some_iff {α β : Type} {f : α → Option β} {xs : List α} {ys : List β} :
    xs.mapM f = some ys ↔ List.Forall₂ (fun x y => f x = some y) xs ys := by
  induction xs generalizing ys with
  | nil =>
    rw [List.mapM_nil, List.forall₂_nil_left_iff]
    exact ⟨fun h => (Option.some.inj h).symm, fun h => congrArg some h.symm⟩
  | cons x xs ih =>
    rw [List.mapM_cons, List.forall₂_cons_left_iff]
    constructor
    · intro all
      obtain ⟨y, first, rest⟩ := Option.bind_eq_some_iff.mp all
      obtain ⟨ys', later, same⟩ := Option.bind_eq_some_iff.mp rest
      exact ⟨y, ys', first, ih.mp later, (Option.some.inj same).symm⟩
    · rintro ⟨y, ys', first, later, rfl⟩
      rw [first, ih.mpr later]
      rfl

def isPartChar (c : Char) : Bool := isHexDigit c || c = 'x'

theorem digit_hex {c : Char} (digit : c.isDigit = true) : isPartChar c = true := by
  rw [isPartChar, isHexDigit, digit]
  rfl

theorem spells_shape {p : List Char} {n : ℕ} (spells : Spells p n) :
    p ≠ [] ∧ (∀ c ∈ p, isPartChar c = true) ∧ ∀ c ∈ p.head?, c.isDigit = true := by
  have hex : ∀ c, isHexDigit c = true → isPartChar c = true := by
    intro c digit
    rw [isPartChar, digit]
    rfl
  cases spells with
  | decimal digits _ =>
    rw [List.all_eq_true] at digits
    refine ⟨List.cons_ne_nil _ _, fun c inside => digit_hex (digits c inside), ?_⟩
    intro c first
    cases first
    exact digits _ List.mem_cons_self
  | octal digits =>
    have decimal := List.all_eq_true.mp (octal_digits digits)
    refine ⟨List.cons_ne_nil _ _, ?_, ?_⟩
    · intro c inside
      rcases List.mem_cons.mp inside with rfl | later
      · decide
      · exact digit_hex (decimal c later)
    · intro c first
      cases first
      decide
  | hexadecimal digits =>
    rw [List.all_eq_true] at digits
    refine ⟨List.cons_ne_nil _ _, ?_, ?_⟩
    · intro c inside
      rcases List.mem_cons.mp inside with rfl | later
      · decide
      · rcases List.mem_cons.mp later with rfl | digit
        · decide
        · exact hex c (digits c digit)
    · intro c first
      cases first
      decide

theorem spells_all {parts : List (List Char)} {nums : List ℕ} (spells : List.Forall₂ Spells parts nums) :
    ∀ p ∈ parts, p ≠ [] ∧ (∀ c ∈ p, isPartChar c = true) ∧ ∀ c ∈ p.head?, c.isDigit = true := by
  induction spells with
  | nil => simp
  | cons first _ ih =>
    intro p inside
    rcases List.mem_cons.mp inside with rfl | later
    · exact spells_shape first
    · exact ih p later

theorem fills_length {nums : List ℕ} {address : ℕ} (fills : Fills nums address) : nums ≠ [] ∧ nums.length ≤ 4 := by
  cases fills <;> simp

theorem parse_spelling {text : List Char} {address : ℕ} (spelled : SpellsAddress text address) :
    parseIPv4Chars text = some (octetsOf address) := by
  obtain ⟨parts, nums, rfl, spells, fills⟩ := spelled
  have shape := spells_all spells
  have size := fills_length fills
  have filled : parts ≠ [] := by
    rintro rfl
    cases spells
    exact size.1 rfl
  have apart : ∀ p ∈ parts, '.' ∉ p := by
    intro p inside dot
    exact absurd ((shape p inside).2.1 _ dot) (by decide)
  have whole : splitChars '.' (['.'].intercalate parts) = parts := splitChars_intercalate filled apart
  have loose : ∀ c ∈ ['.'].intercalate parts, isLoose c = true := by
    intro c inside
    rcases mem_intercalate inside with rfl | ⟨p, inParts, own⟩
    · decide
    · have part := (shape p inParts).2.1 c own
      simp only [isPartChar, Bool.or_eq_true, decide_eq_true_eq] at part
      simp only [isLoose, Bool.or_eq_true, decide_eq_true_eq]
      exact .inl part
  have nonempty : ['.'].intercalate parts ≠ [] := by
    intro empty
    rw [empty] at whole
    exact (shape [] (whole ▸ List.mem_singleton.mpr rfl)).1 rfl
  have parsed : parts.mapM parsePart = some nums := by
    rw [mapM_some_iff]
    have small := fills_members fills
    clear whole loose nonempty apart filled shape size fills
    induction spells with
    | nil => exact .nil
    | cons first _ ih =>
      rw [List.forall_mem_cons] at small
      exact .cons (parsePart_spells first small.1) (ih small.2)
  have allowed : (decide (['.'].intercalate parts = []) || (['.'].intercalate parts).any (!isLoose ·)) = false := by
    rw [Bool.or_eq_false_iff, decide_eq_false_iff_not, List.any_eq_false]
    refine ⟨nonempty, fun c inside => ?_⟩
    rw [loose c inside]
    decide
  have counted : (decide (4 < parts.length) || parts.any (· = [])) = false := by
    rw [Bool.or_eq_false_iff, decide_eq_false_iff_not, List.any_eq_false, spells.length_eq]
    refine ⟨Nat.not_lt.mpr size.2, fun p inside => ?_⟩
    simpa using (shape p inside).1
  unfold parseIPv4Chars
  rw [allowed, whole]
  dsimp only
  rw [counted, parsed]
  exact assemble_fills fills

theorem spelled_of_parse {text : List Char} {o : Octets} (parsed : parseIPv4Chars text = some o) :
    ∃ address, SpellsAddress text address ∧ o = octetsOf address := by
  unfold parseIPv4Chars at parsed
  dsimp only at parsed
  split at parsed
  · cases parsed
  · split at parsed
    · cases parsed
    · rename_i counted
      rw [Bool.or_eq_true, not_or, decide_eq_true_eq] at counted
      obtain ⟨nums, numbers, assembled⟩ := Option.bind_eq_some_iff.mp parsed
      rw [mapM_some_iff] at numbers
      have filled : nums ≠ [] := by
        rintro rfl
        have none := List.forall₂_nil_right_iff.mp numbers
        exact splitChars_ne_nil _ _ none
      have most : nums.length ≤ 4 := by
        rw [← numbers.length_eq]
        exact Nat.not_lt.mp counted.1
      obtain ⟨address, fills⟩ := fills_of_assemble filled most assembled
      refine ⟨address, ⟨splitChars '.' text, nums, (intercalate_splitChars '.' text).symm, ?_, fills⟩, ?_⟩
      · have small := fills_members fills
        revert small numbers
        generalize splitChars '.' text = parts
        intro numbers small
        clear assembled fills most filled parsed counted
        induction numbers with
        | nil => exact .nil
        | cons first _ ih =>
          rw [List.forall_mem_cons] at small
          exact .cons (spells_of_parsePart first small.1) (ih small.2)
      · rw [assemble_fills fills, Option.some.injEq] at assembled
        exact assembled.symm

theorem parse_iff (host : String) (o : Octets) :
    parseIPv4Loose host = some o ↔ ∃ address, SpellsAddress (lower (trim host)) address ∧ o = octetsOf address := by
  constructor
  · exact spelled_of_parse
  · rintro ⟨address, spelled, rfl⟩
    exact parse_spelling spelled

end DataFabric.HostSpellings
