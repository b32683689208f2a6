import Mathlib.Data.List.Infix

set_option autoImplicit false

/-!
# Text over lists of characters

The string operations of the source, each on the list of characters of a
string so that the kernel evaluates it. Regular expressions become predicates.
-/
namespace DataFabric.CharText

def isWord (c : Char) : Bool := c.isAlphanum || c == '_'

def isWordStart (c : Char) : Bool := c.isAlpha || c == '_'

def isSpace (c : Char) : Bool :=
  c.toNat ∈ [0x9, 0xA, 0xB, 0xC, 0xD, 0x20, 0xA0, 0x1680, 0x2028, 0x2029, 0x202F, 0x205F, 0x3000, 0xFEFF] ||
    (0x2000 ≤ c.toNat && c.toNat ≤ 0x200A)

def utf16Length (s : String) : ℕ :=
  s.toList.foldl (fun n c => if c.toNat < 0x10000 then n + 1 else n + 2) 0

def matchesWord (first rest : Char → Bool) (lo hi : ℕ) (s : String) : Bool :=
  match s.toList with
  | [] => false
  | c :: cs => first c && cs.all rest && decide (lo ≤ cs.length ∧ cs.length ≤ hi)

def keepOnly (keep : Char → Bool) (s : String) : String := String.ofList (s.toList.filter keep)

def startsWith (s p : String) : Bool := p.toList.isPrefixOf s.toList

def endsWith (s p : String) : Bool := p.toList.isSuffixOf s.toList

def containsChar (c : Char) (s : String) : Bool := s.toList.contains c

def containsText (needle s : String) : Bool := s.toList.tails.any fun t => needle.toList.isPrefixOf t

/-- `slice(0, n)` in UTF-16 units; a character cut in half is left out. -/
def utf16Take : ℕ → List Char → List Char
  | _, [] => []
  | n, c :: cs =>
    let w := if c.toNat < 0x10000 then 1 else 2
    if w ≤ n then c :: utf16Take (n - w) cs else []

def slice (n : ℕ) (s : String) : String := String.ofList (utf16Take n s.toList)

/-- `toLowerCase` of ASCII letters; the other characters stay. -/
def asciiLower (s : String) : String := String.ofList (s.toList.map Char.toLower)

/-- `/^(w|..|p[a-z0-9_]*|..)$/i`: one of the words, or one of the prefixes and word characters. -/
def matchesAnyName (words prefixes : List String) (s : String) : Bool :=
  asciiLower s ∈ words ||
    prefixes.any fun p =>
      startsWith (asciiLower s) p && ((asciiLower s).toList.drop p.toList.length).all isWord

/-- The characters outside ASCII whose upper case has ASCII letters only. -/
def asciiUppers : List (ℕ × List Char) :=
  [(0xDF, ['S', 'S']), (0x131, ['I']), (0x17F, ['S']), (0xFB00, ['F', 'F']), (0xFB01, ['F', 'I']),
    (0xFB02, ['F', 'L']), (0xFB03, ['F', 'F', 'I']), (0xFB04, ['F', 'F', 'L']),
    (0xFB05, ['S', 'T']), (0xFB06, ['S', 'T'])]

def upperChar (c : Char) : List Char := (asciiUppers.lookup c.toNat).getD [c.toUpper]

/-- `toUpperCase`, exact wherever the result is compared with an ASCII word. -/
def upperCase (s : String) : String := String.ofList (s.toList.flatMap upperChar)

def trim (s : String) : String :=
  String.ofList (((s.toList.dropWhile isSpace).reverse.dropWhile isSpace).reverse)

def splitChars (sep : Char) : List Char → List (List Char)
  | [] => [[]]
  | c :: cs =>
    if c = sep then [] :: splitChars sep cs
    else match splitChars sep cs with
      | [] => [[c]]
      | part :: parts => (c :: part) :: parts

def split (sep : Char) (s : String) : List String := (splitChars sep s.toList).map String.ofList

/-- The text after the last separator, the whole text when there is none. -/
def afterLast (sep : Char) (s : String) : String :=
  String.ofList ((s.toList.reverse.takeWhile (· ≠ sep)).reverse)

/-- The text before the last separator, `none` when there is none. -/
def beforeLast (sep : Char) (s : String) : Option String :=
  match s.toList.reverse.dropWhile (· ≠ sep) with
  | [] => none
  | _ :: cs => some (String.ofList cs.reverse)

def hexValue (c : Char) : Option ℕ :=
  if c.isDigit then some (c.toNat - 48)
  else if ('a' ≤ c && c ≤ 'f') || ('A' ≤ c && c ≤ 'F') then some (c.toLower.toNat - 87)
  else none

/-- The escapes `%00` to `%7F` undone, any other left as it stands. -/
def percentDecode : List Char → List Char
  | '%' :: a :: b :: cs =>
    match hexValue a, hexValue b with
    | some x, some y =>
      if x < 8 then Char.ofNat (16 * x + y) :: percentDecode cs else '%' :: percentDecode (a :: b :: cs)
    | _, _ => '%' :: percentDecode (a :: b :: cs)
  | c :: cs => c :: percentDecode cs
  | [] => []

@[simp] theorem keepOnly_toList (keep : Char → Bool) (s : String) :
    (keepOnly keep s).toList = s.toList.filter keep := String.toList_ofList

@[simp] theorem asciiLower_toList (s : String) :
    (asciiLower s).toList = s.toList.map Char.toLower := String.toList_ofList

theorem startsWith_iff (s p : String) : startsWith s p = true ↔ p.toList <+: s.toList :=
  List.isPrefixOf_iff_prefix

theorem endsWith_iff (s p : String) : endsWith s p = true ↔ p.toList <:+ s.toList :=
  List.isSuffixOf_iff_suffix

theorem splitChars_ne_nil (sep : Char) (cs : List Char) : splitChars sep cs ≠ [] := by
  cases cs with
  | nil => exact List.cons_ne_nil _ _
  | cons c cs =>
    unfold splitChars
    split
    · exact List.cons_ne_nil _ _
    · split <;> exact List.cons_ne_nil _ _

theorem splitChars_append_cons (sep : Char) (cs ds : List Char) :
    splitChars sep (cs ++ sep :: ds) = splitChars sep cs ++ splitChars sep ds := by
  induction cs with
  | nil => simp [splitChars]
  | cons c cs ih =>
    rw [List.cons_append, splitChars, splitChars, ih]
    by_cases h : c = sep
    · simp [h]
    · cases hcs : splitChars sep cs with
      | nil => exact absurd hcs (splitChars_ne_nil sep cs)
      | cons part parts => simp [h]

theorem mem_splitChars {sep c : Char} {part cs : List Char} (hpart : part ∈ splitChars sep cs)
    (hc : c ∈ part) : c ∈ cs := by
  induction cs generalizing part with
  | nil =>
    rw [splitChars, List.mem_singleton] at hpart
    exact hpart ▸ hc
  | cons d cs ih =>
    unfold splitChars at hpart
    split at hpart
    · rcases List.mem_cons.mp hpart with rfl | hpart
      · cases hc
      · exact List.mem_cons_of_mem _ (ih hpart hc)
    · split at hpart
      case h_1 heq => exact absurd heq (splitChars_ne_nil sep cs)
      case h_2 first rest heq =>
        rcases List.mem_cons.mp hpart with rfl | hpart
        · rcases List.mem_cons.mp hc with rfl | hc
          · exact List.mem_cons_self
          · exact List.mem_cons_of_mem _ (ih (heq ▸ List.mem_cons_self) hc)
        · exact List.mem_cons_of_mem _ (ih (heq ▸ List.mem_cons_of_mem _ hpart) hc)

theorem splitChars_plain {sep : Char} {cs : List Char} (apart : sep ∉ cs) : splitChars sep cs = [cs] := by
  induction cs with
  | nil => rfl
  | cons c cs ih =>
    rw [List.mem_cons, not_or] at apart
    rw [splitChars, if_neg (Ne.symm apart.1), ih apart.2]

theorem splitChars_intercalate {sep : Char} {parts : List (List Char)} (nonempty : parts ≠ [])
    (apart : ∀ p ∈ parts, sep ∉ p) : splitChars sep ([sep].intercalate parts) = parts := by
  induction parts with
  | nil => exact absurd rfl nonempty
  | cons p parts ih =>
    have apartP := apart p List.mem_cons_self
    cases parts with
    | nil => rw [List.intercalate_singleton, splitChars_plain apartP]
    | cons q parts =>
      have later := ih (List.cons_ne_nil _ _) fun r inside => apart r (List.mem_cons_of_mem _ inside)
      rw [List.intercalate_cons_cons, List.append_assoc, List.singleton_append, splitChars_append_cons,
        splitChars_plain apartP, later, List.singleton_append]

theorem mem_intercalate {sep c : Char} {parts : List (List Char)} (inside : c ∈ [sep].intercalate parts) :
    c = sep ∨ ∃ p ∈ parts, c ∈ p := by
  induction parts with
  | nil => exact absurd inside List.not_mem_nil
  | cons p parts ih =>
    cases parts with
    | nil =>
      rw [List.intercalate_singleton] at inside
      exact .inr ⟨p, List.mem_cons_self, inside⟩
    | cons q parts =>
      rw [List.intercalate_cons_cons, List.mem_append, List.mem_append, List.mem_singleton] at inside
      rcases inside with (own | same) | later
      · exact .inr ⟨p, List.mem_cons_self, own⟩
      · exact .inl same
      · rcases ih later with same | ⟨r, inParts, own⟩
        · exact .inl same
        · exact .inr ⟨r, List.mem_cons_of_mem _ inParts, own⟩

theorem splitChars_apart {sep : Char} {cs : List Char} : ∀ part ∈ splitChars sep cs, sep ∉ part := by
  induction cs with
  | nil => simp [splitChars]
  | cons c cs ih =>
    unfold splitChars
    by_cases cut : c = sep
    · rw [if_pos cut]
      exact List.forall_mem_cons.mpr ⟨List.not_mem_nil, ih⟩
    · rw [if_neg cut]
      cases parts : splitChars sep cs with
      | nil => exact absurd parts (splitChars_ne_nil sep cs)
      | cons first rest =>
        rw [parts] at ih
        have both := List.forall_mem_cons.mp ih
        refine List.forall_mem_cons.mpr ⟨?_, both.2⟩
        rw [List.mem_cons, not_or]
        exact ⟨Ne.symm cut, both.1⟩

theorem intercalate_splitChars (sep : Char) (cs : List Char) : [sep].intercalate (splitChars sep cs) = cs := by
  induction cs with
  | nil => rfl
  | cons c cs ih =>
    unfold splitChars
    by_cases cut : c = sep
    · rw [if_pos cut]
      cases parts : splitChars sep cs with
      | nil => exact absurd parts (splitChars_ne_nil sep cs)
      | cons first rest =>
        rw [List.intercalate_cons_cons, ← parts, ih, cut]
        rfl
    · rw [if_neg cut]
      cases parts : splitChars sep cs with
      | nil => exact absurd parts (splitChars_ne_nil sep cs)
      | cons first rest =>
        rw [parts] at ih
        rw [← ih]
        cases rest with
        | nil => rfl
        | cons second rest => rw [List.intercalate_cons_cons, List.intercalate_cons_cons, List.cons_append, List.cons_append]

theorem ascii_forall {p : Char → Prop} (checked : ∀ n < 128, p (Char.ofNat n)) {c : Char} (ascii : c.toNat < 128) :
    p c := by
  have own := checked c.toNat ascii
  rwa [Char.ofNat_toNat] at own

theorem isWord_ascii {c : Char} (word : isWord c = true) : c.toNat < 128 := by
  unfold isWord Char.isAlphanum Char.isAlpha Char.isUpper Char.isLower Char.isDigit at word
  simp only [Bool.or_eq_true, Bool.and_eq_true, decide_eq_true_eq, beq_iff_eq] at word
  change c.val.toNat < 128
  rcases word with ((⟨_, h⟩ | ⟨_, h⟩) | ⟨_, h⟩) | rfl
  · exact Nat.lt_of_le_of_lt (UInt32.le_iff_toNat_le.mp h) (by decide)
  · exact Nat.lt_of_le_of_lt (UInt32.le_iff_toNat_le.mp h) (by decide)
  · exact Nat.lt_of_le_of_lt (UInt32.le_iff_toNat_le.mp h) (by decide)
  · decide

theorem isWord_of_start {c : Char} (word : isWordStart c = true) : isWord c = true := by
  unfold isWordStart at word
  unfold isWord Char.isAlphanum
  rw [Bool.or_eq_true] at word ⊢
  exact word.imp_left fun alpha => by rw [alpha, Bool.true_or]

theorem utf16Length_word {s : String} (word : ∀ c ∈ s.toList, isWord c = true) : utf16Length s = s.toList.length := by
  have counted : ∀ (cs : List Char) (n : ℕ), (∀ c ∈ cs, isWord c = true) →
      cs.foldl (fun n c => if c.toNat < 0x10000 then n + 1 else n + 2) n = n + cs.length := by
    intro cs
    induction cs with
    | nil =>
      intro n _
      rfl
    | cons c cs ih =>
      intro n word
      have small : c.toNat < 0x10000 := (isWord_ascii (word c List.mem_cons_self)).trans (by decide)
      rw [List.foldl_cons, if_pos small, ih _ fun d inside => word d (List.mem_cons_of_mem _ inside), List.length_cons]
      omega
  rw [utf16Length, counted _ 0 word, Nat.zero_add]

example : percentDecode "%2e%7Ax%".toList = ".zx%".toList := by decide

example : split '.' "a.b..c" = ["a", "b", "", "c"] := by decide

example : afterLast '.' "a.b.c" = "c" ∧ beforeLast '.' "a.b.c" = some "a.b" := by decide

end DataFabric.CharText
