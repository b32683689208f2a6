import DataFabric.JsValues
import DataFabric.CharText
import DataFabric.TransitionRuns
import Mathlib.Algebra.Group.Nat.Defs
import Mathlib.Data.List.Sort
import Mathlib.Tactic.SplitIfs

set_option autoImplicit false

/-!
# JSON texts

What `JSON.stringify` writes, over lists of characters. A text can be told from what follows it: it opens and
closes every bracket and quote of its own.
-/
namespace DataFabric.JsonTexts
open JsValues TransitionRuns

def hexDigit (n : ℕ) : Char := Char.ofNat (if n < 10 then 48 + n else 87 + n)

/-- A character of a string; a control character is escaped. -/
def escape (c : Char) : List Char :=
  if c = '"' then ['\\', '"']
  else if c = '\\' then ['\\', '\\']
  else if c.toNat = 8 then ['\\', 'b']
  else if c.toNat = 9 then ['\\', 't']
  else if c.toNat = 10 then ['\\', 'n']
  else if c.toNat = 12 then ['\\', 'f']
  else if c.toNat = 13 then ['\\', 'r']
  else if c.toNat < 32 then ['\\', 'u', '0', '0', hexDigit (c.toNat / 16), hexDigit (c.toNat % 16)]
  else [c]

def quote (s : String) : List Char := '"' :: (s.toList.flatMap escape ++ ['"'])

/-- The number of a key that a list would have, `none` for any other key. -/
def arrayIndex (key : String) : Option ℕ :=
  let n := key.toList.foldl (fun n c => 10 * n + (c.toNat - 48)) 0
  if key.toList ≠ [] && key.toList.all Char.isDigit && toString n = key && n < 2 ^ 32 - 1 then some n else none

/-- The order in which a language enumerates keys: indices by their number, the others as they came. -/
def ownOrder {α : Type} (entries : List (String × α)) : List (String × α) :=
  (entries.filter fun e => (arrayIndex e.1).isSome).insertionSort
      (fun a b => (arrayIndex a.1).getD 0 ≤ (arrayIndex b.1).getD 0) ++
    entries.filter fun e => (arrayIndex e.1).isNone

def objectText (pairs : List (String × List Char)) : List Char :=
  '{' :: ([','].intercalate ((ownOrder pairs).map fun p => quote p.1 ++ ':' :: p.2) ++ ['}'])

mutual

def stringify : JsValue → Option (List Char)
  | .undefined => none
  | .null => some "null".toList
  | .bool b => some (if b then "true".toList else "false".toList)
  | .num q => some (JsValue.numberText q).toList
  | .str s => some (quote s)
  | .arr vs => some ('[' :: ([','].intercalate (elementTexts vs) ++ [']']))
  | .obj fields => some (objectText (fieldTexts fields))

def elementTexts : List JsValue → List (List Char)
  | [] => []
  | v :: vs => (stringify v).getD "null".toList :: elementTexts vs

def fieldTexts : List (String × JsValue) → List (String × List Char)
  | [] => []
  | (k, v) :: fields =>
    match stringify v with
    | some t => (k, t) :: fieldTexts fields
    | none => fieldTexts fields

end

/-- Between the characters of a text: how many brackets are open, and whether a string is. -/
inductive Place
  | outside (depth : ℕ)
  | inString (depth : ℕ)
  | escaped (depth : ℕ)
  deriving DecidableEq

/-- A separator or closing bracket that belongs to no bracket of the text ends it. -/
def scan : Place → Char → Option Place
  | .outside d, c =>
    if c = '"' then some (.inString d)
    else if c = '{' ∨ c = '[' then some (.outside (d + 1))
    else if c = '}' ∨ c = ']' then (match d with | 0 => none | d + 1 => some (.outside d))
    else if c = ',' ∨ c = ':' then (if d = 0 then none else some (.outside d))
    else some (.outside d)
  | .inString d, c =>
    if c = '\\' then some (.escaped d) else if c = '"' then some (.outside d) else some (.inString d)
  | .escaped d, _ => some (.inString d)

def Closed (t : List Char) : Prop := ∀ d, run scan (.outside d) t = some (.outside d)

def isDelimiter (c : Char) : Bool := [',', ':', '}', ']'].contains c

theorem scan_delimiter {c : Char} (delimiter : isDelimiter c = true) : scan (.outside 0) c = none := by
  simp only [isDelimiter, List.contains_cons, List.contains_nil, Bool.or_eq_true, beq_iff_eq, Bool.or_false] at delimiter
  rcases delimiter with rfl | rfl | rfl | rfl <;> rfl

theorem closed_unique {t u x y : List Char} {c d : Char} (first : Closed t) (second : Closed u)
    (left : isDelimiter c = true) (right : isDelimiter d = true) (same : t ++ c :: x = u ++ d :: y) :
    t = u ∧ c = d ∧ x = y := by
  have stops : ∀ {t u m : List Char} {c : Char}, Closed t → Closed u → isDelimiter c = true → u ≠ t ++ c :: m := by
    intro t u m c first second delimiter longer
    have whole := second 0
    rw [longer, run_append, first 0, Option.bind_some, run_cons, scan_delimiter delimiter] at whole
    cases whole
  rcases List.append_eq_append_iff.mp same with ⟨more, rfl, rest⟩ | ⟨more, rfl, rest⟩
  · cases more with
    | nil =>
      rw [List.nil_append, List.cons.injEq] at rest
      exact ⟨(List.append_nil t).symm, rest.1, rest.2⟩
    | cons e m =>
      rw [List.cons_append, List.cons.injEq] at rest
      exact absurd rfl (stops (m := m) first second (rest.1 ▸ left))
  · cases more with
    | nil =>
      rw [List.nil_append, List.cons.injEq] at rest
      exact ⟨List.append_nil u, rest.1.symm, rest.2.symm⟩
    | cons e m =>
      rw [List.cons_append, List.cons.injEq] at rest
      exact absurd rfl (stops (m := m) second first (rest.1 ▸ right))

def unescape : List Char → Option (Char × List Char)
  | '\\' :: 'b' :: cs => some (Char.ofNat 8, cs)
  | '\\' :: 't' :: cs => some (Char.ofNat 9, cs)
  | '\\' :: 'n' :: cs => some (Char.ofNat 10, cs)
  | '\\' :: 'f' :: cs => some (Char.ofNat 12, cs)
  | '\\' :: 'r' :: cs => some (Char.ofNat 13, cs)
  | '\\' :: 'u' :: '0' :: '0' :: a :: b :: cs =>
    some (Char.ofNat (16 * ((CharText.hexValue a).getD 0) + (CharText.hexValue b).getD 0), cs)
  | '\\' :: c :: cs => some (c, cs)
  | '"' :: _ => none
  | c :: cs => some (c, cs)
  | [] => none

theorem hexDigit_value {n : ℕ} (small : n < 16) : CharText.hexValue (hexDigit n) = some n := by
  have checked : ∀ n < 16, CharText.hexValue (hexDigit n) = some n := by decide
  exact checked n small

theorem unescape_escape (c : Char) (rest : List Char) : unescape (escape c ++ rest) = some (c, rest) := by
  have own : ∀ n, c.toNat = n → c = Char.ofNat n := fun n same => by rw [← same, Char.ofNat_toNat]
  unfold escape
  by_cases mark : c = '"'
  · rw [if_pos mark, mark]
    rfl
  rw [if_neg mark]
  by_cases slash : c = '\\'
  · rw [if_pos slash, slash]
    rfl
  rw [if_neg slash]
  by_cases backspace : c.toNat = 8
  · rw [if_pos backspace, own 8 backspace]
    rfl
  rw [if_neg backspace]
  by_cases tab : c.toNat = 9
  · rw [if_pos tab, own 9 tab]
    rfl
  rw [if_neg tab]
  by_cases newline : c.toNat = 10
  · rw [if_pos newline, own 10 newline]
    rfl
  rw [if_neg newline]
  by_cases feed : c.toNat = 12
  · rw [if_pos feed, own 12 feed]
    rfl
  rw [if_neg feed]
  by_cases carriage : c.toNat = 13
  · rw [if_pos carriage, own 13 carriage]
    rfl
  rw [if_neg carriage]
  by_cases control : c.toNat < 32
  · have whole : 16 * (c.toNat / 16) + c.toNat % 16 = c.toNat := by omega
    rw [if_pos control]
    simp only [List.cons_append, List.nil_append]
    rw [unescape, hexDigit_value (by omega), hexDigit_value (by omega), Option.getD_some, Option.getD_some, whole,
      Char.ofNat_toNat]
  · rw [if_neg control, List.singleton_append]
    unfold unescape
    split <;> simp_all

theorem escape_plain {c : Char} : escape c = [c] ∧ c ≠ '"' ∧ c ≠ '\\' ∧ ¬ c.toNat < 32 ∨
    ∃ e es, escape c = '\\' :: e :: es ∧ ¬ e.toNat < 32 ∧ ∀ d ∈ es, d ≠ '"' ∧ d ≠ '\\' ∧ ¬ d.toNat < 32 := by
  have digits : ∀ n < 16, hexDigit n ≠ '"' ∧ hexDigit n ≠ '\\' ∧ ¬ (hexDigit n).toNat < 32 := by decide
  unfold escape
  by_cases mark : c = '"'
  · rw [if_pos mark]
    exact .inr ⟨_, _, rfl, by decide, by simp⟩
  rw [if_neg mark]
  by_cases slash : c = '\\'
  · rw [if_pos slash]
    exact .inr ⟨_, _, rfl, by decide, by simp⟩
  rw [if_neg slash]
  by_cases backspace : c.toNat = 8
  · rw [if_pos backspace]
    exact .inr ⟨_, _, rfl, by decide, by simp⟩
  rw [if_neg backspace]
  by_cases tab : c.toNat = 9
  · rw [if_pos tab]
    exact .inr ⟨_, _, rfl, by decide, by simp⟩
  rw [if_neg tab]
  by_cases newline : c.toNat = 10
  · rw [if_pos newline]
    exact .inr ⟨_, _, rfl, by decide, by simp⟩
  rw [if_neg newline]
  by_cases feed : c.toNat = 12
  · rw [if_pos feed]
    exact .inr ⟨_, _, rfl, by decide, by simp⟩
  rw [if_neg feed]
  by_cases carriage : c.toNat = 13
  · rw [if_pos carriage]
    exact .inr ⟨_, _, rfl, by decide, by simp⟩
  rw [if_neg carriage]
  by_cases control : c.toNat < 32
  · rw [if_pos control]
    refine .inr ⟨_, _, rfl, by decide, ?_⟩
    simp only [List.forall_mem_cons]
    exact ⟨by decide, by decide, digits _ (by omega), digits _ (by omega), by simp⟩
  · rw [if_neg control]
    exact .inl ⟨rfl, mark, slash, control⟩

theorem run_plain {d : ℕ} {es : List Char} (plain : ∀ c ∈ es, c ≠ '"' ∧ c ≠ '\\') :
    run scan (.inString d) es = some (.inString d) := by
  induction es with
  | nil => rfl
  | cons c es ih =>
    rw [List.forall_mem_cons] at plain
    have stays : scan (.inString d) c = some (.inString d) := by
      rw [scan, if_neg plain.1.2, if_neg plain.1.1]
    rw [run_cons, stays, Option.bind_some, ih plain.2]

theorem run_escape (d : ℕ) (c : Char) : run scan (.inString d) (escape c) = some (.inString d) := by
  rcases escape_plain (c := c) with ⟨same, mark, slash, _⟩ | ⟨e, es, same, _, rest⟩
  · rw [same]
    exact run_plain (by simpa using ⟨mark, slash⟩)
  · rw [same]
    change run scan (.inString d) es = some (.inString d)
    exact run_plain fun d inside => ⟨(rest d inside).1, (rest d inside).2.1⟩

theorem quote_closed (s : String) : Closed (quote s) := by
  intro d
  have body : ∀ cs : List Char, run scan (.inString d) (cs.flatMap escape) = some (.inString d) := by
    intro cs
    induction cs with
    | nil => rfl
    | cons c cs ih => rw [List.flatMap_cons, run_append, run_escape, Option.bind_some, ih]
  rw [quote, run_cons]
  change run scan (.inString d) _ = _
  rw [run_append, body, Option.bind_some]
  rfl

theorem flatMap_escape_injective {cs ds : List Char} {x y : List Char}
    (same : cs.flatMap escape ++ '"' :: x = ds.flatMap escape ++ '"' :: y) : cs = ds := by
  have stop : ∀ (c : Char) (cs x y : List Char), '"' :: x ≠ (c :: cs).flatMap escape ++ y := by
    intro c cs x y equal
    have read := congrArg unescape equal
    rw [List.flatMap_cons, List.append_assoc, unescape_escape] at read
    cases read
  induction cs generalizing ds with
  | nil =>
    cases ds with
    | nil => rfl
    | cons d ds => exact absurd same (stop d ds x _)
  | cons c cs ih =>
    cases ds with
    | nil => exact absurd same.symm (stop c cs y _)
    | cons d ds =>
      have read := congrArg unescape same
      rw [List.flatMap_cons, List.flatMap_cons, List.append_assoc, List.append_assoc, unescape_escape, unescape_escape,
        Option.some.injEq, Prod.mk.injEq] at read
      rw [read.1, ih read.2]

theorem quote_injective {s t : String} (same : quote s = quote t) : s = t := by
  rw [quote, quote, List.cons.injEq] at same
  exact String.toList_injective (flatMap_escape_injective same.2)

/-- A character that is neither bracket, separator, quote nor line break. -/
def isOrdinary (c : Char) : Bool := ! ['"', '\\', '{', '[', '}', ']', ',', ':', '\n'].contains c

theorem ordinary_closed {t : List Char} (ordinary : ∀ c ∈ t, isOrdinary c = true) : Closed t := by
  intro d
  induction t with
  | nil => rfl
  | cons c cs ih =>
    rw [List.forall_mem_cons] at ordinary
    have other := ordinary.1
    simp only [isOrdinary, List.contains_cons, List.contains_nil, Bool.not_eq_true', Bool.or_eq_false_iff, beq_eq_false_iff_ne] at other
    have stays : scan (.outside d) c = some (.outside d) := by
      simp [scan, other]
    rw [run_cons, stays, Option.bind_some, ih ordinary.2]

theorem digit_ordinary {c : Char} (digit : c.isDigit = true) : isOrdinary c = true := by
  have word : CharText.isWord c = true := by simp [CharText.isWord, Char.isAlphanum, digit]
  apply CharText.ascii_forall (p := fun c => CharText.isWord c = true → isOrdinary c = true) _
    (CharText.isWord_ascii word) word
  decide

theorem natText_ordinary (n : ℕ) : ∀ c ∈ (toString n).toList, isOrdinary c = true := by
  intro c inside
  rw [Nat.toString_eq_repr, Nat.toList_repr] at inside
  exact digit_ordinary (Nat.isDigit_of_mem_toDigits (by decide) (by decide) inside)

theorem fraction_ordinary (den : ℕ) (n rem : ℕ) (less : rem < den) :
    ∀ c ∈ JsValue.fractionDigits den n rem, isOrdinary c = true := by
  have digits : ∀ n < 10, isOrdinary (Nat.digitChar n) = true := by decide
  induction n generalizing rem with
  | zero => simp [JsValue.fractionDigits]
  | succ n ih =>
    unfold JsValue.fractionDigits
    split
    · simp
    · rw [List.forall_mem_cons]
      refine ⟨digits _ ?_, ih _ (Nat.mod_lt _ (by omega))⟩
      rw [Nat.div_lt_iff_lt_mul (by omega)]
      omega

theorem number_ordinary (q : ℚ) : ∀ c ∈ (JsValue.numberText q).toList, isOrdinary c = true := by
  have sign : ∀ c ∈ (if q < 0 then "-" else "").toList, isOrdinary c = true := by
    rw [← List.all_eq_true]
    split <;> decide
  unfold JsValue.numberText
  dsimp only
  intro c inside
  split at inside
  · rw [String.toList_append, List.mem_append] at inside
    exact inside.elim (sign c) (natText_ordinary _ c)
  · rw [String.toList_append, String.toList_append, String.toList_append, List.mem_append, List.mem_append, List.mem_append] at inside
    rcases inside with ((first | whole) | point) | fraction
    · exact sign c first
    · exact natText_ordinary _ c whole
    · exact List.all_eq_true.mp (by decide) c point
    · rw [String.toList_ofList] at fraction
      exact fraction_ordinary _ _ _ (Nat.mod_lt _ q.den_pos) c fraction

theorem run_separated {texts : List (List Char)} {d : ℕ}
    (closed : ∀ t ∈ texts, run scan (.outside (d + 1)) t = some (.outside (d + 1))) :
    run scan (.outside (d + 1)) ([','].intercalate texts) = some (.outside (d + 1)) := by
  induction texts with
  | nil => rfl
  | cons t texts ih =>
    rw [List.forall_mem_cons] at closed
    cases texts with
    | nil =>
      rw [List.intercalate_singleton]
      exact closed.1
    | cons u us =>
      rw [List.intercalate_cons_cons, List.append_assoc, run_append, closed.1, Option.bind_some, List.singleton_append,
        run_cons]
      exact ih closed.2

theorem ownOrder_mem {α : Type} {entries : List (String × α)} {e : String × α} :
    e ∈ ownOrder entries ↔ e ∈ entries := by
  simp only [ownOrder, List.mem_append, List.mem_insertionSort, List.mem_filter]
  cases arrayIndex e.1 <;> simp

/-- A text that reads back to where it began and stays on one line. -/
structure Tidy (t : List Char) : Prop where
  closed : Closed t
  line : '\n' ∉ t

theorem ordinary_tidy {t : List Char} (ordinary : ∀ c ∈ t, isOrdinary c = true) : Tidy t :=
  ⟨ordinary_closed ordinary, fun inside => absurd (ordinary _ inside) (by decide)⟩

theorem quote_line (s : String) : '\n' ∉ quote s := by
  have escaped : ∀ c, '\n' ∉ escape c := by
    intro c inside
    rcases escape_plain (c := c) with ⟨same, _, _, control⟩ | ⟨e, es, same, control, rest⟩
    · rw [same, List.mem_singleton] at inside
      exact control (inside ▸ by decide)
    · rw [same, List.mem_cons, List.mem_cons] at inside
      rcases inside with impossible | own | later
      · exact absurd impossible (by decide)
      · exact control (own ▸ by decide)
      · exact (rest _ later).2.2 (by decide)
  intro inside
  rw [quote, List.mem_cons, List.mem_append, List.mem_flatMap, List.mem_singleton] at inside
  rcases inside with impossible | ⟨c, _, own⟩ | impossible
  · exact absurd impossible (by decide)
  · exact escaped c own
  · exact absurd impossible (by decide)

theorem array_tidy {texts : List (List Char)} (tidy : ∀ t ∈ texts, Tidy t) :
    Tidy ('[' :: ([','].intercalate texts ++ [']'])) := by
  constructor
  · intro d
    rw [run_cons]
    change run scan (.outside (d + 1)) _ = _
    rw [run_append, run_separated fun t inside => (tidy t inside).closed (d + 1)]
    rfl
  · intro inside
    rw [List.mem_cons, List.mem_append, List.mem_singleton] at inside
    rcases inside with impossible | own | impossible
    · exact absurd impossible (by decide)
    · rcases CharText.mem_intercalate own with impossible | ⟨t, inTexts, line⟩
      · exact absurd impossible (by decide)
      · exact (tidy t inTexts).line line
    · exact absurd impossible (by decide)

theorem object_tidy {pairs : List (String × List Char)} (tidy : ∀ p ∈ pairs, Tidy p.2) : Tidy (objectText pairs) := by
  have member : ∀ t ∈ (ownOrder pairs).map fun p => quote p.1 ++ ':' :: p.2,
      ∃ p ∈ pairs, quote p.1 ++ ':' :: p.2 = t := by
    intro t inside
    obtain ⟨p, own, same⟩ := List.mem_map.mp inside
    exact ⟨p, ownOrder_mem.mp own, same⟩
  constructor
  · intro d
    rw [objectText, run_cons]
    change run scan (.outside (d + 1)) _ = _
    rw [run_append, run_separated]
    · rfl
    · intro t inside
      obtain ⟨p, own, rfl⟩ := member t inside
      rw [run_append, quote_closed p.1 (d + 1), Option.bind_some, run_cons]
      exact (tidy p own).closed (d + 1)
  · intro inside
    rw [objectText, List.mem_cons, List.mem_append, List.mem_singleton] at inside
    rcases inside with impossible | own | impossible
    · exact absurd impossible (by decide)
    · rcases CharText.mem_intercalate own with impossible | ⟨t, inTexts, line⟩
      · exact absurd impossible (by decide)
      · obtain ⟨p, inPairs, rfl⟩ := member t inTexts
        rw [List.mem_append, List.mem_cons] at line
        rcases line with key | impossible | value
        · exact quote_line p.1 key
        · exact absurd impossible (by decide)
        · exact (tidy p inPairs).line value
    · exact absurd impossible (by decide)

theorem word_tidy : Tidy "null".toList ∧ Tidy "true".toList ∧ Tidy "false".toList :=
  ⟨ordinary_tidy (List.all_eq_true.mp (by decide)), ordinary_tidy (List.all_eq_true.mp (by decide)),
    ordinary_tidy (List.all_eq_true.mp (by decide))⟩

mutual

theorem stringify_tidy : ∀ (v : JsValue) (t : List Char), stringify v = some t → Tidy t
  | .undefined, t, written => by cases written
  | .null, t, written => by
    cases written
    exact word_tidy.1
  | .bool b, t, written => by
    cases written
    cases b
    · exact word_tidy.2.2
    · exact word_tidy.2.1
  | .num q, t, written => by
    cases written
    exact ordinary_tidy (number_ordinary q)
  | .str s, t, written => by
    cases written
    exact ⟨quote_closed s, quote_line s⟩
  | .arr vs, t, written => by
    rw [stringify, Option.some.injEq] at written
    exact written ▸ array_tidy (elementTexts_tidy vs)
  | .obj fields, t, written => by
    rw [stringify, Option.some.injEq] at written
    exact written ▸ object_tidy (fieldTexts_tidy fields)

theorem elementTexts_tidy : ∀ (vs : List JsValue), ∀ t ∈ elementTexts vs, Tidy t
  | [], t, inside => by cases inside
  | v :: vs, t, inside => by
    rw [elementTexts, List.mem_cons] at inside
    rcases inside with rfl | later
    · cases written : stringify v with
      | none => exact word_tidy.1
      | some t => exact stringify_tidy v t written
    · exact elementTexts_tidy vs t later

theorem fieldTexts_tidy : ∀ (fields : List (String × JsValue)), ∀ p ∈ fieldTexts fields, Tidy p.2
  | [], p, inside => by cases inside
  | (k, v) :: fields, p, inside => by
    cases written : stringify v with
    | none =>
      simp only [fieldTexts, written] at inside
      exact fieldTexts_tidy fields p inside
    | some t =>
      simp only [fieldTexts, written, List.mem_cons] at inside
      rcases inside with rfl | later
      · exact stringify_tidy v t written
      · exact fieldTexts_tidy fields p later

end

theorem fields_cons (p : String × List Char) (ps : List (String × List Char)) (x : List Char) :
    [','].intercalate ((p :: ps).map fun p => quote p.1 ++ ':' :: p.2) ++ '}' :: x =
      quote p.1 ++ ':' :: (p.2 ++ match ps with
        | [] => '}' :: x
        | _ :: _ => ',' :: ([','].intercalate (ps.map fun p => quote p.1 ++ ':' :: p.2) ++ '}' :: x)) := by
  cases ps with
  | nil => simp
  | cons q qs =>
    rw [List.map_cons, List.map_cons, List.intercalate_cons_cons]
    simp

theorem fields_unique {ps qs : List (String × List Char)} {x y : List Char} (left : ∀ p ∈ ps, Closed p.2)
    (right : ∀ q ∈ qs, Closed q.2)
    (same : [','].intercalate (ps.map fun p => quote p.1 ++ ':' :: p.2) ++ '}' :: x =
      [','].intercalate (qs.map fun q => quote q.1 ++ ':' :: q.2) ++ '}' :: y) : ps = qs := by
  induction ps generalizing qs with
  | nil =>
    cases qs with
    | nil => rfl
    | cons q qs =>
      rw [fields_cons] at same
      exact absurd (congrArg List.head? same) (by simp [quote])
  | cons p ps ih =>
    rw [List.forall_mem_cons] at left
    cases qs with
    | nil =>
      rw [fields_cons] at same
      exact absurd (congrArg List.head? same) (by simp [quote])
    | cons q qs =>
      rw [List.forall_mem_cons] at right
      rw [fields_cons, fields_cons] at same
      obtain ⟨keys, _, values⟩ := closed_unique (quote_closed p.1) (quote_closed q.1) (by decide) (by decide) same
      have key := quote_injective keys
      cases ps with
      | nil =>
        cases qs with
        | nil =>
          obtain ⟨value, _, _⟩ := closed_unique left.1 right.1 (by decide) (by decide) values
          rw [Prod.ext key value]
        | cons r rs =>
          obtain ⟨_, impossible, _⟩ := closed_unique left.1 right.1 (by decide) (by decide) values
          exact absurd impossible (by decide)
      | cons r rs =>
        cases qs with
        | nil =>
          obtain ⟨_, impossible, _⟩ := closed_unique left.1 right.1 (by decide) (by decide) values
          exact absurd impossible (by decide)
        | cons u us =>
          obtain ⟨value, _, rest⟩ := closed_unique left.1 right.1 (by decide) (by decide) values
          rw [Prod.ext key value, ih left.2 right.2 rest]

theorem objectText_injective {ps qs : List (String × List Char)} (left : ∀ p ∈ ps, Closed p.2)
    (right : ∀ q ∈ qs, Closed q.2) (same : objectText ps = objectText qs) : ownOrder ps = ownOrder qs := by
  rw [objectText, objectText, List.cons.injEq] at same
  exact fields_unique (fun p inside => left p (ownOrder_mem.mp inside)) (fun q inside => right q (ownOrder_mem.mp inside))
    same.2

end DataFabric.JsonTexts
