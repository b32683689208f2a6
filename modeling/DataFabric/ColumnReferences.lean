import DataFabric.LexerAgreement
import DataFabric.TriggerAgreement

set_option autoImplicit false

/-!
# Column names inside expressions

The columns of a table are quoted in its expressions, and qualified in the bodies of its triggers, by one
replacement of words in the text for each column.
-/
namespace DataFabric.ColumnReferences
open CharText JsValues TenantIdentifiers PgLexer DdlExpressions

def boundary (a b : Option Char) : Bool := a.any isWord != b.any isWord

def clearBefore (c : Option Char) : Bool := c.all fun d => !(isWord d || d = '.' || d = '"')

def clearAfter (c : Option Char) : Bool := c.all fun d => !(isWord d || d = '"')

/-- The expression of a name matches at `cs`, whose character before is `prev`. -/
def occursAt (name : List Char) (prev : Option Char) (cs : List Char) : Bool :=
  let after := (cs.drop name.length).head?
  clearBefore prev && boundary prev cs.head? && name.isPrefixOf cs && boundary name.getLast? after && clearAfter after

/-- `replace` with the flag `g`; `skip` characters of a match are still to be left out. -/
def replaceFrom (name fresh : List Char) : ℕ → Option Char → List Char → List Char
  | _, _, [] => []
  | skip + 1, _, c :: cs => replaceFrom name fresh skip (some c) cs
  | 0, prev, c :: cs =>
    if occursAt name prev (c :: cs) then fresh ++ replaceFrom name fresh (name.length - 1) (some c) cs
    else c :: replaceFrom name fresh 0 (some c) cs

def byLength (names : List String) : List String := names.mergeSort fun a b => decide (b.toList.length ≤ a.toList.length)

/-- One replacement for each column; a name that is no identifier is refused. -/
def replaceColumns (lead : String) (expr : String) (columns : List String) : Except FabricError String :=
  (byLength columns).foldlM
    (fun out name => (quoteIdent (.str name) "column name").map fun q =>
      String.ofList (replaceFrom name.toList (lead ++ q).toList 0 none out.toList))
    expr

/-- Qualify bare column references in a default expression for trigger bodies. -/
def qualifyColumnsForTrigger (expr : String) (columns : List String) : Except FabricError String :=
  replaceColumns "NEW." expr columns

def quoteColumnsForTable (expr : String) (columns : List String) : Except FabricError String :=
  replaceColumns "" expr columns

def chars : Tok → List Char
  | .ws c | .sym c => [c]
  | .word w => w.toList
  | .qident name => '"' :: name.toList ++ ['"']
  | .str text | .num text => text.toList

def render (toks : List Tok) : List Char := toks.flatMap chars

/-- Whether PostgreSQL takes the word between the tokens for a reference to the column of that name. -/
abbrev Reading := List Tok → String → List Tok → Bool

/-- A reference to a column quoted, after the lead; every other token as it stands. -/
def told (lead : String) (names : List String) (refers : Reading) (before : List Tok) (t : Tok) (after : List Tok) :
    List Char :=
  match t with
  | .word w => if w ∈ names ∧ refers before w after = true then lead.toList ++ chars (.qident w) else w.toList
  | t => chars t

def referred (lead : String) (names : List String) (refers : Reading) : List Tok → List Tok → List Char
  | _, [] => []
  | before, t :: ts => told lead names refers before t ts ++ referred lead names refers (before ++ [t]) ts

def passes (prev next : Option Tok) : Bool :=
  (match prev with
    | some (.sym c) => decide (c ≠ '.')
    | some (.qident _) | some (.num _) => false
    | _ => true) &&
  match next with
    | some (.qident _) => false
    | _ => true

/-- No column's name stands in a literal as a word, and the words that are replaced are the references. -/
structure Plain (names : List String) (refers : Reading) (toks : List Tok) : Prop where
  literals : ∀ s, .str s ∈ toks → ∀ n ∈ names, ∀ pre post, s.toList = pre ++ post →
    occursAt n.toList pre.getLast? post = false
  words : ∀ before w after, toks = before ++ .word w :: after → w ∈ names →
    passes before.getLast? after.head? = refers before w after

/-- A word of one of the names is replaced. -/
def Replaces (names : List String) (toks : List Tok) : Prop :=
  ∃ before w after, toks = before ++ .word w :: after ∧ w ∈ names ∧ passes before.getLast? after.head? = true

/-- When a column named NEW has its turn, no `NEW.` has been put in yet. -/
def NewFirst (columns : List String) (toks : List Tok) : Prop :=
  ∀ sooner later, byLength columns = sooner ++ "NEW" :: later → ¬ Replaces sooner toks

section Scan
variable {name fresh xs ys : List Char} {p : Option Char}

def Quiet (name : List Char) (p : Option Char) (xs ys : List Char) : Prop :=
  ∀ pre c post, xs = pre ++ c :: post → occursAt name (pre.getLast?.or p) (c :: post ++ ys) = false

theorem replaceFrom_skip (k : ℕ) (h : k ≤ xs.length) :
    replaceFrom name fresh k p (xs ++ ys) =
      replaceFrom name fresh 0 ((xs.take k).getLast?.or p) (xs.drop k ++ ys) := by
  induction k generalizing p xs with
  | zero => rfl
  | succ k ih =>
    cases xs with
    | nil => simp at h
    | cons c cs =>
      rw [List.cons_append, replaceFrom, ih (by simpa using h), List.take_succ_cons, List.drop_succ_cons,
        List.getLast?_cons]
      cases (cs.take k).getLast? <;> rfl

theorem replaceFrom_quiet (quiet : Quiet name p xs ys) :
    replaceFrom name fresh 0 p (xs ++ ys) = xs ++ replaceFrom name fresh 0 (xs.getLast?.or p) ys := by
  induction xs generalizing p with
  | nil => rfl
  | cons c cs ih =>
    have here := quiet [] c cs rfl
    have later : Quiet name (some c) cs ys := by
      intro pre d post same
      have own := quiet (c :: pre) d post (by rw [same]; rfl)
      rw [List.getLast?_cons] at own
      cases last : pre.getLast? with
      | none =>
        rw [last] at own
        exact own
      | some e =>
        rw [last] at own
        exact own
    rw [List.cons_append, replaceFrom, if_neg (by rw [← List.cons_append]; simpa using here), ih later, List.cons_append,
      List.getLast?_cons]
    cases cs.getLast? <;> rfl

theorem replaceFrom_hit (filled : name ≠ []) (hit : occursAt name p (name ++ ys) = true) :
    replaceFrom name fresh 0 p (name ++ ys) = fresh ++ replaceFrom name fresh 0 name.getLast? ys := by
  cases name with
  | nil => exact absurd rfl filled
  | cons a as =>
    rw [List.cons_append] at hit ⊢
    rw [replaceFrom, if_pos hit, List.length_cons, Nat.add_sub_cancel,
      replaceFrom_skip as.length le_rfl, List.take_length, List.drop_length, List.nil_append, List.getLast?_cons]
    cases as.getLast? <;> rfl

end Scan

section Occurrence
variable {name ys cs : List Char} {p : Option Char} {c : Char}

theorem occursAt_start (h : occursAt name p (c :: cs) = true) :
    clearBefore p = true ∧ name.isPrefixOf (c :: cs) = true ∧ clearAfter ((c :: cs).drop name.length).head? = true := by
  rw [occursAt, Bool.and_eq_true, Bool.and_eq_true, Bool.and_eq_true, Bool.and_eq_true] at h
  exact ⟨h.1.1.1.1, h.1.1.2, h.2⟩

structure IsName (name : List Char) : Prop where
  first : ∃ a as, name = a :: as ∧ isWordStart a = true
  word : ∀ c ∈ name, isWord c = true

theorem not_occurs_of_first (own : IsName name) (other : isWordStart c = false) : occursAt name p (c :: cs) = false := by
  rw [← Bool.not_eq_true]
  intro hit
  obtain ⟨a, as, rfl, start⟩ := own.first
  have leading := List.isPrefixOf_iff_prefix.mp (occursAt_start hit).2.1
  rw [List.cons_prefix_cons] at leading
  rw [leading.1, other] at start
  cases start

theorem not_occurs_of_prev {d : Char} (blocked : isWord d = true ∨ d = '.' ∨ d = '"') :
    occursAt name (some d) (c :: cs) = false := by
  rw [← Bool.not_eq_true]
  intro hit
  have clear := (occursAt_start hit).1
  rcases blocked with word | rfl | rfl
  · simp [clearBefore, word] at clear
  · simp [clearBefore] at clear
  · simp [clearBefore] at clear

theorem clearBefore_word (clear : clearBefore p = true) : p.any isWord = false := by
  cases p with
  | none => rfl
  | some d =>
    cases word : isWord d with
    | false => simp [word]
    | true => simp [clearBefore, word] at clear

theorem name_of_prefix {w : List Char} (own : IsName name) (word : IsName w)
    (ends : ∀ d ∈ ys.head?, isWord d = false) (hit : occursAt name p (w ++ ys) = true) : name = w := by
  obtain ⟨a, as, rfl, _⟩ := word.first
  rw [List.cons_append] at hit
  have start := occursAt_start hit
  have leading : name <+: a :: as ++ ys := List.isPrefixOf_iff_prefix.mp start.2.1
  rcases List.prefix_or_prefix_of_prefix leading (List.prefix_append (a :: as) ys) with ⟨more, rest⟩ | ⟨more, rest⟩
  · cases more with
    | nil => simpa using rest
    | cons d more =>
      have after := start.2.2
      rw [← List.cons_append, ← rest, List.append_assoc, List.drop_left] at after
      have inside : isWord d = true := word.word d (by rw [← rest]; simp)
      simp [clearAfter, inside] at after
  · cases more with
    | nil => simpa using rest.symm
    | cons d more =>
      rw [← rest, List.prefix_append_right_inj] at leading
      obtain ⟨tail, same⟩ := leading
      have inside : isWord d = true := own.word d (by rw [← rest]; simp)
      have outside := ends d (by rw [← same]; rfl)
      rw [inside] at outside
      cases outside

theorem occursAt_word {w : List Char} (own : IsName name) (word : IsName w)
    (ends : ∀ d ∈ ys.head?, isWord d = false) :
    occursAt name p (w ++ ys) = true ↔ name = w ∧ clearBefore p = true ∧ clearAfter ys.head? = true := by
  constructor
  · intro hit
    obtain rfl := name_of_prefix own word ends hit
    obtain ⟨a, as, rfl, _⟩ := word.first
    rw [List.cons_append] at hit
    have start := occursAt_start hit
    refine ⟨rfl, start.1, ?_⟩
    have after := start.2.2
    rwa [← List.cons_append, List.drop_left] at after
  · rintro ⟨rfl, before, after⟩
    obtain ⟨a, as, rfl, start⟩ := own.first
    have left : boundary p (some a) = true := by
      rw [boundary, clearBefore_word before, Option.any_some, own.word a List.mem_cons_self]
      rfl
    have right : boundary (a :: as).getLast? ys.head? = true := by
      have outside : ys.head?.any isWord = false := by
        cases first : ys.head? with
        | none => rfl
        | some d => exact ends d first
      have inside : (a :: as).getLast?.any isWord = true := by
        cases last : (a :: as).getLast? with
        | none => simp at last
        | some d => exact own.word d (List.mem_of_getLast? last)
      rw [boundary, inside, outside]
      rfl
    have prefixed : (a :: as).isPrefixOf (a :: as ++ ys) = true :=
      List.isPrefixOf_iff_prefix.mpr (List.prefix_append _ _)
    rw [occursAt]
    simp only [List.drop_left, before, after, right, prefixed, Bool.and_true, Bool.true_and]
    exact left

end Occurrence

section Tokens

/-- A number: what starts a word in it stands after a digit, and it ends with one. -/
structure IsNumber (xs : List Char) : Prop where
  last : ∃ d, xs.getLast? = some d ∧ d.isDigit = true
  inside : ∀ pre c post, xs = pre ++ c :: post → isWordStart c = true → ∃ d, pre.getLast? = some d ∧ d.isDigit = true

def TokenOk : Tok → Prop
  | .ws c => c = ' ' ∨ c = '\t'
  | .sym c => isWord c = false ∧ c ≠ '"'
  | .word w => IsName w.toList
  | .qident name => IsName name.toList
  | .str text => ∃ body, text.toList = '\'' :: body ++ ['\'']
  | .num text => (text.toList.head?.any isWord = true) ∧ IsNumber text.toList

/-- Words are apart from each other and from word characters. -/
def Laid : Option Tok → List Tok → Prop
  | _, [] => True
  | prev, t :: ts =>
    TokenOk t ∧
      (∀ w, t = .word w → (∀ v, prev ≠ some (.word v)) ∧ ∀ d ∈ (render ts).head?, isWord d = false) ∧
      Laid (some t) ts

theorem identRe_name {s : String} (h : identRe s = true) : IsName s.toList := by
  refine ⟨?_, TriggerAgreement.identRe_isWord h⟩
  unfold identRe matchesWord at h
  cases text : s.toList with
  | nil =>
    rw [text] at h
    cases h
  | cons a as =>
    rw [text, Bool.and_eq_true, Bool.and_eq_true] at h
    exact ⟨a, as, rfl, h.1.1⟩

theorem digit_not_start {c : Char} (digit : c.isDigit = true) : isWordStart c = false := by
  rw [← Bool.not_eq_true]
  intro start
  rw [isDigit_of_start start] at digit
  cases digit

theorem last_digit (xs : List Char) {ys : List Char} (filled : ys ≠ []) (digits : ∀ d ∈ ys, d.isDigit = true) :
    ∃ d, (xs ++ ys).getLast? = some d ∧ d.isDigit = true := by
  rw [List.getLast?_append_of_ne_nil _ filled, List.getLast?_eq_some_getLast filled]
  exact ⟨_, rfl, digits _ (List.getLast_mem filled)⟩

theorem start_unique {xs rest pre post : List Char} {c e : Char} (left : ∀ d ∈ xs, isWordStart d = false)
    (right : ∀ d ∈ rest, isWordStart d = false) (same : xs ++ e :: rest = pre ++ c :: post)
    (start : isWordStart c = true) : pre = xs := by
  rcases List.append_eq_append_iff.mp same with ⟨more, rfl, tail⟩ | ⟨more, rfl, tail⟩
  · cases more with
    | nil => exact List.append_nil xs
    | cons d more =>
      have inside : c ∈ rest := by
        rw [(List.cons.inj tail).2]
        simp
      rw [right c inside] at start
      cases start
  · cases more with
    | nil => exact (List.append_nil pre).symm
    | cons d more =>
      have inside : c ∈ pre ++ d :: more := by
        rw [(List.cons.inj tail).1]
        simp
      rw [left c inside] at start
      cases start

structure IsDecimal (xs : List Char) : Prop where
  last : ∃ d, xs.getLast? = some d ∧ d.isDigit = true
  plain : ∀ d ∈ xs, isWordStart d = false

theorem isDecimal_digits {c : Char} {ds : List Char} (first : c.isDigit = true) (digits : ∀ d ∈ ds, d.isDigit = true) :
    IsDecimal (c :: ds) := by
  have all : ∀ d ∈ c :: ds, d.isDigit = true := List.forall_mem_cons.mpr ⟨first, digits⟩
  exact ⟨last_digit [] (List.cons_ne_nil c ds) all, fun d hd => digit_not_start (all d hd)⟩

theorem isDecimal_fraction {xs ds : List Char} {d : Char} (whole : IsDecimal xs) (first : d.isDigit = true)
    (digits : ∀ e ∈ ds, e.isDigit = true) : IsDecimal (xs ++ '.' :: d :: ds) := by
  have own := isDecimal_digits first digits
  refine ⟨?_, fun e he => ?_⟩
  · rw [List.getLast?_append_of_ne_nil _ (List.cons_ne_nil _ _), List.getLast?_cons_cons]
    exact own.last
  · rcases List.mem_append.mp he with left | right
    · exact whole.plain e left
    · rcases List.mem_cons.mp right with rfl | inside
      · rfl
      · exact own.plain e inside

theorem isNumber_decimal {xs : List Char} (h : IsDecimal xs) : IsNumber xs := by
  refine ⟨h.last, fun pre c post same start => ?_⟩
  rw [h.plain c (by rw [same]; simp)] at start
  cases start

theorem isNumber_power {xs sign ds : List Char} {e d : Char} (whole : IsDecimal xs)
    (signs : ∀ s ∈ sign, s = '+' ∨ s = '-') (first : d.isDigit = true) (digits : ∀ e ∈ ds, e.isDigit = true) :
    IsNumber (xs ++ e :: (sign ++ d :: ds)) := by
  have own := isDecimal_digits first digits
  have right : ∀ c ∈ sign ++ d :: ds, isWordStart c = false := by
    intro c hc
    rcases List.mem_append.mp hc with inSign | inDigits
    · rcases signs c inSign with rfl | rfl
      · rfl
      · rfl
    · exact own.plain c inDigits
  refine ⟨?_, fun pre c post same start => ?_⟩
  · rw [← List.cons_append, ← List.append_assoc, List.getLast?_append_of_ne_nil _ (List.cons_ne_nil _ _)]
    exact own.last
  · rw [start_unique whole.plain right same start]
    exact whole.last

theorem fractionRun_split (xs : List Char) : (SqlFragments.fractionRun xs).1 ++ (SqlFragments.fractionRun xs).2 = xs ∧
    ((SqlFragments.fractionRun xs).1 = [] ∨ ∃ d ds, (SqlFragments.fractionRun xs).1 = '.' :: d :: ds ∧
      d.isDigit = true ∧ ∀ e ∈ ds, e.isDigit = true) := by
  unfold SqlFragments.fractionRun
  split
  · rename_i d cs
    split_ifs with digit
    · refine ⟨?_, .inr ⟨d, _, rfl, digit, fun e he => List.mem_takeWhile_imp he⟩⟩
      simp [List.takeWhile_append_dropWhile]
    · exact ⟨rfl, .inl rfl⟩
  · exact ⟨rfl, .inl rfl⟩

theorem exponentRun_split (xs : List Char) : (exponentRun xs).1 ++ (exponentRun xs).2 = xs ∧
    ((exponentRun xs).1 = [] ∨ ∃ e sign d ds, (exponentRun xs).1 = e :: (sign ++ d :: ds) ∧
      (∀ s ∈ sign, s = '+' ∨ s = '-') ∧ d.isDigit = true ∧ ∀ e ∈ ds, e.isDigit = true) := by
  unfold exponentRun
  split
  · rename_i e rest
    dsimp only
    split_ifs with letter power
    · have whole := List.takeWhile_append_dropWhile (p := fun c => decide (c = '+' ∨ c = '-')) (l := rest)
      rw [LexerAgreement.drop_takeWhile] at power ⊢
      refine ⟨?_, ?_⟩
      · rw [List.append_assoc, List.takeWhile_append_dropWhile, List.cons_append, whole]
      · cases digits : rest.dropWhile fun c => decide (c = '+' ∨ c = '-') with
        | nil =>
          rw [digits] at power
          exact absurd power.2 (by decide)
        | cons d more =>
          rw [digits] at power
          have digit : d.isDigit = true := power.2
          refine .inr ⟨e, rest.takeWhile fun c => decide (c = '+' ∨ c = '-'), d, more.takeWhile Char.isDigit, ?_, fun s hs => ?_, digit,
            fun e he => List.mem_takeWhile_imp he⟩
          · rw [List.takeWhile_cons_of_pos digit, List.cons_append]
          · simpa using List.mem_takeWhile_imp (p := fun c => decide (c = '+' ∨ c = '-')) hs
    · exact ⟨rfl, .inl rfl⟩
    · exact ⟨rfl, .inl rfl⟩
  · exact ⟨rfl, .inl rfl⟩

theorem scanned_number {c : Char} (cs : List Char) (digit : c.isDigit = true) :
    IsNumber (c :: cs.takeWhile Char.isDigit ++ (SqlFragments.fractionRun (cs.dropWhile Char.isDigit)).1 ++
      (exponentRun (SqlFragments.fractionRun (cs.dropWhile Char.isDigit)).2).1) := by
  have whole := isDecimal_digits digit fun (e : Char) (he : e ∈ cs.takeWhile Char.isDigit) => List.mem_takeWhile_imp he
  have decimal : IsDecimal (c :: cs.takeWhile Char.isDigit ++
      (SqlFragments.fractionRun (cs.dropWhile Char.isDigit)).1) := by
    rcases (fractionRun_split (cs.dropWhile Char.isDigit)).2 with none | ⟨d, ds, some, first, digits⟩
    · rw [none, List.append_nil]
      exact whole
    · rw [some]
      exact isDecimal_fraction whole first digits
  rcases (exponentRun_split (SqlFragments.fractionRun (cs.dropWhile Char.isDigit)).2).2 with
    none | ⟨e, sign, d, ds, some, signs, first, digits⟩
  · rw [none, List.append_nil]
    exact isNumber_decimal decimal
  · rw [some]
    exact isNumber_power decimal signs first digits

theorem quotedBody_split {q : Char} {cs : List Char} {r : List Char × List Char} (h : quotedBody q cs = some r) :
    cs = r.1 ++ q :: r.2 := by
  induction cs using quotedBody.induct q generalizing r with
  | case1 => cases h
  | case2 =>
    simp only [quotedBody, if_true] at h
    cases h
    rfl
  | case3 rest ih =>
    simp only [quotedBody, if_true] at h
    obtain ⟨own, inside, rfl⟩ := Option.map_eq_some_iff.mp h
    rw [ih inside]
    rfl
  | case4 d rest apart =>
    simp only [quotedBody, if_true, if_neg apart] at h
    cases h
    rfl
  | case5 c cs apart ih =>
    rw [quotedBody_cons apart] at h
    obtain ⟨own, inside, rfl⟩ := Option.map_eq_some_iff.mp h
    rw [ih inside]
    rfl

theorem scanned_chars {prev : Option Tok} {c : Char} {cs rest : List Char} {t : Tok}
    (h : LexerAgreement.Scanned prev c cs t rest) : chars t ++ rest = c :: cs := by
  cases h with
  | blank => rfl
  | str quoted =>
    rw [chars, String.toList_ofList, quotedBody_split quoted]
    simp
  | qident inner => simp [chars]
  | num digit =>
    have fraction := (fractionRun_split (cs.dropWhile Char.isDigit)).1
    have power := (exponentRun_split (SqlFragments.fractionRun (cs.dropWhile Char.isDigit)).2).1
    rw [chars, String.toList_ofList, List.append_assoc, List.append_assoc, power, fraction, List.cons_append,
      List.takeWhile_append_dropWhile]
  | word start => simp [chars, List.takeWhile_append_dropWhile]
  | sym => rfl

theorem nextTok_named {fail : String → FabricError} {prev : Option Tok} {c : Char} {cs rest : List Char} {name : String}
    (h : nextTok fail prev c cs = .ok (.qident name, rest)) : identRe name = true := by
  have quote : c = '"' := by
    cases LexerAgreement.nextTok_scanned h
    rfl
  subst quote
  have own : nextTok fail prev '"' cs = qidentTok fail cs := rfl
  rw [own, qidentTok] at h
  split at h
  · cases h
  · split_ifs at h with plain
    cases h
    exact plain

theorem scanned_ok {prev : Option Tok} {c : Char} {cs rest : List Char} {t : Tok}
    (h : LexerAgreement.Scanned prev c cs t rest) (named : ∀ name, t = .qident name → identRe name = true) :
    TokenOk t := by
  cases h with
  | blank blank => exact blank
  | str quoted => exact ⟨_, String.toList_ofList⟩
  | qident inner => exact identRe_name (named _ rfl)
  | num digit =>
    rw [TokenOk, String.toList_ofList]
    exact ⟨by simp [isWord, Char.isAlphanum, digit], scanned_number _ digit⟩
  | word start =>
    rw [TokenOk, String.toList_ofList]
    refine ⟨⟨c, _, rfl, start⟩, fun d hd => ?_⟩
    rcases List.mem_cons.mp hd with rfl | inRun
    · exact isWord_of_start start
    · exact List.mem_takeWhile_imp inRun
  | sym symbol =>
    have plain : symbols.all (fun d => !isWord d && decide (d ≠ '"')) = true := rfl
    have own := List.all_eq_true.mp plain c symbol
    rw [Bool.and_eq_true, Bool.not_eq_true', decide_eq_true_iff] at own
    exact own

theorem tokenizeFrom_laid {fail : String → FabricError} {n : ℕ} {prev : Option Tok} {cs : List Char} {toks : List Tok}
    (h : tokenizeFrom fail n prev cs = .ok toks)
    (apart : ∀ v, prev = some (.word v) → ∀ d ∈ cs.head?, isWord d = false) : render toks = cs ∧ Laid prev toks := by
  induction n generalizing prev cs toks with
  | zero =>
    cases cs with
    | nil =>
      cases h
      exact ⟨rfl, trivial⟩
    | cons => cases h
  | succ n ih =>
    cases cs with
    | nil =>
      cases h
      exact ⟨rfl, trivial⟩
    | cons c cs =>
      rw [tokenizeFrom] at h
      obtain ⟨⟨t, rest⟩, step, h⟩ := ExceptRules.bind_ok h
      obtain ⟨later, more, h⟩ := ExceptRules.bind_ok h
      cases h
      have scanned := LexerAgreement.nextTok_scanned step
      have named : ∀ name, t = .qident name → identRe name = true := by
        rintro name rfl
        exact nextTok_named step
      have ends : ∀ v, t = .word v → ∀ d ∈ rest.head?, isWord d = false := by
        rintro v rfl
        cases scanned
        intro d hd
        have head := List.head?_dropWhile_not isWord cs
        rw [hd] at head
        simpa using head
      have own := ih more fun v same => ends v (Option.some.inj same)
      refine ⟨?_, scanned_ok scanned named, ?_, own.2⟩
      · change chars t ++ render later = c :: cs
        rw [own.1]
        exact scanned_chars scanned
      · rintro w rfl
        rw [own.1]
        refine ⟨fun v same => ?_, ends w rfl⟩
        have outside := apart v same c rfl
        cases scanned with
        | word start =>
          rw [isWord_of_start start] at outside
          cases outside

end Tokens

section Replace
variable {lead : String} {names : List String} {name : String} {p : Option Char} {prev next : Option Tok} {ys : List Char}

def piece (lead : String) (names : List String) (prev : Option Tok) (t : Tok) (next : Option Tok) : List Char :=
  match t with
  | .word w => if w ∈ names ∧ passes prev next = true then lead.toList ++ chars (.qident w) else w.toList
  | t => chars t

/-- The text of the tokens, when the names have been replaced. -/
def replaced (lead : String) (names : List String) : Option Tok → List Tok → List Char
  | _, [] => []
  | prev, t :: ts => piece lead names prev t ts.head? ++ replaced lead names (some t) ts

/-- The character in front of the text is the last of the token in front, unless that is a word. -/
def Before (prev : Option Tok) (p : Option Char) : Prop :=
  match prev with
  | none => p = none
  | some t => TokenOk t ∧ ((∃ v, t = .word v) ∨ p = (chars t).getLast?)

theorem quiet_append {xs zs : List Char} {n : List Char} (left : Quiet n p xs (zs ++ ys))
    (right : Quiet n (xs.getLast?.or p) zs ys) : Quiet n p (xs ++ zs) ys := by
  intro pre c post same
  rcases List.append_eq_append_iff.mp same with ⟨more, rfl, tail⟩ | ⟨more, rfl, tail⟩
  · have own := right more c post tail
    cases last : more.getLast? with
    | none =>
      rw [List.getLast?_eq_none_iff] at last
      subst last
      simpa using own
    | some d =>
      rw [last] at own
      rw [List.getLast?_append, last]
      exact own
  · cases more with
    | nil =>
      rw [List.nil_append] at tail
      have own := right [] c post tail.symm
      simpa using own
    | cons d more =>
      obtain rfl : c = d := (List.cons.inj tail).1
      obtain rfl : post = more ++ zs := (List.cons.inj tail).2
      have own := left pre c more rfl
      rwa [← List.append_assoc] at own

theorem quiet_of_starts {xs n : List Char} (own : IsName n)
    (starts : ∀ pre c post, xs = pre ++ c :: post → isWordStart c = true →
      ∃ d, pre.getLast? = some d ∧ (isWord d = true ∨ d = '.' ∨ d = '"')) : Quiet n p xs ys := by
  intro pre c post same
  cases start : isWordStart c with
  | false => exact not_occurs_of_first own start
  | true =>
    obtain ⟨d, last, blocked⟩ := starts pre c post same start
    rw [last]
    exact not_occurs_of_prev blocked

theorem quiet_single {c : Char} {n : List Char} (own : IsName n) (plain : isWordStart c = false) : Quiet n p [c] ys := by
  apply quiet_of_starts own
  intro pre d post same start
  have inside : d ∈ [c] := by rw [same]; simp
  rw [List.mem_singleton.mp inside, plain] at start
  cases start

theorem quiet_quoted {w n : List Char} (own : IsName n) (word : ∀ c ∈ w, isWord c = true) :
    Quiet n p ('"' :: w ++ ['"']) ys := by
  apply quiet_of_starts own
  intro pre c post same start
  cases pre with
  | nil =>
    cases same
    exact absurd start (by decide)
  | cons d pre =>
    obtain rfl : '"' = d := (List.cons.inj same).1
    have tail : w ++ ['"'] = pre ++ c :: post := (List.cons.inj same).2
    rw [List.getLast?_cons]
    cases last : pre.getLast? with
    | none => exact ⟨'"', rfl, .inr (.inr rfl)⟩
    | some e =>
      have inside : e ∈ w ++ ['"'] := by
        rw [tail]
        exact List.mem_append_left _ (List.mem_of_getLast? last)
      rcases List.mem_append.mp inside with inWord | inQuote
      · exact ⟨e, rfl, .inl (word e inWord)⟩
      · exact ⟨e, rfl, .inr (.inr (List.mem_singleton.mp inQuote))⟩

theorem quiet_word {w n : List Char} (word : IsName w)
    (whole : occursAt n p (w ++ ys) = false) : Quiet n p w ys := by
  intro pre c post same
  cases last : pre.getLast? with
  | none =>
    rw [List.getLast?_eq_none_iff] at last
    subst last
    rw [same] at whole
    exact whole
  | some d =>
    have inside : isWord d = true := word.word d (by rw [same]; exact List.mem_append_left _ (List.mem_of_getLast? last))
    exact not_occurs_of_prev (.inl inside)

theorem passes_prev (before : Before prev p) (apart : ∀ v, prev ≠ some (.word v)) :
    clearBefore p = passes prev none := by
  cases prev with
  | none =>
    rw [Before] at before
    rw [before]
    rfl
  | some t =>
    obtain ⟨ok, ⟨v, rfl⟩ | rfl⟩ := before
    · exact absurd rfl (apart v)
    · cases t with
      | ws c => rcases ok with rfl | rfl <;> rfl
      | word w => exact absurd rfl (apart w)
      | qident name =>
        have last : (chars (.qident name)).getLast? = some '"' := by
          rw [chars, List.getLast?_append_of_ne_nil _ (List.cons_ne_nil _ _)]
          rfl
        rw [last]
        rfl
      | str text =>
        obtain ⟨body, whole⟩ := ok
        have last : (chars (.str text)).getLast? = some '\'' := by
          rw [chars, whole, List.getLast?_append_of_ne_nil _ (List.cons_ne_nil _ _)]
          rfl
        rw [last]
        rfl
      | num text =>
        obtain ⟨d, last, digit⟩ := ok.2.last
        have word : isWord d = true := by simp [isWord, Char.isAlphanum, digit]
        rw [chars, last, clearBefore, Option.all_some, word]
        rfl
      | sym c =>
        by_cases dot : c = '.'
        · subst dot
          rfl
        · have clear : clearBefore (chars (.sym c)).getLast? = true := by
            simp [clearBefore, chars, ok.1, ok.2, dot]
          rw [clear]
          simp [passes, dot]

theorem passes_split : passes prev next = (passes prev none && passes none next) := by
  simp [passes]

theorem passes_next (lead : String) (names : List String) {w : String} {ts : List Tok} (laid : Laid (some (.word w)) ts)
    (ends : ∀ d ∈ (render ts).head?, isWord d = false) :
    clearAfter (replaced lead names (some (.word w)) ts).head? = passes none ts.head? ∧
      ∀ d ∈ (replaced lead names (some (.word w)) ts).head?, isWord d = false := by
  cases ts with
  | nil => exact ⟨rfl, by simp [replaced]⟩
  | cons t ts =>
    obtain ⟨ok, apart, _⟩ := laid
    have first : ∀ {c : Char}, c ∈ (chars t).head? → isWord c = false := by
      intro c hc
      apply ends c
      rw [render, List.flatMap_cons, List.head?_append_of_ne_nil]
      · exact hc
      · intro empty
        rw [empty] at hc
        cases hc
    cases t with
    | ws c =>
      rcases ok with rfl | rfl
      · exact ⟨rfl, fun d hd => by cases hd; rfl⟩
      · exact ⟨rfl, fun d hd => by cases hd; rfl⟩
    | word v => exact absurd rfl ((apart v rfl).1 w)
    | qident name => exact ⟨rfl, fun d hd => by cases hd; rfl⟩
    | str text =>
      obtain ⟨body, whole⟩ := ok
      have head : (replaced lead names (some (.word w)) (.str text :: ts)).head? = some '\'' := by
        change (chars (.str text) ++ replaced lead names (some (.str text)) ts).head? = _
        rw [chars, whole]
        rfl
      rw [head]
      exact ⟨rfl, fun d hd => by cases hd; rfl⟩
    | num text =>
      have word := ok.1
      cases head : text.toList.head? with
      | none =>
        rw [head] at word
        cases word
      | some d =>
        rw [head, Option.any_some, first head] at word
        cases word
    | sym c =>
      have clear : clearAfter (some c) = true := by simp [clearAfter, ok.1, ok.2]
      exact ⟨clear, fun d hd => by cases hd; exact ok.1⟩

def Free (n : List Char) (s : String) : Prop :=
  ∀ pre c post, s.toList = pre ++ c :: post → pre ≠ [] → ∀ zs, occursAt n pre.getLast? (c :: post ++ zs) = false

theorem token_quiet {n : List Char} {t : Tok} (own : IsName n) (ok : TokenOk t) (plain : ∀ w, t ≠ .word w)
    (free : ∀ s, t = .str s → Free n s) : Quiet n p (chars t) ys := by
  cases t with
  | ws c =>
    refine quiet_single own ?_
    rcases ok with rfl | rfl
    · rfl
    · rfl
  | word w => exact absurd rfl (plain w)
  | qident name => exact quiet_quoted own ok.word
  | str text =>
    intro pre c post same
    obtain ⟨body, whole⟩ := ok
    cases pre with
    | nil =>
      have quote : c = '\'' := by
        rw [chars, whole] at same
        exact (List.cons.inj same).1.symm
      subst quote
      exact not_occurs_of_first own rfl
    | cons d pre =>
      have inside := free text rfl (d :: pre) c post same (List.cons_ne_nil d pre) ys
      rw [List.getLast?_cons] at inside ⊢
      exact inside
  | num text =>
    apply quiet_of_starts own
    intro pre c post same start
    obtain ⟨d, last, digit⟩ := ok.2.inside pre c post same start
    exact ⟨d, last, .inl (by simp [isWord, Char.isAlphanum, digit])⟩
  | sym c =>
    refine quiet_single own ?_
    rw [← Bool.not_eq_true]
    intro start
    have word := isWord_of_start start
    rw [ok.1] at word
    cases word

def LeadFree (lead name : String) : Prop := lead = "" ∨ lead = "NEW." ∧ name ≠ "NEW"

theorem quiet_lead (own : IsName name.toList) (free : LeadFree lead name) : Quiet name.toList p lead.toList ys := by
  rcases free with rfl | ⟨rfl, other⟩
  · intro pre c post same
    cases pre <;> cases same
  · have new : IsName ['N', 'E', 'W'] := ⟨⟨'N', ['E', 'W'], rfl, rfl⟩, List.all_eq_true.mp rfl⟩
    have dot : ∀ d ∈ (['.'] ++ ys).head?, isWord d = false := fun d hd => by cases hd; rfl
    change Quiet _ p (['N', 'E', 'W'] ++ ['.']) ys
    apply quiet_append
    · apply quiet_word new
      rw [← Bool.not_eq_true, occursAt_word own new dot]
      intro hit
      exact other (String.toList_inj.mp hit.1)
    · exact quiet_single own rfl

theorem chars_filled {t : Tok} (ok : TokenOk t) : ∃ d, (chars t).getLast? = some d := by
  have filled : chars t ≠ [] := by
    cases t with
    | ws c | sym c => exact List.cons_ne_nil c []
    | word w =>
      obtain ⟨a, as, whole, _⟩ := ok.first
      rw [chars, whole]
      exact List.cons_ne_nil a as
    | qident name => exact List.cons_ne_nil _ _
    | str text =>
      obtain ⟨body, whole⟩ := ok
      rw [chars, whole]
      exact List.cons_ne_nil _ _
    | num text =>
      intro empty
      rw [chars] at empty
      have first := ok.1
      rw [empty] at first
      cases first
  exact ⟨_, List.getLast?_eq_some_getLast filled⟩

theorem replaceFrom_word {w : String} (own : IsName name.toList) (word : IsName w.toList)
    (leadFree : w ∈ names ∧ passes prev next = true → LeadFree lead name)
    (ends : ∀ d ∈ ys.head?, isWord d = false)
    (passing : passes prev next = (clearBefore p && clearAfter ys.head?)) :
    ∃ q, replaceFrom name.toList (lead.toList ++ chars (.qident name)) 0 p
        (piece lead names prev (.word w) next ++ ys) =
      piece lead (name :: names) prev (.word w) next ++
        replaceFrom name.toList (lead.toList ++ chars (.qident name)) 0 q ys := by
  rw [piece, piece]
  by_cases member : w ∈ names ∧ passes prev next = true
  · have quiet : Quiet name.toList p (lead.toList ++ chars (.qident w)) ys :=
      quiet_append (quiet_lead own (leadFree member)) (quiet_quoted own word.word)
    rw [if_pos member, if_pos ⟨List.mem_cons_of_mem name member.1, member.2⟩]
    exact ⟨_, replaceFrom_quiet quiet⟩
  · rw [if_neg member]
    by_cases hit : name = w ∧ passes prev next = true
    · obtain ⟨rfl, passed⟩ := hit
      rw [if_pos ⟨List.mem_cons_self, passed⟩]
      rw [passing, Bool.and_eq_true] at passed
      obtain ⟨a, as, whole, _⟩ := own.first
      have filled : name.toList ≠ [] := by
        rw [whole]
        exact List.cons_ne_nil a as
      exact ⟨_, replaceFrom_hit filled ((occursAt_word own word ends).mpr ⟨rfl, passed⟩)⟩
    · have kept : ¬ (w ∈ name :: names ∧ passes prev next = true) := by
        rintro ⟨inside, passed⟩
        rcases List.mem_cons.mp inside with rfl | inNames
        · exact hit ⟨rfl, passed⟩
        · exact member ⟨inNames, passed⟩
      have quiet : Quiet name.toList p w.toList ys := by
        apply quiet_word word
        rw [← Bool.not_eq_true, occursAt_word own word ends, ← Bool.and_eq_true, ← passing, String.toList_inj]
        exact hit
      rw [if_neg kept]
      exact ⟨_, replaceFrom_quiet quiet⟩

theorem replaced_step (names : List String) {toks : List Tok} (laid : Laid prev toks) (before : Before prev p)
    (own : IsName name.toList)
    (leadFree : ∀ front w after, toks = front ++ .word w :: after → w ∈ names ∧ passes (front.getLast?.or prev) after.head? = true →
      LeadFree lead name)
    (free : ∀ s, .str s ∈ toks → Free name.toList s) :
    replaceFrom name.toList (lead.toList ++ chars (.qident name)) 0 p (replaced lead names prev toks) =
      replaced lead (name :: names) prev toks := by
  induction toks generalizing prev p with
  | nil => rfl
  | cons t ts ih =>
    obtain ⟨ok, apart, later⟩ := laid
    have freeLater : ∀ s, .str s ∈ ts → Free name.toList s := fun s hs => free s (List.mem_cons_of_mem t hs)
    have leadLater : ∀ front w after, ts = front ++ .word w :: after →
        w ∈ names ∧ passes (front.getLast?.or (some t)) after.head? = true → LeadFree lead name := by
      intro front w after same hit
      refine leadFree (t :: front) w after (by rw [same]; rfl) ?_
      rwa [List.getLast?_cons, Option.some_or, ← Option.or_some]
    by_cases word : ∃ w, t = .word w
    · obtain ⟨w, rfl⟩ := word
      obtain ⟨prevApart, ends⟩ := apart w rfl
      have next := passes_next lead names later ends
      have passing : passes prev ts.head? =
          (clearBefore p && clearAfter (replaced lead names (some (.word w)) ts).head?) := by
        rw [passes_split, ← passes_prev before prevApart, next.1]
      have leadHere : w ∈ names ∧ passes prev ts.head? = true → LeadFree lead name := leadFree [] w ts rfl
      obtain ⟨q, stepped⟩ := replaceFrom_word own ok leadHere next.2 passing
      rw [replaced, replaced, stepped, ih later ⟨ok, .inl ⟨w, rfl⟩⟩ leadLater freeLater]
    · have plain : ∀ w, t ≠ .word w := fun w same => word ⟨w, same⟩
      have same : ∀ ns, piece lead ns prev t ts.head? = chars t := by
        intro ns
        cases t with
        | word w => exact absurd rfl (plain w)
        | ws | qident | str | num | sym => rfl
      have quiet : Quiet name.toList p (chars t) (replaced lead names (some t) ts) :=
        token_quiet own ok plain fun s hs => free s (by rw [hs]; exact List.mem_cons_self)
      obtain ⟨d, last⟩ := chars_filled ok
      rw [replaced, replaced, same, same, replaceFrom_quiet quiet, last, Option.some_or]
      rw [ih later ⟨ok, .inr last.symm⟩ leadLater freeLater]

end Replace

section Columns
variable {lead text : String} {names columns : List String} {toks : List Tok} {refers : Reading}

theorem replaced_nil (prev : Option Tok) (toks : List Tok) : replaced lead [] prev toks = render toks := by
  induction toks generalizing prev with
  | nil => rfl
  | cons t ts ih =>
    have own : piece lead [] prev t ts.head? = chars t := by
      cases t with
      | word w =>
        rw [piece, if_neg fun h => List.not_mem_nil h.1]
        rfl
      | ws | qident | str | num | sym => rfl
    rw [replaced, own, ih, render, render, List.flatMap_cons]

theorem replaced_congr {names' : List String} (same : ∀ n, n ∈ names ↔ n ∈ names') (prev : Option Tok) (toks : List Tok) :
    replaced lead names prev toks = replaced lead names' prev toks := by
  induction toks generalizing prev with
  | nil => rfl
  | cons t ts ih =>
    have own : piece lead names prev t ts.head? = piece lead names' prev t ts.head? := by
      cases t with
      | word w =>
        rw [piece, piece]
        simp only [same]
      | ws | qident | str | num | sym => rfl
    rw [replaced, replaced, own, ih]

theorem foldlM_replaced (columns names : List String) (laid : Laid none toks) (named : ∀ n ∈ columns, identRe n = true)
    (leadFree : ∀ sooner n later, columns = sooner ++ n :: later → Replaces (sooner.reverse ++ names) toks → LeadFree lead n)
    (free : ∀ n ∈ columns, ∀ s, .str s ∈ toks → Free n.toList s) :
    columns.foldlM
      (fun out name => (quoteIdent (.str name) "column name").map fun q =>
        String.ofList (replaceFrom name.toList (lead ++ q).toList 0 none out.toList))
      (String.ofList (replaced lead names none toks)) =
    .ok (String.ofList (replaced lead (columns.reverse ++ names) none toks)) := by
  induction columns generalizing names with
  | nil => rfl
  | cons n ns ih =>
    have ident := named n List.mem_cons_self
    have step := replaced_step names laid rfl (identRe_name ident)
      (fun front w after same hit => leadFree [] n ns rfl ⟨front, w, after, same, hit.1, by rw [← hit.2, Option.or_none]⟩)
      (free n List.mem_cons_self)
    have leadLater : ∀ sooner m later, ns = sooner ++ m :: later → Replaces (sooner.reverse ++ n :: names) toks →
        LeadFree lead m := by
      intro sooner m later same hit
      refine leadFree (n :: sooner) m later (by rw [same]; rfl) ?_
      rwa [List.reverse_cons, List.append_assoc]
    have quote : quoteIdent (.str n) "column name" = .ok (quoted n) := by
      rw [quoteIdent, TriggerSites.assertIdent_str ident]
      rfl
    have fresh : (lead ++ quoted n).toList = lead.toList ++ chars (.qident n) := by
      simp [quoted, chars]
    rw [List.foldlM_cons, quote]
    change List.foldlM _ (String.ofList (replaceFrom n.toList (lead ++ quoted n).toList 0 none
      (String.ofList (replaced lead names none toks)).toList)) ns = _
    rw [String.toList_ofList, fresh, step, ih _ (fun m hm => named m (List.mem_cons_of_mem n hm))
      leadLater (fun m hm => free m (List.mem_cons_of_mem n hm)),
      List.reverse_cons, List.append_assoc]
    rfl

theorem replaced_referred (before ts : List Tok)
    (words : ∀ front w after, before ++ ts = front ++ .word w :: after → w ∈ names →
      passes front.getLast? after.head? = refers front w after) :
    replaced lead names before.getLast? ts = referred lead names refers before ts := by
  induction ts generalizing before with
  | nil => rfl
  | cons t ts ih =>
    have later := ih (before ++ [t]) fun front w after same => words front w after (by rw [← same]; simp)
    rw [List.getLast?_concat] at later
    have own : piece lead names before.getLast? t ts.head? = told lead names refers before t ts := by
      cases t with
      | word w =>
        rw [piece, told]
        by_cases member : w ∈ names
        · rw [words before w ts rfl member]
        · rw [if_neg fun h => member h.1, if_neg fun h => member h.1]
      | ws | qident | str | num | sym => rfl
    rw [replaced, referred, later, own]

theorem occursAt_literal {n q zs : List Char} {p : Option Char} (own : IsName n) :
    occursAt n p (q ++ '\'' :: zs) = occursAt n p (q ++ ['\'']) := by
  have head : (q ++ '\'' :: zs).head? = (q ++ ['\'']).head? := by cases q <;> rfl
  by_cases inside : n <+: q
  · obtain ⟨more, rfl⟩ := inside
    have after : ((n ++ more ++ '\'' :: zs).drop n.length).head? = ((n ++ more ++ ['\'']).drop n.length).head? := by
      rw [List.append_assoc, List.append_assoc, List.drop_left, List.drop_left]
      cases more <;> rfl
    have left : n.isPrefixOf (n ++ more ++ '\'' :: zs) = n.isPrefixOf (n ++ more ++ ['\'']) := by
      rw [Bool.eq_iff_iff, List.isPrefixOf_iff_prefix, List.isPrefixOf_iff_prefix, List.append_assoc, List.append_assoc]
      exact ⟨fun _ => List.prefix_append _ _, fun _ => List.prefix_append _ _⟩
    rw [occursAt, occursAt, head, after, left]
  · have never : ∀ rest, n.isPrefixOf (q ++ '\'' :: rest) = false := by
      intro rest
      rw [← Bool.not_eq_true, List.isPrefixOf_iff_prefix]
      intro leading
      rcases List.prefix_or_prefix_of_prefix leading (List.prefix_append q _) with short | ⟨more, whole⟩
      · exact inside short
      · cases more with
        | nil => exact inside (by rw [← whole, List.append_nil])
        | cons d more =>
          rw [← whole, List.prefix_append_right_inj, List.cons_prefix_cons] at leading
          have word := own.word d (by rw [← whole]; simp)
          rw [leading.1] at word
          exact absurd word (by decide)
    rw [occursAt, occursAt, never, never]
    simp

theorem literal_free {n : List Char} {s : String} (own : IsName n) (ok : TokenOk (.str s))
    (apart : ∀ pre post, s.toList = pre ++ post → occursAt n pre.getLast? post = false) : Free n s := by
  intro pre c post whole filled zs
  obtain ⟨body, quotes⟩ := ok
  have ending : (c :: post).getLast? = some '\'' := by
    have last := congrArg List.getLast? (whole.symm.trans quotes)
    rw [List.getLast?_append_of_ne_nil _ (List.cons_ne_nil _ _),
      List.getLast?_append_of_ne_nil _ (List.cons_ne_nil _ _)] at last
    exact last
  obtain ⟨q, same⟩ := List.getLast?_eq_some_iff.mp ending
  have none := apart pre (c :: post) whole
  rw [same] at none ⊢
  rw [List.append_assoc, List.singleton_append, occursAt_literal own, none]

theorem laid_ok {prev : Option Tok} (laid : Laid prev toks) : ∀ t ∈ toks, TokenOk t := by
  induction toks generalizing prev with
  | nil => simp
  | cons t ts ih => exact List.forall_mem_cons.mpr ⟨laid.1, ih laid.2.2⟩

theorem mem_byLength (n : String) : n ∈ (byLength columns).reverse ++ [] ↔ n ∈ columns := by
  rw [List.append_nil, List.mem_reverse]
  exact List.mem_mergeSort

theorem replaceColumns_plain (laid : Laid none toks) (whole : render toks = text.toList)
    (named : ∀ n ∈ columns, identRe n = true)
    (leadFree : ∀ sooner n later, byLength columns = sooner ++ n :: later → Replaces sooner toks → LeadFree lead n)
    (plain : Plain columns refers toks) :
    replaceColumns lead text columns = .ok (String.ofList (referred lead columns refers [] toks)) := by
  have sorted : ∀ n, n ∈ byLength columns ↔ n ∈ columns := fun n => List.mem_mergeSort
  have free : ∀ n ∈ byLength columns, ∀ s, .str s ∈ toks → Free n.toList s := by
    intro n hn s hs
    have inside := (sorted n).mp hn
    exact literal_free (identRe_name (named n inside)) (laid_ok laid _ hs) (plain.literals s hs n inside)
  have folded := foldlM_replaced (byLength columns) [] laid
    (fun n hn => named n ((sorted n).mp hn)) (fun sooner n later same ⟨front, w, after, whole, hw, hit⟩ =>
      leadFree sooner n later same ⟨front, w, after, whole, by simpa using hw, hit⟩) free
  rw [replaced_nil, whole, String.ofList_toList] at folded
  rw [replaceColumns, folded, replaced_congr mem_byLength]
  exact congrArg (fun cs => Except.ok (String.ofList cs)) (replaced_referred [] toks plain.words)

theorem accepted_tokens {expr : JsValue} {what code : String} {opts : ExprOptions}
    (accepted : assertSafeExpression expr what opts code = .ok text) :
    ∃ toks, tokenize (fun msg => .invalidRequest code s!"{what}: {msg}") text = .ok toks := by
  unfold assertSafeExpression at accepted
  dsimp only at accepted
  split at accepted
  · split_ifs at accepted
    obtain ⟨toks, tokens, accepted⟩ := ExceptRules.bind_ok accepted
    obtain ⟨_, _, accepted⟩ := ExceptRules.bind_ok accepted
    cases accepted
    exact ⟨toks, tokens⟩
  · cases accepted

/-- An accepted expression is its tokens. When its literals hold no column's name, and just the references have
neighbours that let the replacement pass, both functions touch the references only. -/
theorem references_only {expr : JsValue} {what code text : String} {opts : ExprOptions} {columns : List String}
    (accepted : assertSafeExpression expr what opts code = .ok text) (named : ∀ n ∈ columns, identRe n = true) :
    ∃ toks, tokenize (fun msg => .invalidRequest code s!"{what}: {msg}") text = .ok toks ∧ render toks = text.toList ∧
      ∀ refers, Plain columns refers toks →
        quoteColumnsForTable text columns = .ok (String.ofList (referred "" columns refers [] toks)) ∧
          (NewFirst columns toks →
            qualifyColumnsForTrigger text columns =
              .ok (String.ofList (referred "NEW." columns refers [] toks))) := by
  obtain ⟨toks, tokens⟩ := accepted_tokens accepted
  obtain ⟨whole, laid⟩ := tokenizeFrom_laid tokens fun v same => by cases same
  refine ⟨toks, tokens, whole, fun refers plain => ⟨?_, fun new => ?_⟩⟩
  · exact replaceColumns_plain laid whole named (fun _ _ _ _ _ => .inl rfl) plain
  · refine replaceColumns_plain laid whole named (fun sooner n later same hit => .inr ⟨rfl, ?_⟩) plain
    rintro rfl
    exact new sooner later same hit

/-- `qty` is the only word, and a column named NEW comes first. -/
theorem references_only_qty : ∃ toks,
    tokenize (fun msg => .invalidRequest "INVALID" ("check" ++ ": " ++ msg)) "qty > 0" = .ok toks ∧
      quoteColumnsForTable "qty > 0" ["NEW", "qty"] =
        .ok (String.ofList (referred "" ["NEW", "qty"] (fun _ _ _ => true) [] toks)) ∧
      qualifyColumnsForTrigger "qty > 0" ["NEW", "qty"] =
        .ok (String.ofList (referred "NEW." ["NEW", "qty"] (fun _ _ _ => true) [] toks)) := by
  obtain ⟨toks, tokens, _, only⟩ := @references_only (.str "qty > 0") "check" "INVALID" "qty > 0" {} ["NEW", "qty"]
    (by decide +kernel) (by decide)
  have listed : tokenize (fun msg => .invalidRequest "INVALID" ("check" ++ ": " ++ msg)) "qty > 0" =
      .ok [.word "qty", .ws ' ', .sym '>', .ws ' ', .num "0"] := by decide +kernel
  obtain rfl := Except.ok.inj (tokens.symm.trans listed)
  have plain : Plain ["NEW", "qty"] (fun _ _ _ => true) [.word "qty", .ws ' ', .sym '>', .ws ' ', .num "0"] := by
    refine ⟨fun s inside => ?_, fun before w after same _ => ?_⟩
    · simp at inside
    · cases before with
      | nil =>
        obtain ⟨_, rfl⟩ := List.cons.inj same
        rfl
      | cons t before =>
        have inside : Tok.word w ∈ [.ws ' ', .sym '>', .ws ' ', .num "0"] := by
          rw [(List.cons.inj same).2]
          exact List.mem_append_right _ List.mem_cons_self
        simp at inside
  have new : NewFirst ["NEW", "qty"] [.word "qty", .ws ' ', .sym '>', .ws ' ', .num "0"] := by
    have sorted : byLength ["NEW", "qty"] = ["NEW", "qty"] := List.mergeSort_of_pairwise (by decide)
    intro sooner later same
    rw [sorted] at same
    cases sooner with
    | nil => exact fun ⟨_, _, _, _, inside, _⟩ => List.not_mem_nil inside
    | cons n sooner =>
      have inside : "NEW" ∈ ["qty"] := by
        rw [(List.cons.inj same).2]
        exact List.mem_append_right _ List.mem_cons_self
      exact absurd inside (by decide)
  exact ⟨_, tokens, (only _ plain).1, (only _ plain).2 new⟩

/-- A literal that holds a column's name is rewritten, whatever PostgreSQL takes for references. -/
theorem literal_rewritten :
    assertSafeExpression (.str "status <> 'no status'") "check" {} "INVALID" = .ok "status <> 'no status'" ∧
      ∃ toks, tokenize (fun msg => .invalidRequest "INVALID" ("check" ++ ": " ++ msg)) "status <> 'no status'" = .ok toks ∧
        ∀ refers, quoteColumnsForTable "status <> 'no status'" ["status"] ≠
          .ok (String.ofList (referred "" ["status"] refers [] toks)) := by
  refine ⟨by decide +kernel, [.word "status", .ws ' ', .sym '<', .sym '>', .ws ' ', .str "'no status'"],
    by decide +kernel, fun refers same => ?_⟩
  have quoted : quoteColumnsForTable "status <> 'no status'" ["status"] = .ok "\"status\" <> 'no \"status\"'" := by
    decide +kernel
  rw [quoted] at same
  have texts := congrArg String.toList (Except.ok.inj same)
  rw [String.toList_ofList] at texts
  simp only [referred, told] at texts
  split at texts
  · exact absurd texts (by decide)
  · exact absurd texts (by decide)

end Columns

end DataFabric.ColumnReferences
