import DataFabric.ColumnRoundTrips
import DataFabric.DdlReadings
import Mathlib.Data.Bool.AllAny

set_option autoImplicit false

/-!
# The expressions that are let pass

The lexer of the check and PostgreSQL's go through a text side by side. What an accepted
expression invokes is then forbidden only where the check does not see the spelling.
-/
namespace DataFabric.LexerAgreement
open CharText JsValues TenantIdentifiers ColumnTypes ExceptRules PgLexer DdlExpressions DdlReadings

inductive Scanned (prev : Option Tok) : Char → List Char → Tok → List Char → Prop
  | blank {c cs} : c = ' ' ∨ c = '\t' → Scanned prev c cs (.ws c) cs
  | str {cs body rest} : quotedBody '\'' cs = some (body, rest) → prefixed prev = false →
      Scanned prev '\'' cs (.str (String.ofList ('\'' :: body ++ ['\'']))) rest
  | qident {inner rest} : '"' ∉ inner →
      Scanned prev '"' (inner ++ '"' :: rest) (.qident (String.ofList inner)) rest
  | num {c cs} : c.isDigit = true →
      Scanned prev c cs
        (.num (String.ofList (c :: cs.takeWhile Char.isDigit ++ (SqlFragments.fractionRun (cs.dropWhile Char.isDigit)).1 ++
          (exponentRun (SqlFragments.fractionRun (cs.dropWhile Char.isDigit)).2).1)))
        (exponentRun (SqlFragments.fractionRun (cs.dropWhile Char.isDigit)).2).2
  | word {c cs} : isWordStart c = true →
      Scanned prev c cs (.word (String.ofList (c :: cs.takeWhile isWord))) (cs.dropWhile isWord)
  | sym {c cs} : c ∈ symbols → (c = '-' → cs.head? ≠ some '-') → (c = '/' → cs.head? ≠ some '*') →
      Scanned prev c cs (.sym c) cs

section

variable {fail : String → FabricError} {prev : Option Tok} {c : Char} {cs rest : List Char} {t : Tok}

theorem strTok_scanned (h : strTok fail prev cs = .ok (t, rest)) : Scanned prev '\'' cs t rest := by
  unfold strTok at h
  split at h
  · split_ifs at h
  · rename_i body after quoted
    split_ifs at h with nul unprefixed
    cases h
    exact .str quoted (by simpa using unprefixed)

theorem qidentTok_scanned (h : qidentTok fail cs = .ok (t, rest)) : Scanned prev '"' cs t rest := by
  unfold qidentTok at h
  dsimp only at h
  split at h
  · cases h
  · rename_i d after split
    split_ifs at h with plain
    cases h
    have closing : d = '"' := by
      have head := List.head?_dropWhile_not (fun c => decide (c ≠ '"')) cs
      rw [split] at head
      simpa using head
    have whole := List.takeWhile_append_dropWhile (p := fun c => decide (c ≠ '"')) (l := cs)
    rw [split, closing] at whole
    have inner : '"' ∉ cs.takeWhile fun c => decide (c ≠ '"') := by
      intro inside
      have own := List.mem_takeWhile_imp inside
      simp at own
    have scanned : Scanned prev _ _ _ rest := .qident inner
    rwa [whole] at scanned

theorem nextTok_scanned (h : nextTok fail prev c cs = .ok (t, rest)) : Scanned prev c cs t rest := by
  have ne_error : ∀ {e : FabricError}, Except.error e ≠ .ok (t, rest) := fun same => by cases same
  unfold nextTok at h
  obtain ⟨-, h⟩ := (ite_eq_iff.mp h).resolve_left fun own => ne_error own.2
  rcases ite_eq_iff.mp h with ⟨blank, h⟩ | ⟨-, h⟩
  · cases h
    exact .blank blank
  obtain ⟨-, h⟩ := (ite_eq_iff.mp h).resolve_left fun own => ne_error own.2
  obtain ⟨-, h⟩ := (ite_eq_iff.mp h).resolve_left fun own => ne_error own.2
  obtain ⟨comment, h⟩ := (ite_eq_iff.mp h).resolve_left fun own => ne_error own.2
  rcases ite_eq_iff.mp h with ⟨rfl, h⟩ | ⟨-, h⟩
  · exact strTok_scanned h
  rcases ite_eq_iff.mp h with ⟨rfl, h⟩ | ⟨-, h⟩
  · exact qidentTok_scanned h
  rcases ite_eq_iff.mp h with ⟨digit, h⟩ | ⟨-, h⟩
  · cases h
    exact .num digit
  rcases ite_eq_iff.mp h with ⟨word, h⟩ | ⟨-, h⟩
  · cases h
    exact .word word
  rcases ite_eq_iff.mp h with ⟨symbol, h⟩ | ⟨-, h⟩
  · cases h
    rw [not_or, not_or, not_and, not_and] at comment
    exact .sym symbol comment.1 comment.2.1
  · cases h

theorem tokenizeFrom_cons {n : ℕ} {toks : List Tok} (h : tokenizeFrom fail n prev (c :: cs) = .ok toks) :
    ∃ m t rest later, n = m + 1 ∧ Scanned prev c cs t rest ∧ tokenizeFrom fail m (some t) rest = .ok later ∧
      toks = t :: later := by
  cases n with
  | zero => cases h
  | succ m =>
    rw [tokenizeFrom] at h
    obtain ⟨⟨t, rest⟩, step, h⟩ := bind_ok h
    obtain ⟨later, more, h⟩ := bind_ok h
    cases h
    exact ⟨m, t, rest, later, rfl, nextTok_scanned step, more, rfl⟩

theorem scanned_quote (h : Scanned prev '\'' cs t rest) :
    ∃ body, quotedBody '\'' cs = some (body, rest) ∧ prefixed prev = false ∧
      t = .str (String.ofList ('\'' :: body ++ ['\''])) := by
  cases h with
  | blank blank => exact absurd blank (by decide)
  | str quoted unprefixed => exact ⟨_, quoted, unprefixed, rfl⟩
  | num digit => exact absurd digit (by decide)
  | word word => exact absurd word (by decide)
  | sym symbol _ _ => exact absurd symbol (by decide)

theorem scanned_symbol (symbol : c ∈ symbols) (h : Scanned prev c cs t rest) : t = .sym c ∧ rest = cs := by
  have plain : ∀ d ∈ symbols, (d ≠ ' ' ∧ d ≠ '\t' ∧ d ≠ '\'' ∧ d ≠ '"') ∧ d.isDigit = false ∧ isWordStart d = false :=
    List.all_iff_forall_prop.mp (by decide)
  have own := plain c symbol
  cases h with
  | blank blank => exact absurd blank (not_or.mpr ⟨own.1.1, own.1.2.1⟩)
  | str => exact absurd rfl own.1.2.2.1
  | qident => exact absurd rfl own.1.2.2.2
  | num digit => exact absurd (digit.symm.trans own.2.1) Bool.noConfusion
  | word word => exact absurd (word.symm.trans own.2.2) Bool.noConfusion
  | sym => exact ⟨rfl, rfl⟩

theorem scanned_digit (digit : c.isDigit = true) (h : Scanned prev c cs t rest) :
    ∃ text, t = .num text ∧ rest = (exponentRun (SqlFragments.fractionRun (cs.dropWhile Char.isDigit)).2).2 := by
  cases h with
  | blank blank => rcases blank with rfl | rfl <;> exact absurd digit (by decide)
  | str => exact absurd digit (by decide)
  | qident => exact absurd digit (by decide)
  | num => exact ⟨_, rfl, rfl⟩
  | word word =>
    rw [isDigit_of_start word] at digit
    cases digit
  | sym symbol _ _ =>
    have plain : ∀ d ∈ symbols, d.isDigit = false := List.all_iff_forall_prop.mp (by decide)
    rw [plain c symbol] at digit
    cases digit

theorem scanned_stops (h : Scanned prev c cs t rest) (apart : isWord c = false) : PgLexer.isNameChar c = false := by
  cases h with
  | blank blank => rcases blank with rfl | rfl <;> rfl
  | str => rfl
  | qident => rfl
  | num digit =>
    unfold isWord Char.isAlphanum at apart
    simp [digit] at apart
  | word word => exact absurd ((isWord_of_start word).symm.trans apart) Bool.noConfusion
  | sym symbol _ _ =>
    have plain : ∀ d ∈ symbols, PgLexer.isNameChar d = false := List.all_iff_forall_prop.mp (by decide)
    exact plain c symbol

theorem stringPrefix_none (plain : prefixed (some (.word (String.ofList [c]))) = false) : stringPrefix c = none := by
  unfold stringPrefix
  split_ifs with escape bits hex national
  · rcases escape with rfl | rfl <;> exact absurd plain (by decide)
  · rcases bits with rfl | rfl <;> exact absurd plain (by decide)
  · rcases hex with rfl | rfl <;> exact absurd plain (by decide)
  · rcases national with rfl | rfl <;> exact absurd plain (by decide)
  · rfl

theorem nameChars_eq (stops : ∀ d ∈ (cs.dropWhile isWord).head?, PgLexer.isNameChar d = false) :
    cs.takeWhile PgLexer.isNameChar = cs.takeWhile isWord ∧ cs.dropWhile PgLexer.isNameChar = cs.dropWhile isWord := by
  induction cs with
  | nil => exact ⟨rfl, rfl⟩
  | cons c cs ih =>
    by_cases word : isWord c = true
    · have name : PgLexer.isNameChar c = true := by simp [PgLexer.isNameChar, word]
      rw [List.dropWhile_cons, if_pos word] at stops
      simp [word, name, ih stops]
    · rw [List.dropWhile_cons, if_neg word] at stops
      simp [word, stops c rfl]

theorem wordToken_eq (stops : ∀ d ∈ (cs.dropWhile isWord).head?, PgLexer.isNameChar d = false) :
    wordToken c cs = (some (.name (String.ofList (c :: cs.takeWhile isWord))), cs.dropWhile isWord) := by
  rw [wordToken, (nameChars_eq stops).1, (nameChars_eq stops).2]

theorem nextToken_symbol (symbol : c ∈ symbols) (minus : c = '-' → cs.head? ≠ some '-')
    (slash : c = '/' → cs.head? ≠ some '*') (dot : c = '.' → cs.head?.any Char.isDigit = false) :
    nextToken c cs = (some (.symbol c), cs) := by
  have plain : ∀ d ∈ symbols, isBlank d = false ∧ d ≠ '\'' ∧ d ≠ '"' ∧ d.isDigit = false ∧ isNameStart d = false ∧
      d ≠ '$' := List.all_iff_forall_prop.mp (by decide)
  obtain ⟨blank, single, double, digit, start, dollar⟩ := plain c symbol
  unfold nextToken
  rw [if_neg (by simp [blank]), if_neg (not_and.mpr minus), if_neg (not_and.mpr slash), if_neg single, if_neg double,
    if_neg, if_neg (by simp [start]), if_neg dollar]
  rintro (own | ⟨own, follows⟩)
  · rw [digit] at own
    cases own
  · rw [dot own] at follows
    cases follows

theorem drop_takeWhile (p : Char → Bool) (cs : List Char) : cs.drop (cs.takeWhile p).length = cs.dropWhile p := by
  have whole := List.takeWhile_append_dropWhile (p := p) (l := cs)
  calc cs.drop (cs.takeWhile p).length
      = (cs.takeWhile p ++ cs.dropWhile p).drop (cs.takeWhile p).length := by rw [whole]
    _ = cs.dropWhile p := List.drop_left

theorem numberToken_digit (digit : c.isDigit = true)
    (fraction : ∀ x, cs.dropWhile Char.isDigit = '.' :: x → x.head?.any Char.isDigit = true) :
    ∃ s, numberToken c cs =
      (some (.number s), (exponentRun (SqlFragments.fractionRun (cs.dropWhile Char.isDigit)).2).2) := by
  have apart : c ≠ '.' := by
    rintro rfl
    exact absurd digit (by decide)
  refine ⟨_, Prod.ext rfl ?_⟩
  dsimp only [numberToken]
  congr 2
  cases rest : cs.dropWhile Char.isDigit with
  | nil => simp [SqlFragments.fractionRun]
  | cons d x =>
    by_cases dotted : d = '.'
    · subst dotted
      have digits := fraction x rest
      cases x with
      | nil => cases digits
      | cons e x =>
        rw [List.head?_cons, Option.any_some] at digits
        simp [SqlFragments.fractionRun, apart, digits, drop_takeWhile]
    · simp [SqlFragments.fractionRun, dotted]

theorem numberToken_dot (cs : List Char) :
    ∃ s, numberToken '.' cs = (some (.number s), (exponentRun (cs.dropWhile Char.isDigit)).2) := by
  refine ⟨_, Prod.ext rfl ?_⟩
  simp [numberToken]

theorem fractionRun_cases (cs : List Char) :
    SqlFragments.fractionRun cs = ([], cs) ∨
      ∃ d x, cs = '.' :: d :: x ∧ d.isDigit = true ∧ (SqlFragments.fractionRun cs).2 = x.dropWhile Char.isDigit := by
  unfold SqlFragments.fractionRun
  split
  · rename_i d x
    split_ifs with digit
    · exact .inr ⟨d, x, rfl, digit, rfl⟩
    · exact .inl rfl
  · exact .inl rfl

theorem lexFrom_cons (m : ℕ) (c : Char) (cs : List Char) :
    lexFrom (m + 1) (c :: cs) = (nextToken c cs).1.toList ++ lexFrom m (nextToken c cs).2 := rfl

theorem lexFrom_nil (m : ℕ) : lexFrom m [] = [] := by
  cases m with
  | zero => rfl
  | succ m => rfl

end

def solid (toks : List Tok) : List Tok := toks.filter fun t => !t.isWs

section

variable {ts : List Tok} {ps : List PgToken}

theorem head_quoted {s : String} (reads : Reads ts (.quoted s :: ps)) : ∃ b later, ts = .qident b :: later := by
  cases reads with
  | quoted b s rest => exact ⟨b, _, rfl⟩
  | touching a b r s rest => exact ⟨a, _, rfl⟩

theorem no_junk : ¬ Reads ts (.junk :: ps) := by
  intro reads
  cases reads

end

section

variable {fail : String → FabricError} {n m k : ℕ} {prev : Option Tok} {c : Char} {cs rest : List Char} {t : Tok}
  {later : List Tok}

def ReadsUpTo (fail : String → FabricError) (k : ℕ) : Prop :=
  ∀ (n m : ℕ) (prev : Option Tok) (cs : List Char) (toks : List Tok), cs.length ≤ k → cs.length ≤ m →
    tokenizeFrom fail n prev cs = .ok toks → (solid toks).IsChain Follows → Reads (solid toks) (lexFrom m cs)

theorem lexFrom_quoted {r : List Char × List Char} (body : quotedBody '"' cs = some r) (m : ℕ) :
    lexFrom (m + 1) ('"' :: cs) = .quoted (String.ofList r.1) :: lexFrom m r.2 := by
  have step : nextToken '"' cs = quotedToken .quoted (quotedBody '"' cs) := rfl
  rw [lexFrom_cons, step, body]
  rfl

theorem lexFrom_open (body : quotedBody '"' cs = none) (m : ℕ) :
    lexFrom (m + 1) ('"' :: cs) = .junk :: lexFrom m [] := by
  have step : nextToken '"' cs = quotedToken .quoted (quotedBody '"' cs) := rfl
  rw [lexFrom_cons, step, body]
  rfl

theorem reads_qident (ih : ReadsUpTo fail k) {inner : List Char} (short : (inner ++ '"' :: rest).length ≤ k)
    (fits : (inner ++ '"' :: rest).length ≤ m) (apart : '"' ∉ inner)
    (more : tokenizeFrom fail n prev rest = .ok later) (chain : (solid later).IsChain Follows) (a : String) :
    Reads (.qident a :: solid later) (lexFrom (m + 1) ('"' :: (inner ++ '"' :: rest))) := by
  rw [List.length_append, List.length_cons] at short fits
  by_cases touches : rest.head? = some '"'
  · obtain ⟨after, rfl⟩ : ∃ after, rest = '"' :: after := by
      cases rest with
      | nil => cases touches
      | cons d after => exact ⟨after, by rw [Option.some.inj touches]⟩
    have own := ih n (m + 1) prev _ later (by omega) (by omega) more chain
    cases body : quotedBody '"' after with
    | none =>
      rw [lexFrom_open body] at own
      exact absurd own no_junk
    | some r =>
      rw [lexFrom_quoted body] at own
      obtain ⟨b, others, same⟩ := head_quoted own
      have whole : quotedBody '"' _ = (quotedBody '"' after).map _ := quotedBody_doubled apart
      rw [body, Option.map_some] at whole
      rw [lexFrom_quoted whole]
      rw [same] at own ⊢
      exact .touching a b _ _ own
  · rw [lexFrom_quoted (quotedBody_closed apart touches)]
    exact .quoted a _ (ih n m prev rest later (by omega) (by omega) more chain)

theorem reads_unicodeName (ih : ReadsUpTo fail k) (short : ('"' :: cs).length ≤ k) (fits : ('"' :: cs).length ≤ m + 1)
    (more : tokenizeFrom fail n prev ('"' :: cs) = .ok later) (chain : (solid later).IsChain Follows) (w : String) :
    Reads (.word w :: .sym '&' :: solid later)
      ((quotedToken .unicodeName (quotedBody '"' cs)).1.toList ++
        lexFrom m (quotedToken .unicodeName (quotedBody '"' cs)).2) := by
  have own := ih n (m + 1) prev _ later short fits more chain
  cases body : quotedBody '"' cs with
  | none =>
    rw [lexFrom_open body] at own
    exact absurd own no_junk
  | some r =>
    rw [lexFrom_quoted body] at own
    exact .unicodeName w _ _ own

theorem reads_word (ih : ReadsUpTo fail k) (short : cs.length ≤ k) (fits : cs.length ≤ m) (word : isWordStart c = true)
    (more : tokenizeFrom fail n (some (.word (String.ofList (c :: cs.takeWhile isWord)))) (cs.dropWhile isWord) = .ok later)
    (chain : (solid later).IsChain Follows) :
    Reads (.word (String.ofList (c :: cs.takeWhile isWord)) :: solid later) (lexFrom (m + 1) (c :: cs)) := by
  have fewer : (cs.dropWhile isWord).length ≤ cs.length := (List.dropWhile_suffix isWord).length_le
  have stops : ∀ d ∈ (cs.dropWhile isWord).head?, PgLexer.isNameChar d = false := by
    intro d head
    have apart := List.head?_dropWhile_not isWord cs
    cases after : cs.dropWhile isWord with
    | nil =>
      rw [after] at head
      cases head
    | cons e after' =>
      rw [after] at head apart more
      obtain rfl := Option.some.inj head
      obtain ⟨_, _, _, _, _, scanned, _, _⟩ := tokenizeFrom_cons more
      exact scanned_stops scanned (by simpa using apart)
  have plain : Reads (.word (String.ofList (c :: cs.takeWhile isWord)) :: solid later)
      ((wordToken c cs).1.toList ++ lexFrom m (wordToken c cs).2) := by
    rw [wordToken_eq stops]
    exact .word _ (ih n m _ _ later (fewer.trans short) (fewer.trans fits) more chain)
  rw [lexFrom_cons, nextToken_word word]
  unfold nameToken
  split
  · rename_i after
    obtain ⟨_, t, rest, others, _, scanned, _, _⟩ := tokenizeFrom_cons more
    obtain ⟨_, _, unprefixed, _⟩ := scanned_quote scanned
    rw [stringPrefix_none unprefixed]
    exact plain
  · rename_i after
    split_ifs with letter
    · obtain ⟨n₁, t, rest, others, _, scanned, more, rfl⟩ := tokenizeFrom_cons more
      obtain ⟨rfl, rfl⟩ := scanned_symbol (by decide) scanned
      obtain ⟨n₂, t, rest, others, _, scanned, last, rfl⟩ := tokenizeFrom_cons more
      obtain ⟨body, quoted, _, rfl⟩ := scanned_quote scanned
      have shorter : rest.length < after.length := quotedBody_shorter quoted
      simp only [List.length_cons] at short fits
      rw [quoted]
      exact .unicodeString _ _ _ (ih n₂ m _ rest others (by omega) (by omega) last chain.tail.tail)
    · exact plain
  · rename_i after
    split_ifs with letter
    · obtain ⟨n₁, t, rest, others, _, scanned, more, rfl⟩ := tokenizeFrom_cons more
      obtain ⟨rfl, rfl⟩ := scanned_symbol (by decide) scanned
      simp only [List.length_cons] at short fits
      exact reads_unicodeName ih (by simp only [List.length_cons]; omega) (by simp only [List.length_cons]; omega) more
        chain.tail _
    · exact plain
  · exact plain

theorem nextToken_dotted {d : Char} (digit : d.isDigit = true) :
    nextToken '.' (d :: cs) = numberToken '.' (d :: cs) := by
  have number : '.'.isDigit = true ∨ '.' = '.' ∧ (d :: cs).head?.any Char.isDigit = true := .inr ⟨rfl, digit⟩
  unfold nextToken
  rw [if_neg (by decide), if_neg fun h => absurd h.1 (by decide), if_neg fun h => absurd h.1 (by decide),
    if_neg (by decide), if_neg (by decide), if_pos number]

theorem reads_dot (ih : ReadsUpTo fail k) (short : cs.length ≤ k) (fits : cs.length ≤ m)
    (more : tokenizeFrom fail n (some (.sym '.')) cs = .ok later) (chain : (solid (.sym '.' :: later)).IsChain Follows) :
    Reads (.sym '.' :: solid later) (lexFrom (m + 1) ('.' :: cs)) := by
  by_cases digits : cs.head?.any Char.isDigit = true
  · obtain ⟨d, cs, rfl, digit⟩ : ∃ d rest, cs = d :: rest ∧ d.isDigit = true := by
      cases cs with
      | nil => cases digits
      | cons d rest => exact ⟨d, rest, rfl, digits⟩
    obtain ⟨n₁, t, rest, others, _, scanned, last, rfl⟩ := tokenizeFrom_cons more
    obtain ⟨text, rfl, rfl⟩ := scanned_digit digit scanned
    obtain ⟨s, token⟩ := numberToken_dot (d :: cs)
    rw [List.dropWhile_cons, if_pos digit] at token
    rw [lexFrom_cons, nextToken_dotted digit, token]
    have fewer : (cs.dropWhile Char.isDigit).length ≤ cs.length := (List.dropWhile_suffix Char.isDigit).length_le
    rw [List.length_cons] at short fits
    rcases fractionRun_cases (cs.dropWhile Char.isDigit) with none | ⟨e, x, dotted, digit', after⟩
    · rw [none] at last
      have left := (exponentRun_le (cs.dropWhile Char.isDigit)).trans fewer
      exact .dotNum _ s (ih n₁ m _ _ others (left.trans (by omega)) (left.trans (by omega)) last chain.tail.tail)
    · rw [after] at last
      rw [dotted, exponentRun_dot]
      rw [dotted, List.length_cons, List.length_cons] at fewer
      obtain ⟨m, rfl⟩ : ∃ j, m = j + 1 := ⟨m - 1, by omega⟩
      obtain ⟨r, token'⟩ := numberToken_dot (e :: x)
      rw [List.dropWhile_cons, if_pos digit'] at token'
      rw [lexFrom_cons, nextToken_dotted digit', token']
      have left := (exponentRun_le (x.dropWhile Char.isDigit)).trans (List.dropWhile_suffix Char.isDigit).length_le
      exact .dotNums _ s r (ih n₁ m _ _ others (left.trans (by omega)) (left.trans (by omega)) last chain.tail.tail)
  · have token : nextToken '.' cs = _ := nextToken_symbol (by decide) (by simp) (by simp) fun _ => by simpa using digits
    rw [lexFrom_cons, token]
    exact .sym '.' (ih n m _ cs later short fits more chain.tail)

theorem reads_num (ih : ReadsUpTo fail k) (short : cs.length ≤ k) (fits : cs.length ≤ m) (digit : c.isDigit = true)
    {text : String}
    (more : tokenizeFrom fail n (some (.num text)) (exponentRun (SqlFragments.fractionRun (cs.dropWhile Char.isDigit)).2).2 =
      .ok later) (chain : (solid (.num text :: later)).IsChain Follows) :
    Reads (.num text :: solid later) (lexFrom (m + 1) (c :: cs)) := by
  have fewer : (cs.dropWhile Char.isDigit).length ≤ cs.length := (List.dropWhile_suffix Char.isDigit).length_le
  have left := (exponentRun_le (SqlFragments.fractionRun (cs.dropWhile Char.isDigit)).2).trans
    (SqlFragments.fractionRun_le (cs.dropWhile Char.isDigit))
  have fraction : ∀ x, cs.dropWhile Char.isDigit = '.' :: x → x.head?.any Char.isDigit = true := by
    intro x dotted
    rcases fractionRun_cases (cs.dropWhile Char.isDigit) with none | ⟨d, y, same, digit', _⟩
    · rw [none, dotted, exponentRun_dot] at more
      obtain ⟨_, t, rest, others, _, scanned, _, rfl⟩ := tokenizeFrom_cons more
      obtain ⟨rfl, rfl⟩ := scanned_symbol (by decide) scanned
      have follows := (List.isChain_cons_cons.mp chain).1
      cases follows.dot rfl
    · rw [dotted] at same
      obtain rfl := (List.cons.inj same).2
      exact digit'
  obtain ⟨s, token⟩ := numberToken_digit digit fraction
  rw [lexFrom_cons, nextToken_digit digit, token]
  exact .num text s (ih n m _ _ later (left.trans (fewer.trans short)) (left.trans (fewer.trans fits)) more chain.tail)

theorem readsUpTo (fail : String → FabricError) (k : ℕ) : ReadsUpTo fail k := by
  induction k with
  | zero =>
    intro n m prev cs toks short _ h _
    obtain rfl := List.length_eq_zero_iff.mp (Nat.le_zero.mp short)
    rw [lexFrom_nil]
    have empty : tokenizeFrom fail n prev [] = .ok [] := by
      cases n with
      | zero => rfl
      | succ n => rfl
    rw [empty] at h
    cases h
    exact .nil
  | succ k ih =>
    intro n m prev cs toks short fits h chain
    cases cs with
    | nil => exact ih n m prev [] toks (Nat.zero_le k) (Nat.zero_le m) h chain
    | cons c cs =>
      obtain ⟨m, rfl⟩ : ∃ j, m = j + 1 := ⟨m - 1, by rw [List.length_cons] at fits; omega⟩
      obtain ⟨n₁, t, rest, later, _, scanned, more, rfl⟩ := tokenizeFrom_cons h
      have shortTail : cs.length ≤ k := Nat.le_of_succ_le_succ short
      have fitsTail : cs.length ≤ m := Nat.le_of_succ_le_succ fits
      cases scanned with
      | blank blank =>
        rw [lexFrom_cons, nextToken_blank blank]
        exact ih n₁ m _ cs later shortTail fitsTail more chain
      | str quoted unprefixed =>
        have shorter : rest.length < cs.length := quotedBody_shorter quoted
        have step : nextToken '\'' cs = stringToken .plain (quotedBody '\'' cs) := rfl
        rw [lexFrom_cons, step, quoted]
        exact .str _ _ (ih n₁ m _ rest later (by omega) (by omega) more chain.tail)
      | qident apart => exact reads_qident ih shortTail fitsTail apart more chain.tail _
      | num digit => exact reads_num ih shortTail fitsTail digit more chain
      | word word => exact reads_word ih shortTail fitsTail word more chain.tail
      | sym symbol minus slash =>
        by_cases dot : c = '.'
        · subst dot
          exact reads_dot ih shortTail fitsTail more chain
        · rw [lexFrom_cons, nextToken_symbol symbol minus slash fun same => absurd same dot]
          exact .sym c (ih n₁ m _ cs later shortTail fitsTail more chain.tail)

theorem tokenizeFrom_words (h : tokenizeFrom fail n prev cs = .ok later) :
    ∀ w, .word w ∈ later → w ≠ "" ∧ ∀ c ∈ w.toList, isWord c = true := by
  induction n generalizing prev cs later with
  | zero =>
    cases cs with
    | nil =>
      cases h
      simp
    | cons => cases h
  | succ n ih =>
    cases cs with
    | nil =>
      cases h
      simp
    | cons c cs =>
      obtain ⟨n₁, t, rest, others, same, scanned, more, rfl⟩ := tokenizeFrom_cons h
      obtain rfl := Nat.succ.inj same
      intro w inside
      rcases List.mem_cons.mp inside with own | inRest
      · cases scanned with
        | word word =>
          obtain rfl := Tok.word.inj own
          refine ⟨by simp, fun d inWord => ?_⟩
          rw [String.toList_ofList, List.mem_cons] at inWord
          rcases inWord with rfl | inRun
          · exact isWord_of_start word
          · exact List.mem_takeWhile_imp inRun
        | blank => cases own
        | str => cases own
        | qident => cases own
        | num => cases own
        | sym => cases own
      · exact ih more w inRest

end

section

variable {expr : JsValue} {what code text : String} {opts : ExprOptions}

theorem accepted_reads (h : assertSafeExpression expr what opts code = .ok text) :
    ∃ toks, Accepts none toks ∧ Reads toks (lex text) := by
  unfold assertSafeExpression at h
  dsimp only at h
  split at h
  · split_ifs at h
    obtain ⟨toks, tokenized, h⟩ := bind_ok h
    obtain ⟨_, checked, h⟩ := bind_ok h
    cases h
    unfold DdlExpressions.tokenize at tokenized
    have words : ∀ w, .word w ∈ solid toks → w ≠ "" ∧ ∀ c ∈ w.toList, isWord c = true := fun w inside =>
      tokenizeFrom_words tokenized w (List.mem_of_mem_filter inside)
    have accepts : Accepts none (solid toks) :=
      checkTokens_ok words (fun t inside => absurd inside List.not_mem_nil) (fun no => absurd rfl no) checked
    exact ⟨solid toks, accepts, readsUpTo _ _ _ _ none _ toks le_rfl le_rfl tokenized accepts.chain⟩
  · cases h

theorem first_not_dot {toks : List Tok} {ps : List PgToken} (accepts : Accepts none toks) (reads : Reads toks ps) :
    ps.head? ≠ some (.symbol '.') := by
  intro first
  cases ps with
  | nil => cases first
  | cons p ps =>
    obtain rfl := Option.some.inj first
    cases accepts.dot (head_symbol reads)

theorem upper_forbidden {w : String} (lower : asciiLower w ∈ ["select", "values", "with"]) :
    upperCase w ∈ forbiddenWords := by
  rw [← ColumnRoundTrips.upperCase_asciiLower]
  generalize asciiLower w = l at lower
  simp only [List.mem_cons, List.not_mem_nil, or_false] at lower
  rcases lower with rfl | rfl | rfl
  · decide
  · decide
  · decide

theorem near_of_adjacent {ps : List PgToken} (chain : ps.IsChain Near) {a b : PgToken} (inside : [a, b] <:+: ps) : Near a b := by
  have own := chain.infix inside
  exact (List.isChain_cons_cons.mp own).1

theorem harmless_of_undisguised {ps : List PgToken} (chain : ps.IsChain Near)
    (strings : ∀ kind s, .string kind s ∈ ps → kind = .plain ∨ kind = .unicode)
    (dot : ps.head? ≠ some (.symbol '.')) (own : Undisguised ps) : Harmless ps where
  calls f invoked := by
    rcases invoked with ⟨w, called, rfl⟩ | quoted | unicode | keyword
    · exact (near_of_adjacent chain called).call w rfl rfl
    · exact own.quoted f quoted
    · exact own.unicode f unicode
    · exact own.keywords f keyword
  noSubquery w opened inside := by
    have known : asciiLower w ∈ ["select", "values", "with"] := by
      have noTable := own.noTable w opened
      simpa [noTable] using inside
    exact (near_of_adjacent chain opened).opened w rfl rfl (upper_forbidden known)
  plainStrings kind s inside := by
    rcases strings kind s inside with rfl | rfl
    · rfl
    · exact absurd inside (own.noUnicodeStrings s)
  newOrOld before after split := by
    cases before using List.reverseRecOn with
    | nil =>
      rw [split] at dot
      exact absurd rfl dot
    | append_singleton start p =>
      have near : [p, .symbol '.'] <:+: ps := ⟨start, after, by simp [split]⟩
      obtain ⟨w, rfl, known⟩ := (near_of_adjacent chain near).dot rfl
      refine ⟨start, w, rfl, known, fun last => own.noLongPaths w ?_⟩
      obtain ⟨first, rfl⟩ := List.getLast?_eq_some_iff.mp last
      exact ⟨first, after, by simp [split]⟩

theorem undisguised_of_harmless {ps : List PgToken} (own : Harmless ps) : Undisguised ps where
  quoted f called := own.calls f (.inr (.inl called))
  unicode f called := own.calls f (.inr (.inr (.inl called)))
  keywords f called := own.calls f (.inr (.inr (.inr called)))
  noTable w opened table := own.noSubquery w opened (by rw [table]; decide)
  noUnicodeStrings s inside := PgLexer.StringKind.noConfusion (own.plainStrings _ s inside)
  noLongPaths w path := by
    obtain ⟨first, last, whole⟩ := path
    obtain ⟨start, v, same, _, apart⟩ := own.newOrOld (first ++ [.symbol '.', .name w]) last (by simp [← whole])
    have split : first ++ [.symbol '.'] = start := by
      have shape : (first ++ [.symbol '.']) ++ [.name w] = start ++ [.name v] := by simpa using same
      exact (List.append_inj' shape rfl).1
    exact apart (by simp [← split])

/-- An accepted expression does what it must not only in a spelling that the check does not see. -/
theorem accepted_harmless_iff (accepted : assertSafeExpression expr what opts code = .ok text) :
    Harmless (lex text) ↔ Undisguised (lex text) := by
  constructor
  · exact undisguised_of_harmless
  · obtain ⟨toks, accepts, reads⟩ := accepted_reads accepted
    have strings : ∀ kind s, .string kind s ∈ lex text → kind = .plain ∨ kind = .unicode := fun _ _ => reads_strings reads
    exact harmless_of_undisguised (reads_near reads accepts.chain) strings (first_not_dot accepts reads)

end

theorem sleep_accepted :
    assertSafeExpression (.str "\"pg_sleep\"(5)") "default" {} "BAD" = .ok "\"pg_sleep\"(5)" := by decide +kernel

theorem sleep_tokens : lex "\"pg_sleep\"(5)" = [.quoted "pg_sleep", .symbol '(', .number "5", .symbol ')'] := by
  decide +kernel

theorem quoted_sleep_accepted :
    ¬ ∀ (expr : JsValue) (what : String) (opts : ExprOptions) (code text : String),
      assertSafeExpression expr what opts code = .ok text → Harmless (lex text) := by
  intro always
  have harmless := always _ _ _ _ _ sleep_accepted
  rw [sleep_tokens] at harmless
  have called : Invokes [.quoted "pg_sleep", .symbol '(', .number "5", .symbol ')'] "pg_sleep" :=
    .inr (.inl ⟨"pg_sleep", ⟨[], _, rfl⟩, by decide⟩)
  exact absurd (harmless.calls _ called) (by decide)

theorem lower_accepted :
    assertSafeExpression (.str "lower(email) = 'x'") "check" {} "BAD" = .ok "lower(email) = 'x'" := by decide +kernel

theorem lower_tokens : lex "lower(email) = 'x'" =
    [.name "lower", .symbol '(', .name "email", .symbol ')', .symbol '=', .string .plain "x"] := by decide +kernel

theorem lower_undisguised : Undisguised (lex "lower(email) = 'x'") := by
  rw [lower_tokens]
  constructor
  · rintro f ⟨s, inside, _⟩
    simpa using inside.subset List.mem_cons_self
  · rintro f (⟨s, inside, _⟩ | ⟨s, u, esc, inside, _⟩)
    · simpa using inside.subset List.mem_cons_self
    · simpa using inside.subset List.mem_cons_self
  · rintro f ⟨known, before, w, after, split, rfl, _⟩
    have inside : PgToken.name w ∈ before ++ .name w :: after := by simp
    rw [← split] at inside
    obtain rfl | rfl : w = "lower" ∨ w = "email" := by simpa using inside
    · decide
    · decide
  · intro w opened
    have inside := opened.subset (List.mem_cons_of_mem _ List.mem_cons_self)
    obtain rfl | rfl : w = "lower" ∨ w = "email" := by simpa using inside
    · decide
    · decide
  · simp
  · intro w path
    simpa using path.subset List.mem_cons_self

theorem lower_harmless : Harmless (lex "lower(email) = 'x'") :=
  (accepted_harmless_iff lower_accepted).mpr lower_undisguised

end DataFabric.LexerAgreement
