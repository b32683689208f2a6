import DataFabric.CharText

set_option autoImplicit false

/-!
# PostgreSQL's lexical rules

With standard-conforming strings. Operators are read character by character, and a name
glued to a number is read on its own.
-/
namespace DataFabric.PgLexer
open CharText

inductive StringKind
  | plain | escape | bits | hex | national | unicode | dollar
  deriving DecidableEq, Repr

inductive PgToken
  | name (word : String)
  | quoted (text : String)
  | unicodeName (text : String)
  | string (kind : StringKind) (text : String)
  | number (text : String)
  | symbol (c : Char)
  /-- a quote or a comment that does not end -/
  | junk
  deriving DecidableEq, Repr

/-- What is read between quotes, a doubled one included as it stands, and what follows. -/
def quotedBody (q : Char) : List Char → Option (List Char × List Char)
  | [] => none
  | c :: cs =>
    if c = q then
      match cs with
      | [] => some ([], [])
      | d :: rest =>
        if d = q then (quotedBody q rest).map fun r => (q :: q :: r.1, r.2)
        else some ([], d :: rest)
    else (quotedBody q cs).map fun r => (c :: r.1, r.2)

/-- In `E'..'` a backslash takes the next character with it. -/
def escapeBody : List Char → Option (List Char × List Char)
  | [] => none
  | c :: cs =>
    if c = '\\' then
      match cs with
      | [] => none
      | d :: rest => (escapeBody rest).map fun r => (c :: d :: r.1, r.2)
    else if c = '\'' then
      match cs with
      | [] => some ([], [])
      | d :: rest =>
        if d = '\'' then (escapeBody rest).map fun r => (c :: d :: r.1, r.2)
        else some ([], d :: rest)
    else (escapeBody cs).map fun r => (c :: r.1, r.2)

def blockComment : ℕ → List Char → Option (List Char)
  | _, [] => none
  | depth, c :: cs =>
    match cs with
    | [] => none
    | d :: rest =>
      if c = '*' ∧ d = '/' then
        match depth with
        | 0 => some rest
        | depth + 1 => blockComment depth rest
      else if c = '/' ∧ d = '*' then blockComment (depth + 1) rest
      else blockComment depth (d :: rest)

def exponentRun (cs : List Char) : List Char × List Char :=
  match cs with
  | e :: rest =>
    if e = 'e' ∨ e = 'E' then
      let sign := rest.takeWhile fun c => decide (c = '+' ∨ c = '-')
      let digits := rest.drop sign.length
      if sign.length ≤ 1 ∧ digits.head?.any Char.isDigit then
        (e :: sign ++ digits.takeWhile Char.isDigit, digits.dropWhile Char.isDigit)
      else ([], cs)
    else ([], cs)
  | [] => ([], [])

def isBlank (c : Char) : Bool := c ∈ [' ', '\t', '\n', '\r', '\x0b', '\x0c']

def isNameStart (c : Char) : Bool := isWordStart c || decide (128 ≤ c.toNat)

def isNameChar (c : Char) : Bool := isWord c || decide (128 ≤ c.toNat) || c == '$'

def stringToken (kind : StringKind) (body : Option (List Char × List Char)) : Option PgToken × List Char :=
  match body with
  | some (text, rest) => (some (.string kind (String.ofList text)), rest)
  | none => (some .junk, [])

def quotedToken (token : String → PgToken) (body : Option (List Char × List Char)) : Option PgToken × List Char :=
  match body with
  | some (text, rest) => (some (token (String.ofList text)), rest)
  | none => (some .junk, [])

/-- The kind of string a letter in front of the quote makes. -/
def stringPrefix (c : Char) : Option StringKind :=
  if c = 'e' ∨ c = 'E' then some .escape
  else if c = 'b' ∨ c = 'B' then some .bits
  else if c = 'x' ∨ c = 'X' then some .hex
  else if c = 'n' ∨ c = 'N' then some .national
  else none

def wordToken (c : Char) (cs : List Char) : Option PgToken × List Char :=
  (some (.name (String.ofList (c :: cs.takeWhile isNameChar))), cs.dropWhile isNameChar)

def nameToken (c : Char) (cs : List Char) : Option PgToken × List Char :=
  match cs with
  | '\'' :: rest =>
    match stringPrefix c with
    | some .escape => stringToken .escape (escapeBody rest)
    | some kind => stringToken kind (quotedBody '\'' rest)
    | none => wordToken c cs
  | '&' :: '\'' :: rest =>
    if c = 'u' ∨ c = 'U' then stringToken .unicode (quotedBody '\'' rest) else wordToken c cs
  | '&' :: '"' :: rest =>
    if c = 'u' ∨ c = 'U' then quotedToken .unicodeName (quotedBody '"' rest) else wordToken c cs
  | _ => wordToken c cs

/-- Digits with an optional fraction and exponent, the first character a digit or a dot. -/
def numberToken (c : Char) (cs : List Char) : Option PgToken × List Char :=
  let whole := cs.takeWhile Char.isDigit
  let rest := cs.dropWhile Char.isDigit
  let fraction := if c ≠ '.' ∧ rest.head? = some '.' then '.' :: rest.tail.takeWhile Char.isDigit else []
  let rest := rest.drop fraction.length
  let power := exponentRun rest
  (some (.number (String.ofList (c :: whole ++ fraction ++ power.1))), power.2)

/-- What follows the closing delimiter, `tag` with its dollar signs. -/
def dollarBody (tag : List Char) : List Char → Option (List Char × List Char)
  | [] => none
  | c :: cs =>
    if tag.isPrefixOf (c :: cs) then some ([], (c :: cs).drop tag.length)
    else (dollarBody tag cs).map fun r => (c :: r.1, r.2)

def dollarToken (cs : List Char) : Option PgToken × List Char :=
  let tag := cs.takeWhile fun c => isNameChar c && c != '$'
  if (cs.drop tag.length).head? = some '$' ∧ tag.head?.all isNameStart then
    stringToken .dollar (dollarBody ('$' :: tag ++ ['$']) (cs.drop (tag.length + 1)))
  else (some (.symbol '$'), cs)

/-- The token that begins with `c`, none for blanks and comments, and what follows it. -/
def nextToken (c : Char) (cs : List Char) : Option PgToken × List Char :=
  if isBlank c then (none, cs)
  else if c = '-' ∧ cs.head? = some '-' then (none, cs.dropWhile fun d => d ≠ '\n' && d ≠ '\r')
  else if c = '/' ∧ cs.head? = some '*' then
    match blockComment 0 cs.tail with
    | some rest => (none, rest)
    | none => (some .junk, [])
  else if c = '\'' then stringToken .plain (quotedBody '\'' cs)
  else if c = '"' then quotedToken .quoted (quotedBody '"' cs)
  else if c.isDigit ∨ c = '.' ∧ cs.head?.any Char.isDigit then numberToken c cs
  else if isNameStart c then nameToken c cs
  else if c = '$' then dollarToken cs
  else (some (.symbol c), cs)

/-- Every token takes a character, so the length of the text is fuel enough. -/
def lexFrom : ℕ → List Char → List PgToken
  | 0, _ => []
  | _, [] => []
  | fuel + 1, c :: cs =>
    let step := nextToken c cs
    step.1.toList ++ lexFrom fuel step.2

def lex (text : String) : List PgToken := lexFrom text.toList.length text.toList

section

variable {q : Char} {cs inner rest : List Char}

theorem quotedBody_shorter {r : List Char × List Char} (h : quotedBody q cs = some r) : r.2.length < cs.length := by
  induction cs using quotedBody.induct q generalizing r with
  | case1 => cases h
  | case2 => 
    simp only [quotedBody, if_true] at h
    cases h
    exact Nat.zero_lt_one
  | case3 rest ih =>
    simp only [quotedBody, if_true] at h
    obtain ⟨own, inside, rfl⟩ := Option.map_eq_some_iff.mp h
    have shorter := ih inside
    simp only [List.length_cons]
    omega
  | case4 d rest apart =>
    simp only [quotedBody, if_true, if_neg apart] at h
    cases h
    simp
  | case5 c cs apart ih =>
    rw [quotedBody.eq_def] at h
    simp only [if_neg apart] at h
    obtain ⟨own, inside, rfl⟩ := Option.map_eq_some_iff.mp h
    have shorter := ih inside
    simp only [List.length_cons]
    omega

theorem quotedBody_cons {c : Char} (apart : c ≠ q) (cs : List Char) :
    quotedBody q (c :: cs) = (quotedBody q cs).map fun r => (c :: r.1, r.2) := by
  rw [quotedBody.eq_def]
  simp only [if_neg apart]

theorem quotedBody_closed (apart : q ∉ inner) (ended : rest.head? ≠ some q) :
    quotedBody q (inner ++ q :: rest) = some (inner, rest) := by
  induction inner with
  | nil =>
    rw [List.nil_append, quotedBody.eq_def]
    cases rest with
    | nil => simp
    | cons d rest =>
      rw [List.head?_cons, ne_eq, Option.some.injEq] at ended
      simp [ended]
  | cons c inner ih =>
    rw [List.mem_cons, not_or] at apart
    rw [List.cons_append, quotedBody_cons (Ne.symm apart.1), ih apart.2]
    rfl

theorem quotedBody_doubled (apart : q ∉ inner) :
    quotedBody q (inner ++ q :: q :: rest) =
      (quotedBody q rest).map fun r => (inner ++ q :: q :: r.1, r.2) := by
  induction inner with
  | nil =>
    rw [List.nil_append, quotedBody.eq_def]
    simp
  | cons c inner ih =>
    rw [List.mem_cons, not_or] at apart
    rw [List.cons_append, quotedBody_cons (Ne.symm apart.1), ih apart.2, Option.map_map]
    rfl

theorem exponentRun_le (cs : List Char) : (exponentRun cs).2.length ≤ cs.length := by
  unfold exponentRun
  split
  · rename_i e rest
    dsimp only
    split_ifs
    · have digits := (List.dropWhile_suffix (l := rest.drop (rest.takeWhile fun c => decide (c = '+' ∨ c = '-')).length)
        Char.isDigit).length_le
      rw [List.length_drop] at digits
      simp only [List.length_cons]
      omega
    · exact le_rfl
    · exact le_rfl
  · exact le_rfl

theorem exponentRun_dot (cs : List Char) : exponentRun ('.' :: cs) = ([], '.' :: cs) := rfl

end

theorem isDigit_of_start {c : Char} (word : isWordStart c = true) : c.isDigit = false := by
  apply ascii_forall (p := fun c => isWordStart c = true → c.isDigit = false) _ (isWord_ascii (isWord_of_start word)) word
  decide +kernel

section

variable {c : Char} {cs : List Char}

theorem nextToken_blank (blank : c = ' ' ∨ c = '\t') : nextToken c cs = (none, cs) := by
  rcases blank with rfl | rfl
  · rfl
  · rfl

theorem nextToken_digit (digit : c.isDigit = true) : nextToken c cs = numberToken c cs := by
  have apart : ∀ d ∈ [' ', '\t', '\n', '\r', '\x0b', '\x0c', '-', '/', '\'', '"'], c ≠ d := by
    rintro d inside rfl
    revert inside digit
    simp only [List.mem_cons, List.not_mem_nil, or_false]
    rintro digit (rfl | rfl | rfl | rfl | rfl | rfl | rfl | rfl | rfl | rfl) <;> exact absurd digit (by decide)
  simp only [List.mem_cons, List.not_mem_nil, or_false, forall_eq_or_imp, forall_eq] at apart
  simp [nextToken, isBlank, apart, digit]

theorem nextToken_word (word : isWordStart c = true) : nextToken c cs = nameToken c cs := by
  have apart : ∀ d ∈ [' ', '\t', '\n', '\r', '\x0b', '\x0c', '-', '/', '\'', '"', '.'], c ≠ d := by
    rintro d inside rfl
    revert inside word
    simp only [List.mem_cons, List.not_mem_nil, or_false]
    rintro word (rfl | rfl | rfl | rfl | rfl | rfl | rfl | rfl | rfl | rfl | rfl) <;> exact absurd word (by decide)
  simp only [List.mem_cons, List.not_mem_nil, or_false, forall_eq_or_imp, forall_eq] at apart
  simp [nextToken, isBlank, apart, isDigit_of_start word, isNameStart, word]

end

end DataFabric.PgLexer
