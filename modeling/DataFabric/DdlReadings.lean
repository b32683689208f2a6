import Mathlib.Data.List.Chain
import Mathlib.Data.List.TakeWhile
import DataFabric.DdlExpressions
import DataFabric.ExceptRules

set_option autoImplicit false

/-!
# What the check of an expression says about PostgreSQL's reading of it

The tokens of the check and PostgreSQL's are compared text by text; they differ where
quoted names touch and where `U&` announces a quote.
-/
namespace DataFabric.DdlReadings
open CharText JsValues TenantIdentifiers ColumnTypes ExceptRules PgLexer DdlExpressions

structure Follows (a b : Tok) : Prop where
  call : ∀ w, a = .word w → b = .sym '(' → forbiddenFunction (asciiLower w) = false
  dot : b = .sym '.' → newOrOld (some a) = true
  opened : ∀ w, a = .sym '(' → b = .word w → upperCase w ∉ forbiddenWords

/-- Blanks apart, how PostgreSQL may read the tokens of the check. -/
inductive Reads : List Tok → List PgToken → Prop
  | nil : Reads [] []
  | word {ts ps} (w : String) : Reads ts ps → Reads (.word w :: ts) (.name w :: ps)
  | quoted {ts ps} (a s : String) : Reads ts ps → Reads (.qident a :: ts) (.quoted s :: ps)
  | touching {ts ps} (a b r s : String) :
      Reads (.qident b :: ts) (.quoted r :: ps) → Reads (.qident a :: .qident b :: ts) (.quoted s :: ps)
  | str {ts ps} (r s : String) : Reads ts ps → Reads (.str r :: ts) (.string .plain s :: ps)
  | unicodeString {ts ps} (w r s : String) :
      Reads ts ps → Reads (.word w :: .sym '&' :: .str r :: ts) (.string .unicode s :: ps)
  | unicodeName {ts ps} (w r s : String) :
      Reads ts (.quoted r :: ps) → Reads (.word w :: .sym '&' :: ts) (.unicodeName s :: ps)
  | num {ts ps} (t s : String) : Reads ts ps → Reads (.num t :: ts) (.number s :: ps)
  | dotNum {ts ps} (t s : String) : Reads ts ps → Reads (.sym '.' :: .num t :: ts) (.number s :: ps)
  | dotNums {ts ps} (t s r : String) :
      Reads ts ps → Reads (.sym '.' :: .num t :: ts) (.number s :: .number r :: ps)
  | sym {ts ps} (c : Char) : Reads ts ps → Reads (.sym c :: ts) (.symbol c :: ps)

theorem flatMap_intercalate {f : Char → List Char} {sep : Char} (keeps : f sep = [sep]) (parts : List (List Char)) :
    ([sep].intercalate parts).flatMap f = [sep].intercalate (parts.map fun p => p.flatMap f) := by
  induction parts with
  | nil => rfl
  | cons p parts ih =>
    cases parts with
    | nil => simp
    | cons q parts =>
      rw [List.intercalate_cons_cons, List.flatMap_append, List.flatMap_append, ih]
      simp [keeps]

theorem word_chars {c : Char} (word : isWord c = true) :
    isSpace c = false ∧ ' ' ∉ upperChar c ∧ (upperChar c).map Char.toLower = [c.toLower] ∧ (ColumnTypes.isNameChar c = true ∨ c = '_') := by
  apply ascii_forall (p := fun c => isWord c = true → isSpace c = false ∧ ' ' ∉ upperChar c ∧
    (upperChar c).map Char.toLower = [c.toLower] ∧ (ColumnTypes.isNameChar c = true ∨ c = '_')) _ (isWord_ascii word) word
  decide +kernel

theorem trim_of_words {s : String} (first : ∀ c ∈ s.toList.head?, isSpace c = false)
    (last : ∀ c ∈ s.toList.getLast?, isSpace c = false) : trim s = s := by
  have kept : ∀ cs : List Char, (∀ c ∈ cs.head?, isSpace c = false) → cs.dropWhile isSpace = cs := by
    intro cs first
    cases cs with
    | nil => rfl
    | cons c cs => rw [List.dropWhile_cons, if_neg (by simp [first c rfl])]
  rw [trim, kept _ first, kept, List.reverse_reverse, String.ofList_toList]
  rw [List.head?_reverse]
  exact last

section

variable {ws : List String}

theorem head_words (words : ∀ w ∈ ws, w ≠ "" ∧ ∀ c ∈ w.toList, isWord c = true) :
    ∀ c ∈ ([' '].intercalate (ws.map String.toList)).head?, isSpace c = false := by
  intro c first
  cases ws with
  | nil => cases first
  | cons w ws =>
    obtain ⟨filled, chars⟩ := words w List.mem_cons_self
    have own : w.toList.head? = some c := by
      cases ws with
      | nil => simpa using first
      | cons v ws =>
        rw [List.map_cons, List.map_cons, List.intercalate_cons_cons, List.append_assoc] at first
        cases text : w.toList with
        | nil => exact absurd (String.toList_eq_nil_iff.mp text) filled
        | cons d ds => rwa [text] at first
    exact (word_chars (chars c (List.mem_of_head? own))).1

theorem last_words (words : ∀ w ∈ ws, w ≠ "" ∧ ∀ c ∈ w.toList, isWord c = true) :
    ∀ c ∈ ([' '].intercalate (ws.map String.toList)).getLast?, isSpace c = false := by
  intro c last
  induction ws with
  | nil => cases last
  | cons w ws ih =>
    cases ws with
    | nil =>
      rw [List.map_cons, List.map_nil, List.intercalate_singleton] at last
      exact (word_chars ((words w List.mem_cons_self).2 c (List.mem_of_getLast? last))).1
    | cons v ws =>
      apply ih fun u inside => words u (List.mem_cons_of_mem _ inside)
      rw [List.map_cons, List.map_cons, List.intercalate_cons_cons] at last
      have filled : [' '].intercalate ((v :: ws).map String.toList) ≠ [] := by
        have own := (words v (by simp)).1
        cases ws with
        | nil => simpa using own
        | cons u ws => simp [List.intercalate_cons_cons]
      rwa [← List.map_cons, List.getLast?_append_of_ne_nil _ filled] at last

theorem acceptedType_words (nonempty : ws ≠ []) (words : ∀ w ∈ ws, w ≠ "" ∧ ∀ c ∈ w.toList, isWord c = true)
    (accepted : acceptedType [] (" ".intercalate ws) = true) :
    ∀ w ∈ ws, ∃ t ∈ baseTypes ++ multiWordTypes, upperCase w ∈ split ' ' t := by
  have chars : (" ".intercalate ws).toList = [' '].intercalate (ws.map String.toList) := String.toList_intercalate
  have trimmed : trim (" ".intercalate ws) = " ".intercalate ws := by
    apply trim_of_words
    · rw [chars]
      exact head_words words
    · rw [chars]
      exact last_words words
  have apart : ∀ p ∈ ws.map String.toList, ' ' ∉ p := by
    intro p inParts inside
    obtain ⟨w, inWords, rfl⟩ := List.mem_map.mp inParts
    exact absurd ((words w inWords).2 _ inside) (by decide)
  have filled : ws.map String.toList ≠ [] := by simpa using nonempty
  unfold acceptedType at accepted
  simp only [Bool.and_eq_true, Bool.or_eq_true, List.not_mem_nil, decide_false, Bool.false_eq_true, false_or,
    decide_eq_true_eq] at accepted
  obtain ⟨_, ⟨_, shape⟩, known⟩ := accepted
  have parts : typeParts (" ".intercalate ws) = (([' '].intercalate (ws.map String.toList)), []) := by
    rw [typeParts, trimmed, chars] at shape ⊢
    rw [List.span_eq_takeWhile_dropWhile] at shape ⊢
    cases rest : ([' '].intercalate (ws.map String.toList)).dropWhile ColumnTypes.isNameChar with
    | nil =>
      have whole := List.takeWhile_append_dropWhile (p := ColumnTypes.isNameChar)
        (l := [' '].intercalate (ws.map String.toList))
      rw [rest, List.append_nil] at whole
      rw [whole]
    | cons c cs =>
      have stops : ColumnTypes.isNameChar c = false := by
        have head := List.head?_dropWhile_not ColumnTypes.isNameChar ([' '].intercalate (ws.map String.toList))
        rw [rest] at head
        simpa using head
      have inside : c ∈ [' '].intercalate (ws.map String.toList) :=
        (List.dropWhile_suffix _).subset (rest ▸ List.mem_cons_self)
      obtain rfl : c = '_' := by
        rcases mem_intercalate inside with rfl | ⟨p, inParts, own⟩
        · exact absurd stops (by decide)
        · obtain ⟨w, inWords, rfl⟩ := List.mem_map.mp inParts
          rcases (word_chars ((words w inWords).2 c own)).2.2.2 with name | same
          · rw [stops] at name
            cases name
          · exact same
      rw [rest] at shape
      exact absurd shape Bool.noConfusion
  have upper : ([' '].intercalate (ws.map String.toList)).flatMap upperChar =
      [' '].intercalate ((ws.map String.toList).map fun p => p.flatMap upperChar) := flatMap_intercalate (by decide) _
  have base : baseName (" ".intercalate ws) = upperCase (" ".intercalate ws) := by
    have whole : ((ws.map String.toList).filter (· ≠ [])).map String.ofList = ws := by
      rw [List.filter_eq_self.mpr]
      · simp
      · intro p inParts
        obtain ⟨w, inWords, rfl⟩ := List.mem_map.mp inParts
        simpa using (words w inWords).1
    rw [baseName, parts, splitChars_intercalate filled apart, whole]
  rw [base] at known
  intro w inWords
  refine ⟨upperCase (" ".intercalate ws), by simpa using known, ?_⟩
  rw [split, upperCase, String.toList_ofList, chars, upper, splitChars_intercalate]
  · rw [List.map_map, List.map_map]
    exact List.mem_map_of_mem inWords
  · simpa using nonempty
  · intro p inParts inside
    obtain ⟨q, inTexts, rfl⟩ := List.mem_map.mp inParts
    obtain ⟨v, inV, rfl⟩ := List.mem_map.mp inTexts
    obtain ⟨c, own, blank⟩ := List.mem_flatMap.mp inside
    exact (word_chars ((words v inV).2 c own)).2.1 blank

end

theorem type_words : ∀ t ∈ baseTypes ++ multiWordTypes, ∀ u ∈ split ' ' t,
    forbiddenFunction (asciiLower u) = false := by decide +kernel

theorem asciiLower_upperCase {w : String} (word : ∀ c ∈ w.toList, isWord c = true) :
    asciiLower (upperCase w) = asciiLower w := by
  rw [asciiLower, asciiLower, upperCase, String.toList_ofList, List.map_flatMap]
  congr 1
  rw [List.flatMap_congr fun c inside => (word_chars (word c inside)).2.2.1, List.map_eq_flatMap]

theorem castWords_split (toks : List Tok) : ∃ more, toks = (castWords toks).map .word ++ more := by
  unfold castWords
  split
  · exact ⟨_, rfl⟩
  · exact ⟨_, rfl⟩
  · exact ⟨_, rfl⟩
  · exact ⟨_, rfl⟩
  · exact ⟨_, rfl⟩
  · exact ⟨_, rfl⟩

theorem castLength_pos (words : List String) : 0 < castLength words := by
  unfold castLength
  cases found : [5, 4, 3, 2].find? _ with
  | none => decide
  | some n =>
    have inside := List.mem_of_find?_eq_some found
    simp only [List.mem_cons, List.not_mem_nil, or_false] at inside
    rw [Option.getD_some]
    omega

theorem castLength_le {words : List String} (nonempty : words ≠ []) : castLength words ≤ words.length := by
  unfold castLength
  cases found : [5, 4, 3, 2].find? _ with
  | none => exact List.length_pos_iff.mpr nonempty
  | some n =>
    have short := List.find?_some found
    rw [Bool.and_eq_true, decide_eq_true_eq] at short
    exact short.1

theorem cast_plain {toks : List Tok} (words : ∀ w, .word w ∈ toks → w ≠ "" ∧ ∀ c ∈ w.toList, isWord c = true)
    (nonempty : castWords toks ≠ [])
    (accepted : acceptedType [] (" ".intercalate ((castWords toks).take (castLength (castWords toks)))) = true) :
    ∀ t ∈ toks.take (castLength (castWords toks)), ∃ w, t = .word w ∧ forbiddenFunction (asciiLower w) = false := by
  obtain ⟨more, split⟩ := castWords_split toks
  have own : ∀ w ∈ castWords toks, w ≠ "" ∧ ∀ c ∈ w.toList, isWord c = true := by
    intro w inside
    apply words w
    rw [split]
    exact List.mem_append_left _ (List.mem_map_of_mem inside)
  have taken : toks.take (castLength (castWords toks)) =
      ((castWords toks).take (castLength (castWords toks))).map .word := by
    have short := castLength_le nonempty
    generalize castWords toks = ws at split short
    rw [split, List.take_append_of_le_length (by simpa using short), List.map_take]
  intro t inside
  rw [taken] at inside
  obtain ⟨w, inWords, rfl⟩ := List.mem_map.mp inside
  have some : (castWords toks).take (castLength (castWords toks)) ≠ [] := by
    simp [List.take_eq_nil_iff, nonempty, (castLength_pos (castWords toks)).ne']
  obtain ⟨t, known, part⟩ := acceptedType_words some (fun v inV => own v (List.mem_of_mem_take inV)) accepted w inWords
  have plain := type_words t known _ part
  rw [asciiLower_upperCase (own w (List.mem_of_mem_take inWords)).2] at plain
  exact ⟨w, rfl, plain⟩

section

variable {fail : String → FabricError} {opts : ExprOptions}

theorem checkWord_ok {prev : Option Tok} {w : String} {after : List Tok}
    (h : checkWord fail opts prev w after = .ok ()) :
    upperCase w ∉ forbiddenWords ∧
      (after.head? = some (.sym '(') → forbiddenFunction (asciiLower w) = false) := by
  unfold checkWord at h
  dsimp only at h
  split_ifs at h with keyword call forbidden <;> simp_all

def Skipped (t : Tok) : Prop := t = .sym ':' ∨ ∃ w, t = .word w ∧ forbiddenFunction (asciiLower w) = false

/-- The neighbours of an accepted list, the token before it included. -/
structure Accepts (prev : Option Tok) (toks : List Tok) : Prop where
  chain : toks.IsChain Follows
  dot : toks.head? = some (.sym '.') → newOrOld prev = true
  opened : ∀ w, prev = some (.sym '(') → toks.head? = some (.word w) → upperCase w ∉ forbiddenWords

theorem Accepts.cons {prev : Option Tok} {t : Tok} {ts : List Tok} (later : Accepts (some t) ts)
    (call : ∀ w, t = .word w → ts.head? = some (.sym '(') → forbiddenFunction (asciiLower w) = false)
    (dot : t = .sym '.' → newOrOld prev = true)
    (opened : ∀ w, prev = some (.sym '(') → t = .word w → upperCase w ∉ forbiddenWords) : Accepts prev (t :: ts) where
  chain := by
    cases ts with
    | nil => exact List.IsChain.singleton t
    | cons u us =>
      refine List.isChain_cons_cons.mpr ⟨⟨?_, ?_, ?_⟩, later.chain⟩
      · rintro w own rfl
        exact call w own rfl
      · rintro rfl
        exact later.dot rfl
      · rintro w rfl rfl
        exact later.opened w rfl rfl
  dot head := dot (Option.some.inj head)
  opened w before head := opened w before (Option.some.inj head)

theorem checkTokens_ok {skip depth : ℕ} {prev : Option Tok} {toks : List Tok}
    (words : ∀ w, .word w ∈ toks → w ≠ "" ∧ ∀ c ∈ w.toList, isWord c = true)
    (skipped : ∀ t ∈ toks.take skip, Skipped t) (inCast : skip ≠ 0 → prev ≠ some (.sym '('))
    (h : checkTokens fail opts skip prev depth toks = .ok ()) : Accepts prev toks := by
  induction toks generalizing skip depth prev with
  | nil => exact ⟨List.IsChain.nil, nofun, nofun⟩
  | cons t ts ih =>
    have later : ∀ w, .word w ∈ ts → w ≠ "" ∧ ∀ c ∈ w.toList, isWord c = true :=
      fun w inside => words w (List.mem_cons_of_mem _ inside)
    cases skip with
    | succ skip =>
      have own := skipped t List.mem_cons_self
      have rest : Accepts (some t) ts := by
        refine ih later (fun u inside => skipped u (List.mem_cons_of_mem _ inside)) ?_ h
        rintro _ same
        rcases own with rfl | ⟨w, rfl, _⟩
        · cases same
        · cases same
      apply rest.cons
      · rintro w rfl _
        rcases own with same | ⟨v, same, plain⟩
        · cases same
        · cases same
          exact plain
      · rintro rfl
        rcases own with same | ⟨v, same, _⟩
        · cases same
        · cases same
      · intro w before _
        exact absurd before (inCast (Nat.succ_ne_zero skip))
    | zero =>
      have next : ∀ {depth}, checkTokens fail opts 0 (some t) depth ts = .ok () → Accepts (some t) ts :=
        fun h => ih later (fun u inside => absurd inside List.not_mem_nil) (fun no => absurd rfl no) h
      cases t with
      | word w =>
        rw [checkTokens] at h
        obtain ⟨_, own, h⟩ := bind_ok h
        have plain := checkWord_ok own
        apply (next h).cons
        · rintro v same call
          cases same
          exact plain.2 call
        · rintro same
          cases same
        · rintro v _ same
          cases same
          exact plain.1
      | sym c =>
        have plain : Accepts (some (.sym c)) ts → (c = '.' → newOrOld prev = true) → Accepts prev (.sym c :: ts) := by
          intro rest dot
          apply rest.cons nofun
          · intro same
            exact dot (Tok.sym.inj same)
          · nofun
        rw [checkTokens] at h
        dsimp only at h
        split_ifs at h with opening closing empty dot named colon double noWords accepted
        · exact plain (next h) fun same => absurd same (by rw [opening]; decide)
        · exact plain (next h) fun same => absurd same (by rw [closing]; decide)
        · exact plain (next h) fun _ => named
        · apply plain _ fun same => absurd same (by rw [colon]; decide)
          refine ih later ?_ (fun _ same => ?_) h
          · intro u inside
            cases ts with
            | nil => cases double
            | cons v vs =>
              obtain rfl := Option.some.inj double
              rw [Nat.add_comm, List.take_succ_cons, List.mem_cons] at inside
              rcases inside with rfl | inside
              · exact .inl rfl
              · exact .inr (cast_plain (fun w inVs => later w (List.mem_cons_of_mem _ inVs)) noWords accepted u inside)
          · rw [colon] at same
            cases same
        · exact plain (next h) fun same => absurd same dot
      | ws c => exact (next h).cons nofun nofun nofun
      | qident a => exact (next h).cons nofun nofun nofun
      | str r => exact (next h).cons nofun nofun nofun
      | num n => exact (next h).cons nofun nofun nofun

end

structure Near (a b : PgToken) : Prop where
  call : ∀ w, a = .name w → b = .symbol '(' → forbiddenFunction (asciiLower w) = false
  dot : b = .symbol '.' → ∃ w, a = .name w ∧ asciiLower w ∈ ["new", "old"]
  opened : ∀ w, a = .symbol '(' → b = .name w → upperCase w ∉ forbiddenWords

section

variable {ts : List Tok} {ps : List PgToken}

theorem head_symbol {c : Char} (reads : Reads ts (.symbol c :: ps)) : ts.head? = some (.sym c) := by
  cases reads
  rfl

theorem head_name {w : String} (reads : Reads ts (.name w :: ps)) : ts.head? = some (.word w) := by
  cases reads
  rfl

theorem newOrOld_word {t : Tok} (h : newOrOld (some t) = true) : ∃ w, t = .word w ∧ asciiLower w ∈ ["new", "old"] := by
  cases t with
  | word w => exact ⟨w, rfl, List.contains_iff_mem.mp h⟩
  | _ => cases h

theorem near_head {a : Tok} {p : PgToken} (chain : (a :: ts).IsChain Follows) (reads : Reads ts ps)
    (name : ∀ w, p = .name w ↔ a = .word w) (symbol : ∀ c, p = .symbol c → a = .sym c) (later : ps.IsChain Near) :
    (p :: ps).IsChain Near := by
  cases ps with
  | nil => exact .singleton p
  | cons q ps =>
    refine List.isChain_cons_cons.mpr ⟨?_, later⟩
    have follows : ∀ b, ts.head? = some b → Follows a b := by
      intro b head
      cases ts with
      | nil => cases head
      | cons u us =>
        obtain rfl := Option.some.inj head
        exact (List.isChain_cons_cons.mp chain).1
    constructor
    · rintro w own rfl
      exact (follows _ (head_symbol reads)).call w ((name w).mp own) rfl
    · rintro rfl
      obtain ⟨w, own, known⟩ := newOrOld_word ((follows _ (head_symbol reads)).dot rfl)
      exact ⟨w, (name w).mpr own, known⟩
    · rintro w own rfl
      exact (follows _ (head_name reads)).opened w (symbol '(' own) rfl

theorem near_quoted {p q : PgToken} (name : ∀ w, q ≠ .name w) (symbol : ∀ c, q ≠ .symbol c) (other : ∀ w, p ≠ .name w)
    (chain : (p :: ps).IsChain Near) : (q :: ps).IsChain Near := by
  cases ps with
  | nil => exact .singleton q
  | cons u us =>
    obtain ⟨near, later⟩ := List.isChain_cons_cons.mp chain
    refine List.isChain_cons_cons.mpr ⟨⟨fun w own => absurd own (name w), ?_, fun w own => absurd own (symbol '(')⟩, later⟩
    intro dot
    obtain ⟨w, own, _⟩ := near.dot dot
    exact absurd own (other w)

theorem reads_near (reads : Reads ts ps) (chain : ts.IsChain Follows) : ps.IsChain Near := by
  induction reads with
  | nil => exact .nil
  | word w rest ih => exact near_head chain rest (by simp) (by simp) (ih chain.tail)
  | quoted a s rest ih => exact near_head chain rest (by simp) (by simp) (ih chain.tail)
  | touching a b r s rest ih => exact near_quoted (by simp) (by simp) (by simp) (ih chain.tail)
  | str r s rest ih => exact near_head chain rest (by simp) (by simp) (ih chain.tail)
  | unicodeString w r s rest ih => exact near_head chain.tail.tail rest (by simp) (by simp) (ih chain.tail.tail.tail)
  | unicodeName w r s rest ih => exact near_quoted (by simp) (by simp) (by simp) (ih chain.tail.tail)
  | num t s rest ih => exact near_head chain rest (by simp) (by simp) (ih chain.tail)
  | dotNum t s rest ih => exact near_head chain.tail rest (by simp) (by simp) (ih chain.tail.tail)
  | dotNums t s r rest ih =>
    have inner := near_head (p := .number r) chain.tail rest (by simp) (by simp) (ih chain.tail.tail)
    exact List.isChain_cons_cons.mpr ⟨⟨by simp, by simp, by simp⟩, inner⟩
  | sym c rest ih => exact near_head chain rest (by simp) (by simp) (ih chain.tail)

theorem reads_strings (reads : Reads ts ps) {kind : StringKind} {s : String} (inside : .string kind s ∈ ps) :
    kind = .plain ∨ kind = .unicode := by
  induction reads with
  | nil => cases inside
  | touching a b r s' rest ih => exact ih (by simpa using inside)
  | unicodeName w r s' rest ih => exact ih (by simpa using inside)
  | str r s' rest ih =>
    rcases List.mem_cons.mp inside with same | later
    · exact .inl (PgToken.string.inj same).1
    · exact ih later
  | unicodeString w r s' rest ih =>
    rcases List.mem_cons.mp inside with same | later
    · exact .inr (PgToken.string.inj same).1
    · exact ih later
  | word w rest ih => exact ih (by simpa using inside)
  | quoted a s' rest ih => exact ih (by simpa using inside)
  | num t s' rest ih => exact ih (by simpa using inside)
  | dotNum t s' rest ih => exact ih (by simpa using inside)
  | dotNums t s' r rest ih => exact ih (by simpa using inside)
  | sym c rest ih => exact ih (by simpa using inside)

end

end DataFabric.DdlReadings
