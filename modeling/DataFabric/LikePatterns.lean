import Mathlib.Data.List.Basic
import Mathlib.Data.List.Infix
import Mathlib.Data.List.Count
import Mathlib.Data.Bool.AllAny

set_option autoImplicit false

/-!
# Wildcard patterns over texts

A pattern is a list of pieces. What a wildcard passes over and what may be left at the
end are parameters, so that LIKE and a regular expression read the same pieces.
-/
namespace DataFabric.LikePatterns

inductive Piece
  | any
  | one
  | exactly (c : Char)
  deriving DecidableEq, Repr

/-- Which characters count as equal, what a wildcard passes over, what may be left. -/
structure Reading where
  fold : Char → Char
  wild : Char → Bool
  rest : List Char → Bool

def skips (wild : Char → Bool) : List Char → List (List Char)
  | [] => [[]]
  | c :: s => (c :: s) :: if wild c then skips wild s else []

def accepts (r : Reading) : List Piece → List Char → Bool
  | [], s => r.rest s
  | .any :: ps, s => (skips r.wild s).any (accepts r ps)
  | .one :: _, [] => false
  | .one :: ps, c :: s => r.wild c && accepts r ps s
  | .exactly _ :: _, [] => false
  | .exactly d :: ps, c :: s => decide (r.fold c = r.fold d) && accepts r ps s

def demand (kind : Char → Bool) : List Piece → ℕ
  | [] => 0
  | .exactly c :: ps => demand kind ps + if kind c then 1 else 0
  | _ :: ps => demand kind ps

/-- A text with the filler for every run and `a` for every single wildcard. -/
def sample (filler : List Char) : List Piece → List Char
  | [] => []
  | .any :: ps => filler ++ sample filler ps
  | .one :: ps => 'a' :: sample filler ps
  | .exactly c :: ps => c :: sample filler ps

theorem mem_skips (wild : Char → Bool) (s t : List Char) :
    t ∈ skips wild s ↔ ∃ u, s = u ++ t ∧ u.all wild = true := by
  induction s with
  | nil =>
    rw [skips, List.mem_singleton]
    constructor
    · rintro rfl
      exact ⟨[], rfl, rfl⟩
    · rintro ⟨u, split, _⟩
      exact (List.append_eq_nil_iff.mp split.symm).2
  | cons c s ih =>
    rw [skips, List.mem_cons]
    constructor
    · rintro (rfl | later)
      · exact ⟨[], rfl, rfl⟩
      · by_cases hc : wild c = true
        · rw [if_pos hc, ih] at later
          obtain ⟨u, rfl, all⟩ := later
          exact ⟨c :: u, rfl, by simp [hc, all]⟩
        · rw [if_neg hc] at later
          exact absurd later List.not_mem_nil
    · rintro ⟨u, split, all⟩
      cases u with
      | nil => exact .inl split.symm
      | cons d u =>
        rw [List.cons_append, List.cons.injEq] at split
        obtain ⟨rfl, split⟩ := split
        rw [List.all_cons, Bool.and_eq_true] at all
        rw [if_pos all.1, ih]
        exact .inr ⟨u, split, all.2⟩

theorem accepts_any (r : Reading) (ps : List Piece) (s : List Char) :
    accepts r (.any :: ps) s = true ↔
      ∃ u t, s = u ++ t ∧ u.all r.wild = true ∧ accepts r ps t = true := by
  rw [accepts, List.any_eq_true]
  constructor
  · rintro ⟨t, inSkips, h⟩
    obtain ⟨u, split, all⟩ := (mem_skips r.wild s t).mp inSkips
    exact ⟨u, t, split, all, h⟩
  · rintro ⟨u, t, split, all, h⟩
    exact ⟨t, (mem_skips r.wild s t).mpr ⟨u, split, all⟩, h⟩

theorem accepts_one (r : Reading) (ps : List Piece) (s : List Char) :
    accepts r (.one :: ps) s = true ↔ ∃ c t, s = c :: t ∧ r.wild c = true ∧ accepts r ps t = true := by
  cases s <;> simp [accepts]

theorem accepts_exactly (r : Reading) (d : Char) (ps : List Piece) (s : List Char) :
    accepts r (.exactly d :: ps) s = true ↔
      ∃ c t, s = c :: t ∧ r.fold c = r.fold d ∧ accepts r ps t = true := by
  cases s <;> simp [accepts]

section

variable {r : Reading} {ps : List Piece} {s : List Char}

theorem accepts_of_agree {q : Reading} (fold : r.fold = q.fold)
    (wild : ∀ c ∈ s, r.wild c = true → q.wild c = true)
    (rest : ∀ t, t <:+ s → r.rest t = true → q.rest t = true) (h : accepts r ps s = true) :
    accepts q ps s = true := by
  induction ps generalizing s with
  | nil => exact rest s List.suffix_rfl h
  | cons p ps ih =>
    have later : ∀ u t, s = u ++ t → accepts r ps t = true → accepts q ps t = true := by
      intro u t split accepted
      subst split
      apply ih _ _ accepted
      · intro c inside
        exact wild c (List.mem_append_right u inside)
      · intro v suffix
        exact rest v (suffix.trans (List.suffix_append u t))
    cases p with
    | any =>
      rw [accepts_any] at h ⊢
      obtain ⟨u, t, split, all, accepted⟩ := h
      refine ⟨u, t, split, ?_, later u t split accepted⟩
      rw [List.all_eq_true] at all ⊢
      intro c inside
      exact wild c (split ▸ List.mem_append_left t inside) (all c inside)
    | one =>
      rw [accepts_one] at h ⊢
      obtain ⟨c, t, split, passes, accepted⟩ := h
      exact ⟨c, t, split, wild c (split ▸ List.mem_cons_self) passes, later [c] t split accepted⟩
    | exactly d =>
      rw [accepts_exactly] at h ⊢
      obtain ⟨c, t, split, same, accepted⟩ := h
      exact ⟨c, t, split, fold ▸ same, later [c] t split accepted⟩

theorem demand_le_count (kind : Char → Bool) (closed : ∀ c d, r.fold c = r.fold d → kind c = kind d)
    (h : accepts r ps s = true) : demand kind ps ≤ s.countP kind := by
  induction ps generalizing s with
  | nil => exact Nat.zero_le _
  | cons p ps ih =>
    cases p with
    | any =>
      obtain ⟨u, t, rfl, _, accepted⟩ := (accepts_any r ps s).mp h
      have below := ih accepted
      rw [List.countP_append]
      change demand kind ps ≤ _
      omega
    | one =>
      obtain ⟨c, t, rfl, _, accepted⟩ := (accepts_one r ps s).mp h
      have below := ih accepted
      rw [List.countP_cons]
      change demand kind ps ≤ _
      omega
    | exactly d =>
      obtain ⟨c, t, rfl, same, accepted⟩ := (accepts_exactly r d ps s).mp h
      have below := ih accepted
      rw [List.countP_cons, closed c d same]
      change demand kind ps + _ ≤ _
      omega

theorem count_le_demand (kind : Char → Bool) (closed : ∀ c d, r.fold c = r.fold d → kind c = kind d)
    (blind : ∀ c, r.wild c = true → kind c = false) (k : ℕ)
    (rest : ∀ t, r.rest t = true → t.countP kind ≤ k) (h : accepts r ps s = true) :
    s.countP kind ≤ demand kind ps + k := by
  induction ps generalizing s with
  | nil =>
    have left := rest s h
    change _ ≤ 0 + k
    omega
  | cons p ps ih =>
    cases p with
    | any =>
      obtain ⟨u, t, rfl, all, accepted⟩ := (accepts_any r ps s).mp h
      have below := ih accepted
      have none : u.countP kind = 0 := by
        rw [List.countP_eq_zero]
        intro c inside
        rw [List.all_eq_true] at all
        simp [blind c (all c inside)]
      rw [List.countP_append, none]
      change _ ≤ demand kind ps + k
      omega
    | one =>
      obtain ⟨c, t, rfl, passes, accepted⟩ := (accepts_one r ps s).mp h
      have below := ih accepted
      rw [List.countP_cons, blind c passes]
      change _ ≤ demand kind ps + k
      simpa using below
    | exactly d =>
      obtain ⟨c, t, rfl, same, accepted⟩ := (accepts_exactly r d ps s).mp h
      have below := ih accepted
      rw [List.countP_cons, closed c d same]
      change _ ≤ demand kind ps + _ + k
      omega

theorem accepts_sample (ps : List Piece) (filler t : List Char) (fills : filler.all r.wild = true)
    (single : r.wild 'a' = true) (rest : r.rest t = true) :
    accepts r ps (sample filler ps ++ t) = true := by
  induction ps with
  | nil => exact rest
  | cons p ps ih =>
    cases p with
    | any =>
      rw [accepts_any]
      exact ⟨filler, sample filler ps ++ t, List.append_assoc .., fills, ih⟩
    | one =>
      rw [accepts_one]
      exact ⟨'a', sample filler ps ++ t, rfl, single, ih⟩
    | exactly c =>
      rw [accepts_exactly]
      exact ⟨c, sample filler ps ++ t, rfl, rfl, ih⟩

theorem count_sample (kind : Char → Bool) (single : kind 'a' = false) (ps : List Piece) :
    (sample [] ps).countP kind = demand kind ps := by
  induction ps with
  | nil => rfl
  | cons p ps ih =>
    cases p with
    | any => exact ih
    | one => rw [sample, List.countP_cons, ih, single]; rfl
    | exactly c => rw [sample, List.countP_cons, ih]; rfl

theorem count_filler (kind : Char → Bool) (filler : List Char) (run : Piece.any ∈ ps) :
    filler.countP kind ≤ (sample filler ps).countP kind := by
  induction ps with
  | nil => exact absurd run List.not_mem_nil
  | cons p ps ih =>
    cases p with
    | any =>
      rw [sample, List.countP_append]
      omega
    | one =>
      have below := ih (by simpa using run)
      rw [sample, List.countP_cons]
      omega
    | exactly c =>
      have below := ih (by simpa using run)
      rw [sample, List.countP_cons]
      omega

theorem mem_sample {c : Char} (h : c ∈ sample [] ps) : c = 'a' ∨ Piece.exactly c ∈ ps := by
  induction ps with
  | nil => exact absurd h List.not_mem_nil
  | cons p ps ih =>
    cases p with
    | any => exact (ih h).imp_right (List.mem_cons_of_mem _)
    | one =>
      rcases List.mem_cons.mp h with rfl | h
      · exact .inl rfl
      · exact (ih h).imp_right (List.mem_cons_of_mem _)
    | exactly d =>
      rcases List.mem_cons.mp h with rfl | h
      · exact .inr List.mem_cons_self
      · exact (ih h).imp_right (List.mem_cons_of_mem _)

theorem length_of_accepts (noRun : Piece.any ∉ ps) (rest : ∀ t, r.rest t = true → t = [])
    (h : accepts r ps s = true) : s.length = (sample [] ps).length := by
  induction ps generalizing s with
  | nil =>
    rw [rest s h]
    rfl
  | cons p ps ih =>
    rw [List.mem_cons, not_or] at noRun
    cases p with
    | any => exact absurd rfl noRun.1
    | one =>
      obtain ⟨c, t, rfl, _, accepted⟩ := (accepts_one r ps s).mp h
      simp [sample, ih noRun.2 accepted]
    | exactly d =>
      obtain ⟨c, t, rfl, _, accepted⟩ := (accepts_exactly r d ps s).mp h
      simp [sample, ih noRun.2 accepted]

theorem demand_pos (kind : Char → Bool) {c : Char} (isKind : kind c = true) (spelled : Piece.exactly c ∈ ps) : 0 < demand kind ps := by
  induction ps with
  | nil => exact absurd spelled List.not_mem_nil
  | cons p ps ih =>
    rcases List.mem_cons.mp spelled with rfl | later
    · rw [demand, isKind]
      exact Nat.succ_pos _
    · have pos := ih later
      cases p with
      | any => exact pos
      | one => exact pos
      | exactly d =>
        rw [demand]
        omega

theorem demand_none {kind : Char → Bool} (apart : ∀ c, Piece.exactly c ∈ ps → kind c = false) : demand kind ps = 0 := by
  induction ps with
  | nil => rfl
  | cons p ps ih =>
    have later := ih fun c spelled => apart c (List.mem_cons_of_mem _ spelled)
    cases p with
    | any => exact later
    | one => exact later
    | exactly d => simp [demand, later, apart d List.mem_cons_self]

theorem accepts_spelled (v : List Char) (s : List Char) :
    accepts r (v.map .exactly ++ ps) s = true ↔
      ∃ u t, s = u ++ t ∧ u.map r.fold = v.map r.fold ∧ accepts r ps t = true := by
  induction v generalizing s with
  | nil =>
    constructor
    · intro h
      exact ⟨[], s, rfl, rfl, h⟩
    · rintro ⟨u, t, rfl, empty, h⟩
      obtain rfl := List.map_eq_nil_iff.mp empty
      exact h
  | cons c v ih =>
    rw [List.map_cons, List.cons_append, accepts_exactly]
    constructor
    · rintro ⟨d, t, rfl, same, h⟩
      obtain ⟨u, t, rfl, spelled, h⟩ := (ih t).mp h
      exact ⟨d :: u, t, rfl, by simp [same, spelled], h⟩
    · rintro ⟨u, t, rfl, spelled, h⟩
      cases u with
      | nil => exact absurd spelled (List.cons_ne_nil _ _).symm
      | cons d u =>
        rw [List.map_cons, List.map_cons, List.cons.injEq] at spelled
        exact ⟨d, u ++ t, rfl, spelled.1, (ih _).mpr ⟨u, t, rfl, spelled.2, h⟩⟩

end

def plainPiece (c : Char) : Piece := if c = '%' then .any else if c = '_' then .one else .exactly c

/-- A pattern with the backslash as escape; one that ends in a lone escape is refused. -/
def likePieces : List Char → Option (List Piece)
  | [] => some []
  | c :: p =>
    if c = '\\' then
      match p with
      | [] => none
      | d :: p => (likePieces p).map (.exactly d :: ·)
    else (likePieces p).map (plainPiece c :: ·)

theorem likePieces_escape (d : Char) (p : List Char) :
    likePieces ('\\' :: d :: p) = (likePieces p).map (.exactly d :: ·) := rfl

theorem likePieces_cons {c : Char} (unescaped : c ≠ '\\') (p : List Char) :
    likePieces (c :: p) = (likePieces p).map (plainPiece c :: ·) := by
  rw [likePieces.eq_def]
  simp only [if_neg unescaped]

def likeReading (fold : Char → Char) : Reading := ⟨fold, fun _ => true, List.isEmpty⟩

def like (fold : Char → Char) (pattern s : List Char) : Bool :=
  (likePieces pattern).any fun ps => accepts (likeReading fold) ps s

/-- `^` at the front, `$` at the end, and what stands between. -/
structure Regex where
  start : Bool
  body : List Piece
  finish : Bool
  deriving DecidableEq, Repr

def metaChars : List Char := ['.', '*', '+', '?', '^', '$', '{', '}', '(', ')', '|', '[', ']', '\\']

def regexItems : List Char → Option (List Piece × Bool)
  | [] => some ([], false)
  | c :: t =>
    if c = '$' then if t = [] then some ([], true) else none
    else if c = '\\' then
      match t with
      | [] => none
      | d :: t =>
        if d.isAlphanum then none
        else (regexItems t).map fun items => (.exactly d :: items.1, items.2)
    else if c = '.' then
      match t with
      | [] => some ([.one], false)
      | d :: u =>
        if d = '*' then (regexItems u).map fun items => (.any :: items.1, items.2)
        else (regexItems (d :: u)).map fun items => (.one :: items.1, items.2)
    else if c ∈ metaChars then none
    else (regexItems t).map fun items => (.exactly c :: items.1, items.2)

def parseRegex (text : List Char) : Option Regex :=
  match text with
  | '^' :: t => (regexItems t).map fun items => ⟨true, items.1, items.2⟩
  | t => (regexItems t).map fun items => ⟨false, items.1, items.2⟩

/-- Without the multiline option `.` does not pass a line feed and `$` stands at the end or before
a final line feed. -/
def regexReading (fold : Char → Char) (finish : Bool) : Reading where
  fold := fold
  wild c := c ≠ '\n'
  rest t := !finish || t = [] || t = ['\n']

def Regex.finds (fold : Char → Char) (x : Regex) (s : List Char) : Bool :=
  let run := accepts (regexReading fold x.finish) x.body
  if x.start then run s else s.tails.any run

def escaped (c : Char) : List Char := if c ∈ metaChars then ['\\', c] else [c]

/-- A LIKE wildcard as its regular expression, any other character as itself. -/
def encoded (c : Char) : List Char :=
  if c = '%' then ['.', '*'] else if c = '_' then ['.'] else escaped c

theorem regexItems_backslash (d : Char) (t : List Char) :
    regexItems ('\\' :: d :: t) =
      if d.isAlphanum then none else (regexItems t).map fun items => (.exactly d :: items.1, items.2) := rfl

theorem regexItems_plain {c : Char} (plain : c ∉ metaChars) (t : List Char) :
    regexItems (c :: t) = (regexItems t).map fun items => (.exactly c :: items.1, items.2) := by
  have apart : ∀ d ∈ metaChars, c ≠ d := fun d inside same => plain (same ▸ inside)
  rw [regexItems.eq_def]
  simp only [if_neg (apart '$' (by decide)), if_neg (apart '\\' (by decide)), if_neg (apart '.' (by decide)),
    if_neg plain]

theorem regexItems_escaped (c : Char) (t : List Char) :
    regexItems (escaped c ++ t) = (regexItems t).map fun items => (.exactly c :: items.1, items.2) := by
  have plain : ∀ d ∈ metaChars, d.isAlphanum = false := List.all_iff_forall_prop.mp (by decide)
  unfold escaped
  by_cases special : c ∈ metaChars
  · rw [if_pos special]
    change regexItems ('\\' :: c :: t) = _
    simp only [regexItems_backslash, plain c special, Bool.false_eq_true, if_false]
  · rw [if_neg special]
    exact regexItems_plain special t

theorem regexItems_run (t : List Char) :
    regexItems ('.' :: '*' :: t) = (regexItems t).map fun items => (.any :: items.1, items.2) := rfl

theorem regexItems_one (t : List Char) (next : t.head? ≠ some '*') :
    regexItems ('.' :: t) = (regexItems t).map fun items => (.one :: items.1, items.2) := by
  cases t with
  | nil => rfl
  | cons d u =>
    rw [List.head?_cons, ne_eq, Option.some.injEq] at next
    exact if_neg next

theorem head_encoded (p : List Char) : (p.flatMap encoded ++ ['$']).head? ≠ some '*' := by
  cases p with
  | nil => decide
  | cons c p =>
    rw [List.flatMap_cons]
    unfold encoded escaped
    split_ifs with run single special
    · simp
    · simp
    · simp
    · simp only [List.cons_append, List.nil_append, List.head?_cons, ne_eq, Option.some.injEq]
      rintro rfl
      exact special (by decide)

theorem regexItems_encoded (p : List Char) :
    regexItems (p.flatMap encoded ++ ['$']) = some (p.map plainPiece, true) := by
  induction p with
  | nil => rfl
  | cons c p ih =>
    rw [List.flatMap_cons, List.append_assoc, List.map_cons]
    by_cases run : c = '%'
    · subst run
      change regexItems ('.' :: '*' :: (p.flatMap encoded ++ ['$'])) = _
      rw [regexItems_run, ih]
      rfl
    · by_cases single : c = '_'
      · subst single
        change regexItems ('.' :: (p.flatMap encoded ++ ['$'])) = _
        rw [regexItems_one _ (head_encoded p), ih]
        rfl
      · have piece : plainPiece c = .exactly c := by
          rw [plainPiece, if_neg run, if_neg single]
        rw [encoded, if_neg run, if_neg single, regexItems_escaped, ih, piece]
        rfl

theorem regexItems_escapedText (v : List Char) :
    regexItems (v.flatMap escaped) = some (v.map .exactly, false) := by
  induction v with
  | nil => rfl
  | cons c v ih =>
    rw [List.flatMap_cons, regexItems_escaped, ih]
    rfl

theorem parseRegex_encoded (p : List Char) :
    parseRegex ('^' :: (p.flatMap encoded ++ ['$'])) = some ⟨true, p.map plainPiece, true⟩ := by
  rw [parseRegex, regexItems_encoded]
  rfl

theorem parseRegex_escapedText (v : List Char) :
    parseRegex (v.flatMap escaped) = some ⟨false, v.map .exactly, false⟩ := by
  have items := regexItems_escapedText v
  have noCaret : ∀ t, v.flatMap escaped ≠ '^' :: t := by
    intro t same
    cases v with
    | nil => exact absurd same (List.cons_ne_nil _ _).symm
    | cons c v =>
      rw [List.flatMap_cons, escaped] at same
      split_ifs at same with special
      · exact absurd (List.cons.inj same).1 (by decide)
      · exact special ((List.cons.inj same).1 ▸ by decide)
  unfold parseRegex
  split
  · exact absurd (by assumption) (noCaret _)
  · rw [items]
    rfl

def Keeps (fold : Char → Char) (c : Char) : Prop := ∀ d, fold d = fold c → d = c

section

variable {fold : Char → Char} {p s v : List Char}

theorem Keeps.closed {c : Char} (keeps : Keeps fold c) (d e : Char) (same : fold d = fold e) :
    decide (d = c) = decide (e = c) := by
  rw [decide_eq_decide]
  constructor
  · rintro rfl
    exact keeps e same.symm
  · rintro rfl
    exact keeps d same

theorem likePieces_plain (noEscape : '\\' ∉ p) : likePieces p = some (p.map plainPiece) := by
  induction p with
  | nil => rfl
  | cons c p ih =>
    rw [List.mem_cons, not_or] at noEscape
    rw [likePieces_cons (Ne.symm noEscape.1), ih noEscape.2]
    rfl

theorem like_plain (noEscape : '\\' ∉ p) : like fold p s = accepts (likeReading fold) (p.map plainPiece) s := by
  rw [like, likePieces_plain noEscape]
  rfl

theorem anchored_eq_like (noEscape : '\\' ∉ p) (noFeed : '\n' ∉ s) :
    Regex.finds fold ⟨true, p.map plainPiece, true⟩ s = like fold p s := by
  rw [like_plain noEscape]
  change accepts (regexReading fold true) (p.map plainPiece) s = _
  have apart : ∀ c ∈ s, c ≠ '\n' := fun c inside same => noFeed (same ▸ inside)
  rw [Bool.eq_iff_iff]
  constructor
  · apply accepts_of_agree (r := regexReading fold true) (q := likeReading fold) rfl
    · intro c _ _
      rfl
    · intro t suffix ended
      change List.isEmpty t = true
      simp only [regexReading, Bool.not_true, Bool.false_or, Bool.or_eq_true, decide_eq_true_eq] at ended
      rcases ended with rfl | rfl
      · rfl
      · exact absurd rfl (apart '\n' (suffix.subset (List.mem_singleton_self _)))
  · apply accepts_of_agree (r := likeReading fold) (q := regexReading fold true) rfl
    · intro c inside _
      exact decide_eq_true (apart c inside)
    · intro t _ ended
      obtain rfl := List.isEmpty_iff.mp ended
      rfl

theorem spelled_likePieces {ps : List Piece} (pieces : likePieces p = some ps) {c : Char} (spelled : .exactly c ∈ ps) :
    c ∈ p := by
  induction p using likePieces.induct generalizing ps with
  | case1 =>
    cases pieces
    exact absurd spelled List.not_mem_nil
  | case2 => cases pieces
  | case3 d p ih =>
    rw [likePieces_escape] at pieces
    obtain ⟨qs, rest, rfl⟩ := Option.map_eq_some_iff.mp pieces
    rcases List.mem_cons.mp spelled with same | later
    · obtain rfl := Piece.exactly.inj same
      exact List.mem_cons_of_mem _ List.mem_cons_self
    · exact List.mem_cons_of_mem _ (List.mem_cons_of_mem _ (ih rest later))
  | case4 d p plain ih =>
    rw [likePieces_cons plain] at pieces
    obtain ⟨qs, rest, rfl⟩ := Option.map_eq_some_iff.mp pieces
    rcases List.mem_cons.mp spelled with same | later
    · unfold plainPiece at same
      split_ifs at same
      obtain rfl := Piece.exactly.inj same
      exact List.mem_cons_self
    · exact List.mem_cons_of_mem _ (ih rest later)

theorem mem_plain {c : Char} (spelled : .exactly c ∈ p.map plainPiece) : c ∈ p ∧ c ≠ '%' ∧ c ≠ '_' := by
  obtain ⟨d, inside, same⟩ := List.mem_map.mp spelled
  unfold plainPiece at same
  split_ifs at same with run single
  obtain rfl := Piece.exactly.inj same
  exact ⟨inside, run, single⟩

theorem demand_plain {kind : Char → Bool} (run : kind '%' = false) (single : kind '_' = false) (p : List Char) :
    demand kind (p.map plainPiece) = p.countP kind := by
  induction p with
  | nil => rfl
  | cons c p ih =>
    rw [List.map_cons, List.countP_cons, ← ih, plainPiece]
    split_ifs with percent underscore <;> simp_all [demand]

theorem demand_spelled (kind : Char → Bool) (v : List Char) : demand kind (v.map .exactly) = v.countP kind := by
  induction v with
  | nil => rfl
  | cons c v ih => rw [List.map_cons, List.countP_cons, demand, ih]

theorem demand_escapes {ps : List Piece} (pieces : likePieces p = some ps) :
    2 * demand (fun c => c = '\\') ps ≤ p.countP (fun c => c = '\\') := by
  induction p using likePieces.induct generalizing ps with
  | case1 =>
    cases pieces
    exact Nat.zero_le _
  | case2 => cases pieces
  | case3 d p ih =>
    rw [likePieces_escape] at pieces
    obtain ⟨qs, rest, rfl⟩ := Option.map_eq_some_iff.mp pieces
    have below := ih rest
    rw [demand, List.countP_cons, List.countP_cons]
    by_cases backslash : d = '\\'
    · simp only [backslash, decide_true, if_true]
      omega
    · simp only [backslash, decide_false, decide_true, Bool.false_eq_true, if_true, if_false]
      omega
  | case4 d p plain ih =>
    rw [likePieces_cons plain] at pieces
    obtain ⟨qs, rest, rfl⟩ := Option.map_eq_some_iff.mp pieces
    have below := ih rest
    have same : demand (fun c => c = '\\') (plainPiece d :: qs) = demand (fun c => c = '\\') qs := by
      unfold plainPiece
      split_ifs <;> simp [demand, plain]
    rw [same, List.countP_cons]
    simp only [plain, decide_false, Bool.false_eq_true, if_false]
    omega

theorem finds_sample (fold : Char → Char) (x : Regex) : x.finds fold (sample [] x.body) = true := by
  have found : accepts (regexReading fold x.finish) x.body (sample [] x.body) = true := by
    have whole := accepts_sample (r := regexReading fold x.finish) x.body [] [] rfl rfl
      (by simp [regexReading])
    rwa [List.append_nil] at whole
  unfold Regex.finds
  cases x.start with
  | true => exact found
  | false => exact List.any_eq_true.mpr ⟨_, List.mem_tails _ _ |>.mpr List.suffix_rfl, found⟩

theorem count_of_finds (kind : Char → Bool) (closed : ∀ c d, fold c = fold d → kind c = kind d) {x : Regex}
    (found : x.finds fold s = true) : demand kind x.body ≤ s.countP kind := by
  unfold Regex.finds at found
  cases anchored : x.start with
  | true =>
    rw [anchored] at found
    exact demand_le_count kind closed found
  | false =>
    rw [anchored] at found
    obtain ⟨t, suffix, accepted⟩ := List.any_eq_true.mp found
    have inTail := demand_le_count kind closed accepted
    have tail : t.countP kind ≤ s.countP kind :=
      ((List.mem_tails _ _).mp suffix).sublist.countP_le
    omega

theorem like_sample {ps : List Piece} (pieces : likePieces p = some ps) (filler : List Char) :
    like fold p (sample filler ps) = true := by
  have whole := accepts_sample (r := likeReading fold) ps filler []
    (by simp [likeReading]) rfl rfl
  rw [like, pieces]
  rwa [List.append_nil] at whole

theorem escape_differs (keeps : Keeps fold '\\') (escape : '\\' ∈ p) (x : Regex)
    (spells : demand (fun c => c = '\\') x.body = p.countP (fun c => c = '\\')) :
    ∃ s, (∀ c ∈ s, c = 'a' ∨ c ∈ p ∨ .exactly c ∈ x.body) ∧ x.finds fold s ≠ like fold p s := by
  cases pieces : likePieces p with
  | none =>
    refine ⟨sample [] x.body, ?_, ?_⟩
    · intro c inside
      exact (mem_sample inside).imp_right .inr
    · rw [finds_sample, like, pieces]
      exact Bool.noConfusion
  | some ps =>
    refine ⟨sample [] ps, ?_, ?_⟩
    · intro c inside
      exact (mem_sample inside).imp_right fun spelled => .inl (spelled_likePieces pieces spelled)
    · rw [like_sample pieces]
      intro found
      have needs := count_of_finds _ keeps.closed found
      have has := count_sample (fun c => decide (c = '\\')) rfl ps
      have below := demand_escapes pieces
      have pos : 0 < p.countP (fun c => decide (c = '\\')) :=
        List.countP_pos_iff.mpr ⟨'\\', escape, rfl⟩
      omega

theorem feed_differs (keeps : Keeps fold '\n') (noEscape : '\\' ∉ p) :
    ∃ s, Regex.finds fold ⟨true, p.map plainPiece, true⟩ s ≠ like fold p s := by
  have pieces := likePieces_plain noEscape
  by_cases run : Piece.any ∈ p.map plainPiece
  · let filler := List.replicate (p.countP (fun c => c = '\n') + 2) '\n'
    refine ⟨sample filler (p.map plainPiece), ?_⟩
    rw [like_sample pieces]
    intro found
    change accepts (regexReading fold true) (p.map plainPiece) _ = true at found
    have atMost := count_le_demand (fun c => c = '\n') keeps.closed
      (by simp [regexReading]) 1 ?_ found
    · have atLeast := count_filler (fun c => c = '\n') filler run
      have many : filler.countP (fun c => c = '\n') = p.countP (fun c => c = '\n') + 2 := by
        simp [filler, List.countP_replicate]
      rw [demand_plain rfl rfl] at atMost
      omega
    · intro t ended
      simp only [regexReading, Bool.not_true, Bool.false_or, Bool.or_eq_true, decide_eq_true_eq] at ended
      rcases ended with rfl | rfl <;> simp
  · refine ⟨sample [] (p.map plainPiece) ++ ['\n'], ?_⟩
    have found : Regex.finds fold ⟨true, p.map plainPiece, true⟩ (sample [] (p.map plainPiece) ++ ['\n']) = true :=
      accepts_sample _ _ _ rfl rfl rfl
    rw [found, like_plain noEscape]
    intro liked
    have length := length_of_accepts run (fun t ended => List.isEmpty_iff.mp ended) liked.symm
    rw [List.length_append] at length
    simp at length

theorem mem_likePieces {ps : List Piece} (pieces : likePieces p = some ps) {c : Char}
    (plain : c ∉ ['%', '_', '\\']) (inside : c ∈ p) : .exactly c ∈ ps := by
  simp only [List.mem_cons, List.not_mem_nil, or_false, not_or] at plain
  induction p using likePieces.induct generalizing ps with
  | case1 => exact absurd inside List.not_mem_nil
  | case2 => cases pieces
  | case3 d p ih =>
    rw [likePieces_escape] at pieces
    obtain ⟨qs, rest, rfl⟩ := Option.map_eq_some_iff.mp pieces
    rcases List.mem_cons.mp inside with rfl | inside
    · exact absurd rfl plain.2.2
    · rcases List.mem_cons.mp inside with rfl | inside
      · exact List.mem_cons_self
      · exact List.mem_cons_of_mem _ (ih rest inside)
  | case4 d p unescaped ih =>
    rw [likePieces_cons unescaped] at pieces
    obtain ⟨qs, rest, rfl⟩ := Option.map_eq_some_iff.mp pieces
    rcases List.mem_cons.mp inside with rfl | inside
    · rw [plainPiece, if_neg plain.1, if_neg plain.2.1]
      exact List.mem_cons_self
    · exact List.mem_cons_of_mem _ (ih rest inside)

theorem like_of_feed (keeps : Keeps fold '\n') (feed : '\n' ∈ p) (noFeed : '\n' ∉ s) : like fold p s = false := by
  rw [Bool.eq_false_iff]
  intro liked
  obtain ⟨ps, pieces, accepted⟩ := (Option.any_eq_true _ _).mp liked
  have needs := demand_le_count (fun c => c = '\n') keeps.closed accepted
  have pos := demand_pos (fun c => decide (c = '\n')) (decide_eq_true rfl)
    (mem_likePieces pieces (by decide) feed)
  have none : s.countP (fun c => decide (c = '\n')) = 0 := by
    rw [List.countP_eq_zero]
    intro c inside same
    exact noFeed (of_decide_eq_true same ▸ inside)
  omega

theorem finds_of_feed (keeps : Keeps fold '\n') {x : Regex} (feed : .exactly '\n' ∈ x.body) (noFeed : '\n' ∉ s) :
    x.finds fold s = false := by
  rw [Bool.eq_false_iff]
  intro found
  have needs := count_of_finds (fun c => decide (c = '\n')) keeps.closed found
  have pos := demand_pos (fun c => decide (c = '\n')) (decide_eq_true rfl) feed
  have none : s.countP (fun c => decide (c = '\n')) = 0 := by
    rw [List.countP_eq_zero]
    intro c inside same
    exact noFeed (of_decide_eq_true same ▸ inside)
  omega

theorem plainPiece_of_plain {c : Char} (plain : c ∉ ['%', '_', '\\']) : plainPiece c = .exactly c := by
  simp only [List.mem_cons, List.not_mem_nil, or_false, not_or] at plain
  rw [plainPiece, if_neg plain.1, if_neg plain.2.1]

theorem substring_eq_like (plain : ∀ c ∈ v, c ∉ ['%', '_', '\\']) :
    Regex.finds fold ⟨false, v.map .exactly, false⟩ s = like fold ('%' :: v ++ ['%']) s := by
  have noEscape : '\\' ∉ '%' :: v ++ ['%'] := by
    intro inside
    rcases List.mem_append.mp inside with inside | inside
    · rcases List.mem_cons.mp inside with same | inside
      · exact absurd same (by decide)
      · exact plain _ inside (by decide)
    · exact absurd inside (by decide)
  have pieces : ('%' :: v ++ ['%']).map plainPiece = .any :: (v.map .exactly ++ [.any]) := by
    rw [List.map_append, List.map_cons, List.map_congr_left fun c inside => plainPiece_of_plain (plain c inside)]
    rfl
  rw [like_plain noEscape, pieces, Bool.eq_iff_iff, accepts_any]
  have rest : ∀ t, accepts (likeReading fold) [.any] t = true := by
    intro t
    rw [accepts_any]
    exact ⟨t, [], (List.append_nil t).symm, by simp [likeReading], rfl⟩
  constructor
  · intro found
    obtain ⟨t, suffix, accepted⟩ := List.any_eq_true.mp found
    obtain ⟨u, split⟩ := (List.mem_tails _ _).mp suffix
    rw [← List.append_nil (v.map Piece.exactly)] at accepted
    obtain ⟨x, y, rfl, same, _⟩ := (accepts_spelled v t).mp accepted
    refine ⟨u, x ++ y, split.symm, by simp [likeReading], (accepts_spelled v _).mpr ?_⟩
    exact ⟨x, y, rfl, same, rest y⟩
  · rintro ⟨u, t, rfl, _, accepted⟩
    obtain ⟨x, y, rfl, same, _⟩ := (accepts_spelled v t).mp accepted
    apply List.any_eq_true.mpr
    refine ⟨x ++ y, (List.mem_tails _ _).mpr (List.suffix_append u _), ?_⟩
    rw [← List.append_nil (v.map Piece.exactly), accepts_spelled]
    exact ⟨x, y, rfl, same, rfl⟩

theorem substring_differs (keeps : ∀ c ∈ ['%', '_', '\\'], Keeps fold c) (special : ∃ c ∈ v, c ∈ ['%', '_', '\\']) :
    ∃ s, (∀ c ∈ s, c = 'a' ∨ c ∈ '%' :: v ++ ['%']) ∧
      Regex.finds fold ⟨false, v.map .exactly, false⟩ s ≠ like fold ('%' :: v ++ ['%']) s := by
  have inPattern : ∀ c ∈ v, c ∈ '%' :: v ++ ['%'] := by
    intro c inside
    exact List.mem_append_left _ (List.mem_cons_of_mem _ inside)
  by_cases escape : '\\' ∈ v
  · obtain ⟨s, chars, differs⟩ := escape_differs (p := '%' :: v ++ ['%']) (keeps '\\' (by decide))
      (inPattern _ escape) ⟨false, v.map .exactly, false⟩ (by simp [demand_spelled])
    refine ⟨s, ?_, differs⟩
    intro c inside
    rcases chars c inside with single | pattern | spelled
    · exact .inl single
    · exact .inr pattern
    · obtain ⟨d, inText, same⟩ := List.mem_map.mp spelled
      exact .inr (inPattern c (Piece.exactly.inj same ▸ inText))
  · have noEscape : '\\' ∉ '%' :: v ++ ['%'] := by simp [escape]
    have pieces := likePieces_plain noEscape
    refine ⟨sample [] (('%' :: v ++ ['%']).map plainPiece), ?_, ?_⟩
    · intro c inside
      exact (mem_sample inside).imp_right fun spelled => (mem_plain spelled).1
    · rw [like_sample pieces]
      intro found
      let kind : Char → Bool := fun c => decide (c = '%') || decide (c = '_')
      have closed : ∀ c d, fold c = fold d → kind c = kind d := by
        intro c d same
        simp only [kind, (keeps '%' (by decide)).closed c d same, (keeps '_' (by decide)).closed c d same]
      have needs := count_of_finds _ closed found
      rw [count_sample kind (by decide), demand_spelled] at needs
      have none : demand kind (('%' :: v ++ ['%']).map plainPiece) = 0 := by
        apply demand_none
        intro c spelled
        simp [kind, (mem_plain spelled).2]
      have pos : 0 < v.countP kind := by
        obtain ⟨c, inText, isSpecial⟩ := special
        rw [List.countP_pos_iff]
        refine ⟨c, inText, ?_⟩
        simp only [List.mem_cons, List.not_mem_nil, or_false] at isSpecial
        rcases isSpecial with rfl | rfl | rfl
        · rfl
        · rfl
        · exact absurd inText escape
      omega

end

end DataFabric.LikePatterns
