import DataFabric.Doubles
import DataFabric.JsValues
import DataFabric.ResumedCopies
import Mathlib.Algebra.Order.Ring.Unbundled.Rat
import Mathlib.Data.String.Basic

set_option autoImplicit false

/-!
# Cursors saved as text

A checkpoint keeps `String(cursor)`; what is read back is a number where the text is a short integer
and the text itself otherwise. The source then compares its key column with that.
-/
namespace DataFabric.CursorTexts

open JsValues ResumedCopies

/-- The host's time zone: minutes east of Greenwich and the name of the zone, by the second. -/
structure Zone where
  offset : ℤ → ℤ
  name : ℤ → String

def padded (width : ℕ) (n : ℤ) : String :=
  let digits := toString n.natAbs
  (if n < 0 then "-" else "") ++ String.ofList (List.replicate (width - digits.length) '0') ++ digits

def weekdays : List String := ["Thu", "Fri", "Sat", "Sun", "Mon", "Tue", "Wed"]

def months : List String :=
  ["Jan", "Feb", "Mar", "Apr", "May", "Jun", "Jul", "Aug", "Sep", "Oct", "Nov", "Dec"]

/-- Year, month from 1 on and day of a day counted from 1970-01-01. -/
def civil (day : ℤ) : ℤ × ℤ × ℤ :=
  let z := day + 719468
  let era := z / 146097
  let doe := z % 146097
  let yoe := (doe - doe / 1460 + doe / 36524 - doe / 146096) / 365
  let doy := doe - (365 * yoe + yoe / 4 - yoe / 100)
  let mp := (5 * doy + 2) / 153
  let month := if mp < 10 then mp + 3 else mp - 9
  (yoe + era * 400 + (if month ≤ 2 then 1 else 0), month, doy - (153 * mp + 2) / 5 + 1)

def clockText (zone : Zone) (second : ℤ) : String :=
  let shown := second + 60 * zone.offset second
  let date := civil (shown / 86400)
  let time := shown % 86400
  let east := zone.offset second
  " " ++ months.getD (date.2.1 - 1).toNat "Jan" ++ " " ++ padded 2 date.2.2 ++ " " ++ padded 4 date.1 ++ " " ++
    padded 2 (time / 3600) ++ ":" ++ padded 2 (time / 60 % 60) ++ ":" ++ padded 2 (time % 60) ++ " GMT" ++
    (if east < 0 then "-" else "+") ++ padded 2 (east.natAbs / 60) ++ padded 2 (east.natAbs % 60) ++
    " (" ++ zone.name second ++ ")"

def weekday (zone : Zone) (second : ℤ) : String :=
  weekdays.getD ((second + 60 * zone.offset second) / 86400 % 7).toNat "Thu"

/-- `String(date)` of a second: the text of a `Date` has no milliseconds. -/
def secondText (zone : Zone) (second : ℤ) : String := weekday zone second ++ clockText zone second

def isHex (c : Char) : Bool := (CharText.hexValue c).isSome

def isHex24 (s : String) : Bool := s.toList.length == 24 && s.toList.all isHex

/-- A value as a driver hands it out, or as a filter carries it. -/
inductive Cursor
  | number (q : ℚ)
  | text (s : String)
  /-- milliseconds since 1970 -/
  | date (ms : ℤ)
  | objectId (hex : String)

def Cursor.toText (zone : Zone) : Cursor → String
  | .number q => JsValue.numberText q
  | .text s => s
  | .date ms => secondText zone (ms / 1000)
  | .objectId hex => hex

def coerced (cursorValue : String) : Cursor :=
  match shortInteger cursorValue with
  | some n => .number n
  | none => .text cursorValue

/-- A key column: how its values are ordered and handed out, and the value that the source takes a
cursor for, if any. -/
structure KeyColumn (κ : Type) where
  order : LinearOrder κ
  driver : κ → Cursor
  takes : Cursor → Option κ

/-- After a save and a `getStart` the source finds the same rows behind the cursor. -/
def Exact {κ : Type} (zone : Zone) (col : KeyColumn κ) (k : κ) : Prop :=
  ∃ k', col.takes (coerced ((col.driver k).toText zone)) = some k' ∧
    ∀ x, col.order.lt k' x ↔ col.order.lt k x

/-- What PostgreSQL makes of texts that stand for timestamps: one without a fraction of a second
names a whole second. -/
structure TimestampReader (zone : Zone) where
  read : String → Option ℤ
  read_second : ∀ second us, read (secondText zone second) = some us → us = 1000000 * second

def isUuidText (s : String) : Bool :=
  s.toList.length == 36 && s.toList.zipIdx.all fun x =>
    if [8, 13, 18, 23].contains x.2 then x.1 == '-' else isHex x.1 && !x.1.isUpper

def isObjectId (s : String) : Bool := isHex24 s && s.toList.all fun c => !c.isUpper

inductive KeyType
  | integer
  | bigint
  | text
  | uuid
  | timestamp
  | objectId
  | mongoNumber
  | mongoString
  | mongoDate
  /-- `VARCHAR` of MySQL and `VARCHAR2` of Oracle -/
  | varchar
  | mysqlBigint
  /-- whole numbers in a `NUMBER` of Oracle -/
  | oracleNumber

def KeyType.Value : KeyType → Type
  | .integer => ℤ
  | .bigint => ℤ
  | .text => String
  | .uuid => {s : String // isUuidText s = true}
  /- microseconds -/
  | .timestamp => ℤ
  | .objectId => {s : String // isObjectId s = true}
  | .mongoNumber => ℚ
  | .mongoString => String
  | .mongoDate => ℤ
  | .varchar => String
  | .mysqlBigint => ℤ
  | .oracleNumber => ℤ

section Columns

def naturalOf (cs : List Char) : Option ℕ :=
  if 1 ≤ cs.length ∧ cs.all Char.isDigit then some (cs.foldl (fun n c => 10 * n + (c.toNat - 48)) 0) else none

def readInteger (s : String) : Option ℤ :=
  if s.toList.head? = some '-' then (naturalOf s.toList.tail).map fun n : ℕ => -(n : ℤ)
  else (naturalOf s.toList).map Int.ofNat

/-- PostgreSQL reads a parameter as a value of the column's type. -/
def integerOf : Cursor → Option ℤ
  | .number q => if q.den = 1 then some q.num else none
  | .text s => readInteger s
  | _ => none

def coerceId : Cursor → Cursor
  | .text s => if isHex24 s then .objectId (CharText.asciiLower s) else .text s
  | c => c

def integerColumn : KeyColumn ℤ := ⟨inferInstance, fun n => .number n, integerOf⟩

def bigintColumn : KeyColumn ℤ := ⟨inferInstance, fun n => .text (toString n), integerOf⟩

def textColumn (collation : LinearOrder String) : KeyColumn String where
  order := collation
  driver := .text
  takes
    | .number q => some (JsValue.numberText q)
    | .text s => some s
    | _ => none

def uuidColumn : KeyColumn {s : String // isUuidText s = true} where
  order := inferInstance
  driver u := .text u.1
  takes
    | .text s => if h : isUuidText s = true then some ⟨s, h⟩ else none
    | _ => none

def timestampColumn {zone : Zone} (reader : TimestampReader zone) : KeyColumn ℤ where
  order := inferInstance
  driver us := .date (us / 1000)
  takes
    | .date ms => some (1000 * ms)
    | .text s => reader.read s
    | _ => none

def objectIdColumn : KeyColumn {s : String // isObjectId s = true} where
  order := inferInstance
  driver o := .objectId o.1
  takes c := match coerceId c with
    | .objectId s => if h : isObjectId s = true then some ⟨s, h⟩ else none
    | _ => none

def mongoNumberColumn : KeyColumn ℚ where
  order := inferInstance
  driver := .number
  takes c := match coerceId c with
    | .number q => some q
    | _ => none

def mongoStringColumn : KeyColumn String where
  order := inferInstance
  driver := .text
  takes c := match coerceId c with
    | .text s => some s
    | _ => none

def mongoDateColumn : KeyColumn ℤ where
  order := inferInstance
  driver := .date
  takes c := match coerceId c with
    | .date ms => some ms
    | _ => none

/-- Next to a number these engines compare a text as a number. -/
def varcharColumn (collation : LinearOrder String) : KeyColumn String where
  order := collation
  driver := .text
  takes
    | .text s => some s
    | _ => none

/-- These drivers hand a whole number out as a floating-point number. -/
def doubleColumn : KeyColumn ℤ := ⟨inferInstance, fun n => .number (Doubles.toDouble n : ℤ), integerOf⟩

def KeyType.column {zone : Zone} (reader : TimestampReader zone) (collation : LinearOrder String) :
    (t : KeyType) → KeyColumn t.Value
  | .integer => integerColumn
  | .bigint => bigintColumn
  | .text => textColumn collation
  | .uuid => uuidColumn
  | .timestamp => timestampColumn reader
  | .objectId => objectIdColumn
  | .mongoNumber => mongoNumberColumn
  | .mongoString => mongoStringColumn
  | .mongoDate => mongoDateColumn
  | .varchar => varcharColumn collation
  | .mysqlBigint => doubleColumn
  | .oracleNumber => doubleColumn

def ShortNumber (q : ℚ) : Prop := q.den = 1 ∧ q.num.natAbs < 10 ^ 15

/-- The instant is a whole second, and the source reads the text of its `Date`. -/
def WholeSecond {zone : Zone} (reader : TimestampReader zone) (us : ℤ) : Prop :=
  1000000 ∣ us ∧ (reader.read (secondText zone (us / 1000000))).isSome

/-- A text that is a short integer is that integer written as a number; a timestamp is a whole second
that the source reads; a number of MongoDB is an integer of at most 15 digits; a string of MongoDB
looks neither like such an integer nor like an ObjectId; a text of MySQL or Oracle is no short integer;
a number of Oracle is a floating-point number. -/
def HoldsWhen {zone : Zone} (reader : TimestampReader zone) : (t : KeyType) → t.Value → Prop
  | .integer, _ => True
  | .bigint, _ => True
  | .text, s => ∀ n, shortInteger s = some n → JsValue.numberText n = s
  | .uuid, _ => True
  | .timestamp, us => WholeSecond reader us
  | .objectId, _ => True
  | .mongoNumber, q => ShortNumber q
  | .mongoString, s => shortInteger s = none ∧ isHex24 s = false
  | .mongoDate, _ => False
  | .varchar, s => shortInteger s = none
  | .mysqlBigint, n => Doubles.toDouble n = n
  | .oracleNumber, n => Doubles.toDouble n = n

end Columns

section Texts

def digitsOf (cs : List Char) : Option ℕ :=
  if 1 ≤ cs.length ∧ cs.length ≤ 15 ∧ cs.all Char.isDigit then
    some (cs.foldl (fun n c => 10 * n + (c.toNat - 48)) 0)
  else none

theorem shortInteger_minus {s : String} {cs : List Char} (h : s.toList = '-' :: cs) :
    shortInteger s = (digitsOf cs).map fun n : ℕ => -(n : ℤ) := by
  unfold shortInteger
  rw [h]
  change ((digitsOf cs).bind fun a => pure (a : ℤ)).map (fun n => -n) = _
  cases digitsOf cs <;> rfl

theorem shortInteger_plain {s : String} {cs : List Char} (h : s.toList = cs) (hplain : cs.head? ≠ some '-') :
    shortInteger s = (digitsOf cs).map Int.ofNat := by
  unfold shortInteger
  rw [h]
  cases cs with
  | nil => rfl
  | cons c cs =>
    split
    · rename_i heq
      rw [heq] at hplain
      exact absurd rfl hplain
    · rfl

theorem shortInteger_bounds {s : String} {n : ℤ} (h : shortInteger s = some n) :
    s.toList.length ≤ 16 ∧ ∀ c ∈ s.toList.tail, c.isDigit = true := by
  have hdigits : ∀ {cs : List Char} {m : ℕ}, digitsOf cs = some m →
      cs.length ≤ 15 ∧ ∀ c ∈ cs, c.isDigit = true := by
    intro cs m hm
    obtain ⟨⟨-, hlength, hall⟩, -⟩ := Option.ite_none_right_eq_some.mp hm
    exact ⟨hlength, List.all_eq_true.mp hall⟩
  by_cases hminus : s.toList.head? = some '-'
  · obtain ⟨cs, hcs⟩ := List.head?_eq_some_iff.mp hminus
    rw [shortInteger_minus hcs] at h
    obtain ⟨m, hm, -⟩ := Option.map_eq_some_iff.mp h
    rw [hcs, List.length_cons, List.tail_cons]
    exact ⟨Nat.succ_le_succ (hdigits hm).1, (hdigits hm).2⟩
  · rw [shortInteger_plain rfl hminus] at h
    obtain ⟨m, hm, -⟩ := Option.map_eq_some_iff.mp h
    exact ⟨(hdigits hm).1.trans (by decide), fun c hc => (hdigits hm).2 c (List.mem_of_mem_tail hc)⟩

theorem shortInteger_none {s : String} {c : Char} (hc : c ∈ s.toList.tail) (hdigit : c.isDigit = false) :
    shortInteger s = none := by
  cases h : shortInteger s with
  | none => rfl
  | some n =>
    have hyes := (shortInteger_bounds h).2 c hc
    rw [hdigit] at hyes
    cases hyes

theorem shortInteger_long {s : String} (hlong : 16 < s.toList.length) : shortInteger s = none := by
  cases h : shortInteger s with
  | none => rfl
  | some n => exact absurd (shortInteger_bounds h).1 (by omega)

theorem digits_all (n : ℕ) : (Nat.toDigits 10 n).all Char.isDigit = true := List.all_eq_true.mpr fun c hc =>
  Nat.isDigit_of_mem_toDigits (by decide) (by decide) hc

theorem digits_value (n : ℕ) : (Nat.toDigits 10 n).foldl (fun m c => 10 * m + (c.toNat - 48)) 0 = n := by
  have hfold : Nat.ofDigitChars 10 (Nat.toDigits 10 n) 0 = n := Nat.ofDigitChars_ten_toDigits
  rwa [Nat.ofDigitChars_eq_foldl] at hfold

theorem digitsOf_toDigits (n : ℕ) : digitsOf (Nat.toDigits 10 n) = if n < 10 ^ 15 then some n else none := by
  have hlength : (Nat.toDigits 10 n).length ≤ 15 ↔ n < 10 ^ 15 :=
    Nat.length_toDigits_le_iff (by decide) (by decide)
  unfold digitsOf
  rw [digits_value]
  exact ite_congr
    (propext ⟨fun h => hlength.mp h.2.1, fun h => ⟨Nat.length_toDigits_pos, hlength.mpr h, digits_all n⟩⟩)
    (fun _ => rfl) fun _ => rfl

theorem head_toDigits (n : ℕ) : (Nat.toDigits 10 n).head? ≠ some '-' := by
  intro h
  have hdigit : '-'.isDigit = true :=
    Nat.isDigit_of_mem_toDigits (by decide) (by decide) (List.mem_of_head? h)
  exact absurd hdigit (by decide)

theorem numberText_integer (n : ℤ) : (JsValue.numberText n).toList =
    (if n < 0 then ['-'] else []) ++ Nat.toDigits 10 n.natAbs := by
  have hneg : ((n : ℚ) < 0) = (n < 0) := propext (by exact_mod_cast Iff.rfl)
  unfold JsValue.numberText
  simp only [Rat.den_intCast, if_true, Rat.num_intCast, Nat.div_one, hneg, String.toList_append,
    Nat.toString_eq_repr, Nat.toList_repr]
  by_cases h : n < 0
  · rw [if_pos h, if_pos h]
    rfl
  · rw [if_neg h, if_neg h]
    rfl

theorem neg_natAbs {n : ℤ} (hneg : n < 0) : -(n.natAbs : ℤ) = n := by omega

theorem shortInteger_integer {n : ℤ} {s : String}
    (h : s.toList = (if n < 0 then ['-'] else []) ++ Nat.toDigits 10 n.natAbs) :
    shortInteger s = if n.natAbs < 10 ^ 15 then some n else none := by
  by_cases hneg : n < 0
  · rw [if_pos hneg] at h
    have h' : s.toList = '-' :: Nat.toDigits 10 n.natAbs := h
    rw [shortInteger_minus h', digitsOf_toDigits]
    by_cases hshort : n.natAbs < 10 ^ 15
    · rw [if_pos hshort, if_pos hshort]
      exact congrArg some (neg_natAbs hneg)
    · rw [if_neg hshort, if_neg hshort]
      rfl
  · rw [if_neg hneg, List.nil_append] at h
    rw [shortInteger_plain h (head_toDigits _), digitsOf_toDigits]
    by_cases hshort : n.natAbs < 10 ^ 15
    · rw [if_pos hshort, if_pos hshort]
      exact congrArg some (Int.natAbs_of_nonneg (not_lt.mp hneg))
    · rw [if_neg hshort, if_neg hshort]
      rfl

theorem numberText_fraction {q : ℚ} (h : q.den ≠ 1) : shortInteger (JsValue.numberText q) = none := by
  refine shortInteger_none (c := '.') ?_ (by decide)
  unfold JsValue.numberText
  dsimp only
  rw [if_neg h]
  simp only [String.toList_append, Nat.toString_eq_repr, Nat.toList_repr]
  obtain ⟨d, ds, hds⟩ := List.exists_cons_of_length_pos (Nat.length_toDigits_pos (b := 10) (n := q.num.natAbs / q.den))
  rw [hds]
  by_cases hneg : q < 0
  · rw [if_pos hneg]
    simp
  · rw [if_neg hneg]
    simp

theorem readInteger_integer {n : ℤ} {s : String}
    (h : s.toList = (if n < 0 then ['-'] else []) ++ Nat.toDigits 10 n.natAbs) : readInteger s = some n := by
  have hnatural : naturalOf (Nat.toDigits 10 n.natAbs) = some n.natAbs := by
    unfold naturalOf
    rw [digits_value, if_pos ⟨Nat.length_toDigits_pos, digits_all _⟩]
  unfold readInteger
  by_cases hneg : n < 0
  · rw [if_pos hneg] at h
    rw [h]
    change (naturalOf (Nat.toDigits 10 n.natAbs)).map (fun n : ℕ => -(n : ℤ)) = some n
    rw [hnatural]
    exact congrArg some (neg_natAbs hneg)
  · rw [if_neg hneg, List.nil_append] at h
    rw [h, if_neg (head_toDigits _), hnatural]
    exact congrArg some (Int.natAbs_of_nonneg (not_lt.mp hneg))

theorem toString_integer (n : ℤ) : (toString n).toList =
    (if n < 0 then ['-'] else []) ++ Nat.toDigits 10 n.natAbs := by
  cases n with
  | ofNat n => exact Nat.toList_repr
  | negSucc n =>
    rw [if_pos (by omega)]
    change ("-" ++ Nat.repr (n + 1)).toList = _
    rw [String.toList_append, Nat.toList_repr]
    rfl

theorem weekday_letters (zone : Zone) (second : ℤ) : ∃ c ∈ (weekday zone second).toList.tail, c.isDigit = false := by
  unfold weekday
  generalize ((second + 60 * zone.offset second) / 86400 % 7).toNat = n
  by_cases hn : n < 7
  · have hall : ∀ n < 7, ((weekdays.getD n "Thu").toList.tail.any fun c => !c.isDigit) = true := by decide
    obtain ⟨c, hc, hdigit⟩ := List.any_eq_true.mp (hall n hn)
    exact ⟨c, hc, by simpa using hdigit⟩
  · have hnone : weekdays[n]? = none := List.getElem?_eq_none (Nat.not_lt.mp hn)
    unfold List.getD
    rw [hnone]
    exact ⟨'h', by decide, by decide⟩

theorem secondText_date (zone : Zone) (second : ℤ) : shortInteger (secondText zone second) = none := by
  obtain ⟨c, hc, hdigit⟩ := weekday_letters zone second
  refine shortInteger_none (c := c) ?_ hdigit
  unfold secondText
  rw [String.toList_append]
  cases hname : (weekday zone second).toList with
  | nil =>
    rw [hname] at hc
    cases hc
  | cons x xs =>
    rw [hname] at hc
    exact List.mem_append_left _ hc

end Texts

section Reading

variable {κ : Type} {zone : Zone} {reader : TimestampReader zone} {collation : LinearOrder String}

theorem exact_iff (col : KeyColumn κ) (k : κ) :
    Exact zone col k ↔ col.takes (coerced ((col.driver k).toText zone)) = some k := by
  let order := col.order
  constructor
  · rintro ⟨k', hk', hsame⟩
    rcases lt_trichotomy k' k with hlt | rfl | hlt
    · exact absurd ((hsame k).mp hlt) (lt_irrefl k)
    · exact hk'
    · exact absurd ((hsame k').mpr hlt) (lt_irrefl k')
  · exact fun h => ⟨k, h, fun _ => Iff.rfl⟩

theorem coerced_text {s : String} (h : shortInteger s = none) : coerced s = .text s := by
  unfold coerced
  rw [h]

theorem coerced_number {s : String} {n : ℤ} (h : shortInteger s = some n) : coerced s = .number n := by
  unfold coerced
  rw [h]

theorem integerOf_number (n : ℤ) : integerOf (.number n) = some n := by
  change (if ((n : ℚ)).den = 1 then some ((n : ℚ)).num else none) = some n
  rw [if_pos (Rat.den_intCast n), Rat.num_intCast]

theorem integer_exact (n : ℤ) {s : String}
    (h : s.toList = (if n < 0 then ['-'] else []) ++ Nat.toDigits 10 n.natAbs) :
    integerOf (coerced s) = some n := by
  have hread := shortInteger_integer h
  by_cases hshort : n.natAbs < 10 ^ 15
  · rw [if_pos hshort] at hread
    rw [coerced_number hread, integerOf_number]
  · rw [if_neg hshort] at hread
    rw [coerced_text hread]
    exact readInteger_integer h

theorem text_exact (s : String) : (textColumn collation).takes (coerced s) = some s ↔
    ∀ n, shortInteger s = some n → JsValue.numberText n = s := by
  cases h : shortInteger s with
  | none =>
    rw [coerced_text h]
    exact ⟨fun _ n hn => (by cases hn), fun _ => rfl⟩
  | some n =>
    rw [coerced_number h]
    constructor
    · intro hsame m hm
      cases hm
      exact Option.some.inj hsame
    · exact fun hsame => congrArg some (hsame n rfl)

theorem uuid_exact (u : {s : String // isUuidText s = true}) : uuidColumn.takes (coerced u.1) = some u := by
  have hlength : u.1.toList.length = 36 := by
    have hu := u.2
    unfold isUuidText at hu
    exact beq_iff_eq.mp (Bool.and_eq_true_iff.mp hu).1
  rw [coerced_text (shortInteger_long (by omega))]
  exact dif_pos u.2

theorem timestamp_exact (us : ℤ) : (timestampColumn reader).takes (coerced (secondText zone (us / 1000 / 1000))) =
    some us ↔ WholeSecond reader us := by
  have hsecond : us / 1000 / 1000 = us / 1000000 := by omega
  rw [coerced_text (secondText_date zone _), hsecond]
  change reader.read (secondText zone (us / 1000000)) = some us ↔ _
  unfold WholeSecond
  constructor
  · intro h
    have hread := reader.read_second _ _ h
    exact ⟨⟨us / 1000000, hread⟩, Option.isSome_iff_exists.mpr ⟨us, h⟩⟩
  · rintro ⟨hwhole, hsome⟩
    obtain ⟨us', hread⟩ := Option.isSome_iff_exists.mp hsome
    have hsame := reader.read_second _ _ hread
    rw [hread, hsame]
    exact congrArg some (Int.mul_ediv_cancel' hwhole)

theorem lower_objectId {s : String} (h : isObjectId s = true) : CharText.asciiLower s = s := by
  unfold isObjectId at h
  have hlower := List.all_eq_true.mp (Bool.and_eq_true_iff.mp h).2
  unfold CharText.asciiLower
  have hmap : s.toList.map Char.toLower = s.toList := by
    refine (List.map_congr_left fun c hc => ?_).trans (List.map_id _)
    have hupper := hlower c hc
    unfold Char.toLower
    rw [dif_neg]
    · rfl
    · intro hrange
      have hyes : c.isUpper = true := decide_eq_true hrange
      rw [hyes] at hupper
      cases hupper
  rw [hmap, String.ofList_toList]

theorem objectId_exact (o : {s : String // isObjectId s = true}) : objectIdColumn.takes (coerced o.1) = some o := by
  have hhex : isHex24 o.1 = true := (Bool.and_eq_true_iff.mp o.2).1
  have hlength : o.1.toList.length = 24 := beq_iff_eq.mp (Bool.and_eq_true_iff.mp hhex).1
  rw [coerced_text (shortInteger_long (by omega))]
  have hcoerce : coerceId (.text o.1) = .objectId o.1 := by
    unfold coerceId
    dsimp only
    rw [if_pos hhex, lower_objectId o.2]
  unfold objectIdColumn
  dsimp only
  rw [hcoerce]
  exact dif_pos o.2

theorem mongoNumber_exact (q : ℚ) : mongoNumberColumn.takes (coerced (JsValue.numberText q)) = some q ↔
    ShortNumber q := by
  have htext : shortInteger (JsValue.numberText q) = none →
      mongoNumberColumn.takes (coerced (JsValue.numberText q)) ≠ some q := by
    intro hnone
    rw [coerced_text hnone]
    unfold mongoNumberColumn coerceId
    dsimp only
    by_cases hhex : isHex24 (JsValue.numberText q) = true
    · rw [if_pos hhex]
      exact fun h => by cases h
    · rw [if_neg hhex]
      exact fun h => by cases h
  unfold ShortNumber
  by_cases hden : q.den = 1
  · obtain ⟨n, rfl⟩ : ∃ n : ℤ, q = n := ⟨q.num, (Rat.coe_int_num_of_den_eq_one hden).symm⟩
    have hread := shortInteger_integer (numberText_integer n)
    rw [Rat.num_intCast]
    by_cases hshort : n.natAbs < 10 ^ 15
    · rw [if_pos hshort] at hread
      rw [coerced_number hread]
      exact ⟨fun _ => ⟨hden, hshort⟩, fun _ => rfl⟩
    · rw [if_neg hshort] at hread
      exact ⟨fun h => absurd h (htext hread), fun h => absurd h.2 hshort⟩
  · exact ⟨fun h => absurd h (htext (numberText_fraction hden)), fun h => absurd h.1 hden⟩

theorem mongoString_exact (s : String) : mongoStringColumn.takes (coerced s) = some s ↔
    shortInteger s = none ∧ isHex24 s = false := by
  cases h : shortInteger s with
  | some n =>
    rw [coerced_number h]
    exact ⟨fun hn => (by cases hn), fun hn => (by cases hn.1)⟩
  | none =>
    rw [coerced_text h]
    unfold mongoStringColumn coerceId
    dsimp only
    by_cases hhex : isHex24 s = true
    · rw [if_pos hhex]
      exact ⟨fun hn => (by cases hn), fun hn => (by rw [hhex] at hn; cases hn.2)⟩
    · rw [if_neg hhex]
      exact ⟨fun _ => ⟨rfl, Bool.eq_false_iff.mpr hhex⟩, fun _ => rfl⟩

theorem mongoDate_exact (ms : ℤ) : mongoDateColumn.takes (coerced (secondText zone (ms / 1000))) ≠ some ms := by
  rw [coerced_text (secondText_date zone _)]
  unfold mongoDateColumn coerceId
  dsimp only
  by_cases hhex : isHex24 (secondText zone (ms / 1000)) = true
  · rw [if_pos hhex]
    exact fun h => by cases h
  · rw [if_neg hhex]
    exact fun h => by cases h

theorem varchar_exact (s : String) : (varcharColumn collation).takes (coerced s) = some s ↔
    shortInteger s = none := by
  cases h : shortInteger s with
  | some n =>
    rw [coerced_number h]
    exact ⟨fun hn => (by cases hn), fun hn => (by cases hn)⟩
  | none =>
    rw [coerced_text h]
    exact ⟨fun _ => rfl, fun _ => rfl⟩

theorem double_exact (n : ℤ) :
    doubleColumn.takes (coerced (JsValue.numberText (Doubles.toDouble n : ℤ))) = some n ↔
      Doubles.toDouble n = n := by
  change integerOf _ = some n ↔ _
  rw [integer_exact (Doubles.toDouble n) (numberText_integer _), Option.some.injEq]

end Reading

/-- Read back into the key that the source takes the cursor for. -/
def keyValues {κ : Type} (zone : Zone) (col : KeyColumn κ) (other : κ) : KeyValues κ where
  toText k := (col.driver k).toText zone
  ofText s := (col.takes (.text s)).getD other
  ofNumber n := (col.takes (.number n)).getD other

def greenwich : Zone := ⟨fun _ => 0, fun _ => "Coordinated Universal Time"⟩

def refusing : TimestampReader greenwich := ⟨fun _ => none, fun _ _ h => by cases h⟩

end DataFabric.CursorTexts
