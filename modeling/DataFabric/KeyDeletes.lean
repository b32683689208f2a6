import DataFabric.CursorTexts
import DataFabric.ReplicaTables
import Mathlib.Data.Rat.Floor
import Mathlib.Logic.Function.Basic

set_option autoImplicit false

/-!
# Deletes by the text of a key

An upsert hands the key of a row to the destination as the driver or the document of the change has
it; a delete hands over the text of the key. Both are turned into the type of the destination's key.
-/
namespace DataFabric.KeyDeletes
open CharText JsValues CursorTexts
open ReplicaTables (DestKind)

def has (sub t : String) : Bool := t.toList.tails.any fun cs => sub.toList.isPrefixOf cs

def starts (sub t : String) : Bool := sub.toList.isPrefixOf t.toList

def afterBoundary (sub : List Char) : List Char → Bool
  | [] => false
  | c :: cs => !isWord c && sub.isPrefixOf cs

def hasWord (sub t : String) : Bool := starts sub t || t.toList.tails.any (afterBoundary sub.toList)

def typeArguments (cs : List Char) : Bool :=
  let digits := cs.takeWhile Char.isDigit
  match digits, cs.dropWhile Char.isDigit with
  | _ :: _, [')'] => true
  | _ :: _, ',' :: rest => !(rest.takeWhile Char.isDigit).isEmpty && rest.dropWhile Char.isDigit == [')']
  | _, _ => false

def sqlLooking (t : String) : Bool :=
  let isTypeChar (c : Char) : Bool := c.isLower || c.isDigit || c == '_'
  match t.toList with
  | c :: cs =>
    c.isLower && match cs.dropWhile isTypeChar with
      | [] => true
      | '(' :: rest => typeArguments rest
      | _ => false
  | [] => false

def canonicalType (raw : String) : String :=
  let t := asciiLower (trim raw)
  if t = "" || t = "null" || t = "undefined" || t = "none" then "TEXT"
  else if ["bigint", "int8", "serial8", "bigserial"].any (starts · t) then "BIGINT"
  else if ["smallint", "int2"].any (starts · t) then "SMALLINT"
  else if ["int", "integer", "int4", "serial", "long"].any (hasWord · t) then "INTEGER"
  else if ["numeric", "decimal", "double", "float", "real", "money", "number"].any (has · t) then "NUMERIC"
  else if has "bool" t then "BOOLEAN"
  else if ["timestamp", "datetime"].any (has · t) then "TIMESTAMP"
  else if hasWord "date" t then "DATE"
  else if hasWord "time" t then "TIME"
  else if has "uuid" t then "UUID"
  else if ["json", "object", "array", "nested", "map"].any (has · t) then "JSONB"
  else if ["blob", "raw", "bytea", "binary"].any (has · t) then "BYTEA"
  else if ["char", "text", "string", "keyword", "varchar", "clob", "nclob", "long"].any (has · t) then "TEXT"
  else if sqlLooking t then upperCase t
  else "TEXT"

def mysqlType (canonical : String) (isPk : Bool) : String :=
  let t := upperCase canonical
  if has "BIGINT" t then "BIGINT"
  else if has "SMALLINT" t then "SMALLINT"
  else if has "INT" t then "INT"
  else if ["NUMERIC", "DECIMAL", "DOUBLE", "REAL", "FLOAT"].any (has · t) then "DOUBLE"
  else if has "BOOL" t then "TINYINT(1)"
  else if ["TIMESTAMP", "DATETIME"].any (has · t) then "DATETIME"
  else if has "DATE" t then "DATE"
  else if has "JSON" t then "JSON"
  else if ["BYTEA", "BLOB", "BINARY"].any (has · t) then "BLOB"
  else if has "UUID" t then "CHAR(36)"
  else if isPk then "VARCHAR(255)"
  else "TEXT"

def isNumeric (t : String) : Bool :=
  ["BIGINT", "SMALLINT", "INT", "NUMERIC", "DECIMAL", "DOUBLE", "REAL", "FLOAT"].any (has · t)

def oracleType (canonical : String) : String :=
  let t := upperCase canonical
  if isNumeric t then "NUMBER"
  else if has "BOOL" t then "NUMBER(1)"
  else if ["TIMESTAMP", "DATETIME"].any (has · t) then "TIMESTAMP"
  else if has "DATE" t then "DATE"
  else if ["CLOB", "JSON"].any (has · t) then "CLOB"
  else if ["BYTEA", "BLOB", "BINARY"].any (has · t) then "BLOB"
  else "VARCHAR2(4000)"

def snowflakeType (canonical : String) : String :=
  let t := upperCase canonical
  if isNumeric t then "NUMBER"
  else if has "BOOL" t then "BOOLEAN"
  else if ["TIMESTAMP", "DATETIME"].any (has · t) then "TIMESTAMP_NTZ"
  else if has "DATE" t then "DATE"
  else if has "JSON" t then "VARIANT"
  else if ["BYTEA", "BLOB", "BINARY"].any (has · t) then "BINARY"
  else "VARCHAR"

def readNumber (s : String) : Option ℚ :=
  match readInteger s with
  | some n => some n
  | none =>
    let cs := if s.toList.head? = some '-' then s.toList.tail else s.toList
    let whole := cs.takeWhile Char.isDigit
    match cs.dropWhile Char.isDigit with
    | '.' :: fraction =>
      if fraction ≠ [] && fraction.all Char.isDigit then
        (naturalOf (whole ++ fraction)).map fun n : ℕ =>
          (if s.toList.head? = some '-' then -1 else 1) * (n : ℚ) / 10 ^ fraction.length
      else none
    | _ => none

inductive Key
  | integer (n : ℤ) (small : n.natAbs ≤ 2 ^ 31)
  | bigint (n : ℤ)
  /-- with all the decimals of its column -/
  | decimal (written : String) (value : ℚ) (reads : readNumber written = some value)
  | uuid (s : String) (shape : isUuidText s = true)
  | text (s : String)
  /-- of a column `CHAR(n)`, which fills up with blanks -/
  | char (s : String) (blanks : ℕ)
  | objectId (hex : String) (shape : isObjectId hex = true)
  /-- a number as it is printed -/
  | mongoNumber (q : ℚ) (reads : readNumber (JsValue.numberText q) = some q)
  | mongoString (s : String)

/-- The type the column of the key is given. A sampled `_id` has the type `object`, `number` or `string`. -/
def Key.canonical : Key → String
  | .integer .. => "INTEGER"
  | .bigint .. => "BIGINT"
  | .decimal .. => "NUMERIC"
  | .uuid .. => "UUID"
  | .text .. | .char .. => "TEXT"
  | .objectId .. => "JSONB"
  | .mongoNumber .. => "NUMERIC"
  | .mongoString .. => "TEXT"

def Key.isMongo : Key → Bool
  | .objectId .. | .mongoNumber .. | .mongoString .. => true
  | _ => false

inductive KeyValue
  | number (q : ℚ)
  | text (s : String)
  | objectId (hex : String)
  deriving DecidableEq

def KeyValue.toText : KeyValue → String
  | .number q => JsValue.numberText q
  | .text s => s
  | .objectId hex => hex

def jsonSafe : KeyValue → KeyValue
  | .objectId hex => .text ("\"" ++ hex ++ "\"")
  | v => v

def padded (s : String) (blanks : ℕ) : String := s ++ String.ofList (List.replicate blanks ' ')

/-- The pk of a delete event: the text of the key as the source writes it, of a `CHAR(n)` without the blanks. -/
def Key.captured : Key → String
  | .integer n _ | .bigint n => toString n
  | .decimal written _ _ => written
  | .uuid s _ | .text s | .char s _ | .mongoString s => s
  | .objectId hex _ => hex
  | .mongoNumber q _ => JsValue.numberText q

/-- A long number comes out of a JSON document as a number, from some drivers as its text. -/
inductive Carrier | asNumber | asText
  deriving DecidableEq

structure CapturedRow where
  key : Key
  carrier : Carrier
  /-- What a column `_id` beside the key holds. -/
  idField : Option KeyValue
  /-- The discovered type of the key. -/
  type : String
  typed : canonicalType type = key.canonical

structure Host where
  /-- The number that is printed for the floating-point number next to this one. -/
  nearest : ℚ → ℚ
  idem : ∀ q, nearest (nearest q) = nearest q
  small : ∀ n : ℤ, n.natAbs ≤ 2 ^ 53 → nearest n = n
  /-- Texts that MySQL's collation does not tell apart have one image. -/
  fold : String → String
  /-- `toISOString` of the date that a text is read as, unless it is invalid. -/
  iso : String → Option String

inductive Address
  | number (q : ℚ)
  | text (s : String)
  /-- a text inside a JSON column -/
  | json (s : String)
  | objectId (hex : String)
  deriving DecidableEq

/-- The key column of a SQL destination; none for types that cannot be a primary key there. -/
inductive Column | number | double | whole | text | uuid | jsonb | variant
  deriving DecidableEq

def columnOf (kind : DestKind) (canonical : String) : Option Column :=
  match kind with
  | .pg =>
    if canonical = "JSONB" then some .jsonb else if canonical = "UUID" then some .uuid
    else if isNumeric canonical then some .number else some .text
  | .mysql =>
    let type := mysqlType canonical true
    if type = "JSON" then none else if type = "DOUBLE" then some .double
    else if type = "CHAR(36)" || type = "VARCHAR(255)" then some .text else some .number
  | .oracle =>
    let type := oracleType canonical
    if type = "CLOB" then none else if type = "NUMBER" then some .number else some .text
  | .snowflake =>
    let type := snowflakeType canonical
    if type = "VARIANT" then some .variant else if type = "NUMBER" then some .whole else some .text
  | .mongo | .es => none

def rounded (q : ℚ) : ℚ := if 0 ≤ q then (⌊q + 1 / 2⌋ : ℤ) else -((⌊-q + 1 / 2⌋ : ℤ) : ℚ)

/-- A text that a key column takes; Oracle has no empty one. -/
def fits : DestKind → String → Bool
  | .mysql, s => s.length ≤ 255
  | .oracle, s => s.utf8ByteSize ≤ 4000 && s ≠ ""
  | _, _ => true

def quotedHex (s : String) : Option String :=
  match s.toList with
  | '"' :: cs => if cs.getLast? = some '"' && cs.dropLast.all isHex then some (String.ofList cs.dropLast) else none
  | _ => none

section

variable (host : Host)

def sameText (kind : DestKind) (s : String) : String := if kind = .mysql then host.fold s else s

def numberOf : KeyValue → Option ℚ
  | .number q => some q
  | .text s => readNumber s
  | .objectId _ => none

def take (kind : DestKind) : Column → KeyValue → Option Address
  | .number, v => (numberOf v).map .number
  | .double, v => (numberOf v).map fun q => .number (host.nearest q)
  | .whole, v => (numberOf v).map fun q => .number (rounded q)
  | .text, v => if fits kind v.toText then some (.text (sameText host kind v.toText)) else none
  | .uuid, v => if isUuidText v.toText then some (.text v.toText) else none
  | .jsonb, v => (quotedHex v.toText).map .json
  | .variant, v => some (.json v.toText)

/-- What a column is compared with in the WHERE of a delete. -/
def compared (kind : DestKind) : Column → String → Option Address
  | .whole, s => (readNumber s).map .number
  | .text, s => some (.text (sameText host kind s))
  | column, s => take host kind column (.text s)

def Key.given (carrier : Carrier) : Key → KeyValue
  | .integer n _ => .number (host.nearest n)
  | .bigint n => if carrier = .asText then .text (toString n) else .number (host.nearest n)
  | .decimal written q _ => if carrier = .asText then .text written else .number (host.nearest q)
  | .uuid s _ | .text s | .mongoString s => .text s
  | .char s blanks => .text (padded s blanks)
  | .objectId hex _ => .objectId hex
  | .mongoNumber q _ => .number q

def CapturedRow.given (row : CapturedRow) : KeyValue := row.key.given host row.carrier

/-- The `_id` of the row itself, which goes over the one that is put in front of it. -/
def CapturedRow.ownId (row : CapturedRow) : Option KeyValue :=
  if row.key.isMongo then some (row.given host) else row.idField

def startsAsTime (s : String) : Bool :=
  let shape := "dddd-dd-dd dd:dd:dd".toList
  shape.length ≤ s.toList.length && (s.toList.zip shape).all fun x => if x.2 = 'd' then x.1.isDigit else x.1 == x.2

def normalized : KeyValue → KeyValue
  | .text s => .text (if startsAsTime s then (host.iso s).getD s else s)
  | v => v

def idOf : KeyValue → Address
  | .number q => .number q
  | .text s => .text s
  | .objectId hex => .objectId hex

def address (kind : DestKind) (row : CapturedRow) : Option Address :=
  match kind with
  | .mongo => some (idOf ((row.ownId host).getD (row.given host)))
  | .es => some (.text (((row.ownId host).map (normalized host)).getD (row.given host)).toText)
  | _ => (columnOf kind (canonicalType row.type)).bind fun column => take host kind column (jsonSafe (row.given host))

def sought (kind : DestKind) (row : CapturedRow) : Option Address :=
  match kind with
  | .mongo | .es => some (.text row.key.captured)
  | _ => (columnOf kind (canonicalType row.type)).bind fun column => compared host kind column row.key.captured

abbrev Table := Address → Option JsValue

def upsert (kind : DestKind) (dest : Table) (row : CapturedRow) (v : JsValue) : Option Table :=
  (address host kind row).map fun a => Function.update dest a (some v)

def del (kind : DestKind) (dest : Table) (row : CapturedRow) : Option Table :=
  (sought host kind row).map fun a => Function.update dest a none

/-- After an upsert and the delete for the same key the row is gone, and the other rows of the destination are as before,
those of the source's other keys included. -/
def Deleted (kind : DestKind) (row : CapturedRow) (others : List CapturedRow) : Prop :=
  ∀ dest v after a, address host kind row = some a → upsert host kind dest row v = some after →
    ∃ left, del host kind after row = some left ∧ left a = none ∧ (∀ x, x ≠ a → left x = dest x) ∧
      ∀ other ∈ others, other.key ≠ row.key → ∀ b, address host kind other = some b → left b = dest b

def Apart (kind : DestKind) (row : CapturedRow) (others : List CapturedRow) : Prop :=
  ∀ other ∈ others, other.key ≠ row.key → ∀ a, address host kind row = some a → address host kind other ≠ some a

def Key.isObject : Key → Bool
  | .objectId .. => true
  | _ => false

def Key.comesAsText (carrier : Carrier) : Key → Bool
  | .bigint _ | .decimal .. => carrier = .asText
  | .uuid .. | .text _ | .mongoString _ => true
  | .char s blanks => padded s blanks = s
  | _ => false

def Key.Arrives (carrier : Carrier) : Key → Prop
  | .bigint n => carrier = .asText ∨ host.nearest n = n
  | .decimal _ q _ => carrier = .asText ∨ host.nearest q = q
  | .char s blanks => padded s blanks = s
  | _ => True

/-- A column of MySQL does not tell the key from its captured text. -/
def Key.SameFolded : Key → Prop
  | .char s blanks => host.fold (padded s blanks) = host.fold s
  | _ => False

/-- A column of whole numbers keeps the number that arrives as the number of the source. -/
def Key.ArrivesWhole (carrier : Carrier) : Key → Prop
  | .bigint n => carrier = .asText ∨ rounded (host.nearest n) = n
  | .decimal _ q _ => rounded (if carrier = .asText then q else host.nearest q) = q
  | .mongoNumber q _ => rounded q = q
  | .objectId .. => False
  | .char s blanks => padded s blanks = s
  | _ => True

/-- The text of the number that arrives is the text of the source, and no text is taken for a time. -/
def Key.SameText (carrier : Carrier) : Key → Prop
  | .bigint n => carrier = .asText ∨ JsValue.numberText (host.nearest n) = toString n
  | .decimal written q _ => carrier = .asText ∨ JsValue.numberText (host.nearest q) = written
  | .mongoString s => normalized host (.text s) = .text s
  | .char s blanks => padded s blanks = s
  | _ => True

/-- The key arrives as it is; PostgreSQL and Snowflake keep no ObjectId, and a MongoDB destination only texts. -/
def Matches (row : CapturedRow) : DestKind → Prop
  | .pg => row.key.Arrives host row.carrier ∧ row.key.isObject = false
  | .mysql => row.key.canonical = "NUMERIC" ∨ row.key.Arrives host row.carrier ∨ row.key.SameFolded host
  | .oracle => row.key.Arrives host row.carrier
  | .snowflake => row.key.ArrivesWhole host row.carrier
  | .mongo =>
    if row.key.isMongo = true ∨ row.idField = none then row.key.comesAsText row.carrier = true
    else row.idField = some (.text row.key.captured)
  | .es =>
    if row.key.isMongo = true ∨ row.idField = none then row.key.SameText host row.carrier
    else (row.idField.map fun v => (normalized host v).toText) = some row.key.captured

/-- The destination takes the key as the source has it, unless it refuses the row, and no other key is kept like it. -/
def HoldsWhen (kind : DestKind) (row : CapturedRow) (others : List CapturedRow) : Prop :=
  address host kind row = none ∨ Matches host row kind ∧ Apart host kind row others

end

theorem readNumber_integer (n : ℤ) : readNumber (toString n) = some (n : ℚ) := by
  unfold readNumber
  rw [readInteger_integer (toString_integer n)]

theorem numberText_toString (n : ℤ) : JsValue.numberText n = toString n :=
  String.toList_inj.mp ((numberText_integer n).trans (toString_integer n).symm)

theorem rounded_integer (n : ℤ) : rounded n = n := by
  have hhalf : ∀ m : ℤ, ⌊(m : ℚ) + 1 / 2⌋ = m := by
    intro m
    rw [Int.floor_eq_iff]
    constructor <;> norm_num
  unfold rounded
  split
  · rw [hhalf]
  · have hneg := hhalf (-n)
    rw [Int.cast_neg] at hneg
    rw [hneg, Int.cast_neg, neg_neg]

def keyColumn : DestKind → Key → Option Column
  | .mongo, _ | .es, _ => none
  | .pg, .objectId .. => some .jsonb
  | .snowflake, .objectId .. => some .variant
  | _, .objectId .. => none
  | .pg, .uuid .. => some .uuid
  | _, .uuid .. | _, .text _ | _, .char .. | _, .mongoString _ => some .text
  | .snowflake, _ => some .whole
  | .mysql, .decimal .. | .mysql, .mongoNumber .. => some .double
  | _, _ => some .number

theorem columnOf_key (kind : DestKind) (key : Key) : columnOf kind key.canonical = keyColumn kind key := by
  cases key <;> simp only [Key.canonical] <;> cases kind <;> simp only [keyColumn] <;> decide +kernel

section

variable {host : Host} {kind : DestKind} {row : CapturedRow} {others : List CapturedRow}

theorem deleted_iff_sought : Deleted host kind row others ↔
    ∀ a, address host kind row = some a → sought host kind row = some a ∧ Apart host kind row others := by
  constructor
  · intro h a ha
    have hrow := h (fun _ => some .null) .null (Function.update (fun _ => some .null) a (some .null)) a ha
      (by unfold upsert; rw [ha]; rfl)
    rcases hrow with ⟨left, hleft, hgone, -, hothers⟩
    unfold del at hleft
    rw [Option.map_eq_some_iff] at hleft
    rcases hleft with ⟨b, hb, rfl⟩
    have hba : b = a := by
      by_contra hne
      rw [Function.update_of_ne (fun heq => hne heq.symm), Function.update_self] at hgone
      cases hgone
    subst hba
    refine ⟨hb, fun other hother hkey a' ha' hsame => ?_⟩
    rw [ha] at ha'
    cases ha'
    have hkept := hothers other hother hkey b hsame
    rw [hgone] at hkept
    cases hkept
  · intro h dest v after a ha hafter
    have ⟨hsought, hapart⟩ := h a ha
    unfold upsert at hafter
    rw [ha] at hafter
    cases hafter
    refine ⟨Function.update (Function.update dest a (some v)) a none, by unfold del; rw [hsought]; rfl,
      Function.update_self .., ?_, ?_⟩
    · intro x hx
      rw [Function.update_of_ne hx, Function.update_of_ne hx]
    · intro other hother hkey b hb
      have hne : b ≠ a := fun heq => hapart other hother hkey a ha (heq ▸ hb)
      rw [Function.update_of_ne hne, Function.update_of_ne hne]

theorem sql_address (hkind : kind ≠ .mongo ∧ kind ≠ .es) : address host kind row =
    (keyColumn kind row.key).bind fun column => take host kind column (jsonSafe (row.given host)) := by
  rw [← columnOf_key, ← row.typed]
  cases kind with
  | mongo => exact absurd rfl hkind.1
  | es => exact absurd rfl hkind.2
  | _ => rfl

theorem sql_sought (hkind : kind ≠ .mongo ∧ kind ≠ .es) : sought host kind row =
    (keyColumn kind row.key).bind fun column => compared host kind column row.key.captured := by
  rw [← columnOf_key, ← row.typed]
  cases kind with
  | mongo => exact absurd rfl hkind.1
  | es => exact absurd rfl hkind.2
  | _ => rfl

theorem take_text {v : KeyValue} {s : String} (hv : v.toText = s) {a : Address} (h : take host kind .text v = some a) :
    compared host kind .text s = some a := by
  subst hv
  unfold take at h
  exact (Option.ite_none_right_eq_some.mp h).2

theorem char_matches {s t : String} {a : Address} (h : take host kind .text (.text t) = some a) :
    compared host kind .text s = some a ↔ sameText host kind t = sameText host kind s := by
  unfold take at h
  obtain ⟨-, hown⟩ := Option.ite_none_right_eq_some.mp h
  rw [← hown]
  change some (Address.text (sameText host kind s)) = some (Address.text (sameText host kind t)) ↔ _
  rw [Option.some.injEq, Address.text.injEq]
  exact eq_comm

theorem small_nearest (host : Host) {n : ℤ} (h : n.natAbs ≤ 2 ^ 31) : host.nearest n = n :=
  host.small n (h.trans (by norm_num))

structure Numeric (host : Host) (key : Key) (carrier : Carrier) (q g : ℚ) : Prop where
  reads : readNumber key.captured = some q
  given : numberOf (jsonSafe (key.given host carrier)) = some g
  nearest : host.nearest g = host.nearest q
  arrives : g = q ↔ key.Arrives host carrier
  whole : rounded g = q ↔ key.ArrivesWhole host carrier

def Key.isNumber : Key → Bool
  | .integer .. | .bigint _ | .decimal .. | .mongoNumber .. => true
  | _ => false

theorem numeric_key (host : Host) (carrier : Carrier) {key : Key} (hkey : key.isNumber = true) :
    ∃ q g, Numeric host key carrier q g := by
  have hcarrier : Carrier.asNumber ≠ .asText := by decide
  cases key with
  | integer n small =>
    refine ⟨n, n, readNumber_integer n, ?_, rfl, iff_of_true rfl trivial, iff_of_true (rounded_integer n) trivial⟩
    exact congrArg some (small_nearest host small)
  | bigint n =>
    cases carrier with
    | asText =>
      exact ⟨n, n, readNumber_integer n, readNumber_integer n, rfl, iff_of_true rfl (.inl rfl),
        iff_of_true (rounded_integer n) (.inl rfl)⟩
    | asNumber =>
      exact ⟨n, host.nearest n, readNumber_integer n, rfl, host.idem n, (or_iff_right hcarrier).symm,
        (or_iff_right hcarrier).symm⟩
  | decimal written q reads =>
    cases carrier with
    | asText => exact ⟨q, q, reads, reads, rfl, iff_of_true rfl (.inl rfl), Iff.rfl⟩
    | asNumber =>
      exact ⟨q, host.nearest q, reads, rfl, host.idem q, (or_iff_right hcarrier).symm, Iff.rfl⟩
  | mongoNumber q reads => exact ⟨q, q, reads, rfl, rfl, iff_of_true rfl trivial, Iff.rfl⟩
  | _ => cases hkey

section

variable {key : Key} {carrier : Carrier} {a : Address}

theorem number_matches (hkey : key.isNumber = true)
    (ha : take host kind .number (jsonSafe (key.given host carrier)) = some a) :
    compared host kind .number key.captured = some a ↔ key.Arrives host carrier := by
  have ⟨q, g, h⟩ := numeric_key host carrier hkey
  change (numberOf (jsonSafe (key.given host carrier))).map Address.number = some a at ha
  rw [h.given] at ha
  cases ha
  change (readNumber key.captured).map Address.number = some (.number g) ↔ _
  rw [h.reads, Option.map_some, Option.some.injEq, Address.number.injEq, ← h.arrives, eq_comm]

theorem double_matches (hkey : key.isNumber = true)
    (ha : take host kind .double (jsonSafe (key.given host carrier)) = some a) :
    compared host kind .double key.captured = some a := by
  have ⟨q, g, h⟩ := numeric_key host carrier hkey
  change (numberOf (jsonSafe (key.given host carrier))).map (fun q => Address.number (host.nearest q)) = some a at ha
  rw [h.given] at ha
  cases ha
  change (readNumber key.captured).map (fun q => Address.number (host.nearest q)) = _
  rw [h.reads, Option.map_some, ← h.nearest]

theorem whole_matches (hkey : key.isNumber = true)
    (ha : take host kind .whole (jsonSafe (key.given host carrier)) = some a) :
    compared host kind .whole key.captured = some a ↔ key.ArrivesWhole host carrier := by
  have ⟨q, g, h⟩ := numeric_key host carrier hkey
  change (numberOf (jsonSafe (key.given host carrier))).map (fun q => Address.number (rounded q)) = some a at ha
  rw [h.given] at ha
  cases ha
  change (readNumber key.captured).map Address.number = some (.number (rounded g)) ↔ _
  rw [h.reads, Option.map_some, Option.some.injEq, Address.number.injEq, ← h.whole, eq_comm]

end

theorem hex_not_quoted {hex : String} (hshape : isObjectId hex = true) : '"' ∉ hex.toList := by
  intro hmem
  unfold isObjectId isHex24 at hshape
  rw [Bool.and_eq_true, Bool.and_eq_true, List.all_eq_true] at hshape
  exact absurd (hshape.1.2 _ hmem) (by decide)

theorem quotedHex_none {hex : String} (h : '"' ∉ hex.toList) : quotedHex hex = none := by
  unfold quotedHex
  split
  · rename_i cs hcs
    rw [hcs] at h
    exact absurd List.mem_cons_self h
  · rfl

theorem quoted_ne {hex : String} (h : '"' ∉ hex.toList) : "\"" ++ hex ++ "\"" ≠ hex := by
  intro heq
  rw [← heq] at h
  simp at h

theorem pg_matches {a : Address} (ha : address host .pg row = some a) :
    sought host .pg row = some a ↔ Matches host row .pg := by
  rw [sql_address (by decide)] at ha
  rw [sql_sought (by decide)]
  unfold CapturedRow.given at ha
  unfold Matches
  cases hkey : row.key with
  | uuid s shape =>
    rw [hkey] at ha
    exact iff_of_true ha ⟨trivial, rfl⟩
  | text s | mongoString s =>
    rw [hkey] at ha
    exact iff_of_true (@take_text host .pg (.text s) s rfl a ha) ⟨trivial, rfl⟩
  | char s blanks =>
    rw [hkey] at ha
    exact (@char_matches host .pg s (padded s blanks) a ha).trans (and_iff_left rfl).symm
  | objectId hex shape =>
    refine iff_of_false ?_ fun h => Bool.noConfusion h.2
    change (quotedHex hex).map Address.json ≠ some a
    rw [quotedHex_none (hex_not_quoted shape)]
    exact fun h => Option.some_ne_none _ h.symm
  | integer n small =>
    rw [hkey] at ha
    exact (@number_matches host .pg (.integer n small) row.carrier a rfl ha).trans (and_iff_left rfl).symm
  | mongoNumber q reads =>
    rw [hkey] at ha
    exact (@number_matches host .pg (.mongoNumber q reads) row.carrier a rfl ha).trans (and_iff_left rfl).symm
  | bigint n | decimal written q reads =>
    rw [hkey] at ha
    exact (@number_matches host .pg _ row.carrier a rfl ha).trans (and_iff_left rfl).symm

theorem mysql_matches {a : Address} (ha : address host .mysql row = some a) :
    sought host .mysql row = some a ↔ Matches host row .mysql := by
  rw [sql_address (by decide)] at ha
  rw [sql_sought (by decide)]
  unfold CapturedRow.given at ha
  unfold Matches
  cases hkey : row.key with
  | uuid s shape | text s | mongoString s =>
    rw [hkey] at ha
    exact iff_of_true (@take_text host .mysql (.text s) s rfl a ha) (.inr (.inl trivial))
  | char s blanks =>
    rw [hkey] at ha
    have hnot : ¬ "TEXT" = "NUMERIC" := by decide
    refine (@char_matches host .mysql s (padded s blanks) a ha).trans ((or_iff_right hnot).trans ?_).symm
    exact or_iff_right_of_imp fun h => congrArg host.fold h
  | objectId hex shape =>
    rw [hkey] at ha
    cases ha
  | integer n small =>
    rw [hkey] at ha
    exact iff_of_true ((@number_matches host .mysql (.integer n small) row.carrier a rfl ha).mpr trivial) (.inr (.inl trivial))
  | bigint n =>
    rw [hkey] at ha
    have hnot : ¬ "BIGINT" = "NUMERIC" := by decide
    exact (@number_matches host .mysql (.bigint n) row.carrier a rfl ha).trans ((or_iff_right hnot).trans (or_iff_left id)).symm
  | decimal written q reads | mongoNumber q reads =>
    rw [hkey] at ha
    exact iff_of_true (@double_matches host .mysql _ row.carrier a rfl ha) (.inl rfl)

theorem oracle_matches {a : Address} (ha : address host .oracle row = some a) :
    sought host .oracle row = some a ↔ Matches host row .oracle := by
  rw [sql_address (by decide)] at ha
  rw [sql_sought (by decide)]
  unfold CapturedRow.given at ha
  unfold Matches
  cases hkey : row.key with
  | uuid s shape | text s | mongoString s =>
    rw [hkey] at ha
    exact iff_of_true (@take_text host .oracle (.text s) s rfl a ha) trivial
  | char s blanks =>
    rw [hkey] at ha
    exact @char_matches host .oracle s (padded s blanks) a ha
  | objectId hex shape =>
    rw [hkey] at ha
    cases ha
  | integer n small | bigint n | decimal written q reads | mongoNumber q reads =>
    rw [hkey] at ha
    exact @number_matches host .oracle _ row.carrier a rfl ha

theorem snowflake_matches {a : Address} (ha : address host .snowflake row = some a) :
    sought host .snowflake row = some a ↔ Matches host row .snowflake := by
  rw [sql_address (by decide)] at ha
  rw [sql_sought (by decide)]
  unfold CapturedRow.given at ha
  unfold Matches
  cases hkey : row.key with
  | uuid s shape | text s | mongoString s =>
    rw [hkey] at ha
    exact iff_of_true (@take_text host .snowflake (.text s) s rfl a ha) trivial
  | char s blanks =>
    rw [hkey] at ha
    exact @char_matches host .snowflake s (padded s blanks) a ha
  | objectId hex shape =>
    rw [hkey] at ha
    refine iff_of_false ?_ fun h => h
    have ha' : some (Address.json ("\"" ++ hex ++ "\"")) = some a := ha
    rw [← ha']
    intro hsame
    have hsame' : some (Address.json hex) = some (.json ("\"" ++ hex ++ "\"")) := hsame
    rw [Option.some.injEq, Address.json.injEq] at hsame'
    exact quoted_ne (hex_not_quoted shape) hsame'.symm
  | integer n small | bigint n | decimal written q reads | mongoNumber q reads =>
    rw [hkey] at ha
    exact @whole_matches host .snowflake _ row.carrier a rfl ha

theorem mongo_matches {a : Address} (ha : address host .mongo row = some a) :
    sought host .mongo row = some a ↔ Matches host row .mongo := by
  have hid : some (Address.text row.key.captured) = some a ↔
      (row.ownId host).getD (row.given host) = .text row.key.captured := by
    rw [← ha]
    unfold address
    simp only
    cases (row.ownId host).getD (row.given host) with
    | number q => simp [idOf]
    | text s => simp [idOf, eq_comm]
    | objectId hex => simp [idOf]
  refine hid.trans ?_
  unfold Matches CapturedRow.ownId CapturedRow.given
  cases hmongo : row.key.isMongo with
  | true =>
    rw [if_pos rfl]
    simp only [true_or, if_true, Option.getD_some]
    cases hkey : row.key with
    | objectId hex shape => simp [Key.given, Key.comesAsText]
    | mongoNumber q reads => simp [Key.given, Key.comesAsText]
    | mongoString s => simp [Key.given, Key.comesAsText, Key.captured]
    | _ =>
      rw [hkey] at hmongo
      cases hmongo
  | false =>
    rw [if_neg (by decide)]
    cases hfield : row.idField with
    | some v => simp
    | none =>
      simp only [or_true, if_true, Option.getD_none]
      cases hkey : row.key with
      | integer n small => simp [Key.given, Key.comesAsText]
      | bigint n => cases row.carrier <;> simp [Key.given, Key.comesAsText, Key.captured]
      | decimal written q reads => cases row.carrier <;> simp [Key.given, Key.comesAsText, Key.captured]
      | uuid s shape => simp [Key.given, Key.comesAsText, Key.captured]
      | text s => simp [Key.given, Key.comesAsText, Key.captured]
      | char s blanks => simp [Key.given, Key.comesAsText, Key.captured]
      | _ =>
        rw [hkey] at hmongo
        cases hmongo

theorem es_matches {a : Address} (ha : address host .es row = some a) :
    sought host .es row = some a ↔ Matches host row .es := by
  have hid : some (Address.text row.key.captured) = some a ↔
      (((row.ownId host).map (normalized host)).getD (row.given host)).toText = row.key.captured := by
    rw [← ha]
    unfold address
    simp only [Option.some.injEq, Address.text.injEq]
    exact eq_comm
  refine hid.trans ?_
  unfold Matches CapturedRow.ownId CapturedRow.given
  cases hmongo : row.key.isMongo with
  | true =>
    rw [if_pos rfl]
    simp only [true_or, if_true, Option.map_some, Option.getD_some]
    cases hkey : row.key with
    | objectId hex shape => exact iff_of_true rfl trivial
    | mongoNumber q reads => exact iff_of_true rfl trivial
    | mongoString s => simp [Key.given, Key.SameText, Key.captured, normalized, KeyValue.toText]
    | _ =>
      rw [hkey] at hmongo
      cases hmongo
  | false =>
    rw [if_neg (by decide)]
    cases hfield : row.idField with
    | some v => simp
    | none =>
      simp only [or_true, if_true, Option.map_none, Option.getD_none]
      cases hkey : row.key with
      | integer n small =>
        refine iff_of_true ?_ trivial
        change JsValue.numberText (host.nearest n) = toString n
        rw [small_nearest host small, numberText_toString]
      | bigint n => cases row.carrier <;> simp [Key.given, Key.SameText, Key.captured, KeyValue.toText]
      | decimal written q reads => cases row.carrier <;> simp [Key.given, Key.SameText, Key.captured, KeyValue.toText]
      | uuid s shape => exact iff_of_true rfl trivial
      | text s => exact iff_of_true rfl trivial
      | char s blanks => exact Iff.rfl
      | _ =>
        rw [hkey] at hmongo
        cases hmongo

theorem matches_of_address {a : Address} (ha : address host kind row = some a) :
    sought host kind row = some a ↔ Matches host row kind := by
  cases kind with
  | pg => exact pg_matches ha
  | mysql => exact mysql_matches ha
  | oracle => exact oracle_matches ha
  | mongo => exact mongo_matches ha
  | es => exact es_matches ha
  | snowflake => exact snowflake_matches ha

end

/-- Numbers that arrive as they are, texts compared by their characters, no dates. -/
def plainHost : Host where
  nearest q := q
  idem _ := rfl
  small _ _ := rfl
  fold s := s
  iso _ := none

def objectRow : CapturedRow where
  key := .objectId "507f1f77bcf86cd799439011" (by decide +kernel)
  carrier := .asNumber
  idField := none
  type := "object"
  typed := by decide +kernel

end DataFabric.KeyDeletes
