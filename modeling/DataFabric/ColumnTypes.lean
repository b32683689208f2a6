import DataFabric.CharText

set_option autoImplicit false

/-!
# Column types: declared, compiled, and as the hub's catalog shows them

The type names of a manifest, the PostgreSQL types they are compiled to, and the families
under which the differ compares the two.
-/
namespace DataFabric.ColumnTypes
open CharText

inductive ColumnStrategy | UUID_V7 | IDENTITY_ALWAYS | LEGACY_SERIAL | FUNCTIONAL | SOFT_DELETE
  deriving DecidableEq, Repr

structure ColumnDefinition where
  name : String
  type : String
  length : Option ℕ
  primaryKey : Bool
  unique : Bool
  default : Option String
  strategy : Option ColumnStrategy
  generated : Option String
  nullable : Option Bool
  /-- The access method of its index. -/
  index : Option String
  ref : Option String
  collation : Option String
  deriving DecidableEq, Repr

def baseTypes : List String :=
  ["STRING", "TEXT", "INTEGER", "INT", "BIGINT", "SMALLINT", "BOOLEAN", "BOOL", "TIMESTAMP",
    "TIMESTAMPTZ", "DATE", "TIME", "TIMETZ", "UUID", "JSON", "JSONB", "NUMERIC", "DECIMAL", "REAL",
    "DOUBLE", "FLOAT", "SERIAL", "BIGSERIAL", "SMALLSERIAL", "BYTEA", "INTERVAL",
    "VARCHAR", "CHAR", "CHARACTER", "BPCHAR", "INT2", "INT4", "INT8", "FLOAT4", "FLOAT8", "MONEY",
    "INET", "CIDR", "MACADDR", "CITEXT", "TSVECTOR", "TSQUERY", "LTREE", "HSTORE", "XML", "OID",
    "TSRANGE", "TSTZRANGE", "DATERANGE", "INT4RANGE", "INT8RANGE", "NUMRANGE",
    "VOID", "TRIGGER", "RECORD"]

def multiWordTypes : List String :=
  ["DOUBLE PRECISION", "CHARACTER VARYING", "TIMESTAMP WITHOUT TIME ZONE",
    "TIMESTAMP WITH TIME ZONE", "TIME WITHOUT TIME ZONE", "TIME WITH TIME ZONE", "BIT VARYING"]

def isNameChar (c : Char) : Bool := c.isAlphanum || c == ' '

def skipSpaces (cs : List Char) : List Char := cs.dropWhile isSpace

def digits (lo : ℕ) (cs : List Char) : Option (List Char) :=
  let n := (cs.takeWhile Char.isDigit).length
  if lo ≤ n ∧ n ≤ 5 then some (cs.drop n) else none

/-- `\(\s*\d{1,5}\s*(,\s*\d{1,5}\s*)?\)`, the opening bracket already read. -/
def modifier (cs : List Char) : Option (List Char) :=
  (digits 1 (skipSpaces cs)).bind fun rest => match skipSpaces rest with
    | ')' :: more => some more
    | ',' :: more => (digits 1 (skipSpaces more)).bind fun rest => match skipSpaces rest with
      | ')' :: more => some more
      | _ => none
    | _ => none

/-- `(\[\s*\d{0,5}\s*\]\s*)*$`; the fuel bounds the pairs of brackets. -/
def arraySuffix : ℕ → List Char → Bool
  | _, [] => true
  | n + 1, '[' :: cs => (digits 0 (skipSpaces cs)).any fun rest => match skipSpaces rest with
    | ']' :: more => arraySuffix n (skipSpaces more)
    | _ => false
  | _, _ => false

def typeParts (type : String) : List Char × List Char := (trim type).toList.span isNameChar

def suffixShape (cs : List Char) : Bool :=
  match skipSpaces cs with
  | '(' :: more => (modifier more).any fun rest => arraySuffix cs.length (skipSpaces rest)
  | rest => arraySuffix cs.length rest

def baseName (type : String) : String :=
  upperCase (" ".intercalate
    (((splitChars ' ' (typeParts type).1).filter (· ≠ [])).map String.ofList))

def acceptedType (customTypes : List String) (type : String) : Bool :=
  trim type ≠ "" && utf16Length type ≤ 64 &&
    (type ∈ customTypes ||
      (typeParts type).1.head?.any Char.isAlpha && suffixShape (typeParts type).2 &&
        (baseName type ∈ baseTypes || baseName type ∈ multiWordTypes))

def isEnumPlaceholder (type : String) : Bool := upperCase type = "ENUM"

def typeMap : List (String × String) :=
  [("STRING", "TEXT"), ("TEXT", "TEXT"), ("VARCHAR", "VARCHAR"), ("INTEGER", "INT"), ("INT", "INT"),
    ("BIGINT", "BIGINT"), ("BOOLEAN", "BOOL"), ("BOOL", "BOOL"), ("TIMESTAMP", "TIMESTAMP"),
    ("DATE", "DATE"), ("UUID", "UUID"), ("JSONB", "JSONB"), ("JSON", "JSONB"),
    ("NUMERIC", "NUMERIC"), ("DECIMAL", "NUMERIC"), ("FLOAT", "DOUBLE PRECISION")]

/-- The compiled type of a name that `assertColumnType` lets pass. -/
def mappedType (type : String) : String := (typeMap.lookup (upperCase type)).getD type

def normalizeType (type : String) : Option String :=
  if type = "" then some ""
  else if acceptedType [] type then some (mappedType type)
  else none

inductive SqlType
  | named (text : String)
  | varchar (length : ℕ)
  | enum (schema name : String)
  deriving DecidableEq, Repr

/-- What `information_schema.columns` shows of a column's type. -/
structure CatalogType where
  dataType : String
  udtName : String
  characterMaximumLength : Option ℕ
  deriving DecidableEq, Repr

inductive PostgresType
  | text | integer | bigint | smallint | boolean | timestamp | timestamptz | date | time | timetz
  | uuid | json | jsonb | numeric | real | double | bytea | interval | varchar | character
  | money | inet | cidr | macaddr | citext | tsvector | tsquery | ltree | hstore | xml | oid
  | tsrange | tstzrange | daterange | int4range | int8range | numrange | varbit
  deriving DecidableEq, Repr

def PostgresType.row : PostgresType → String × String
  | .text => ("text", "text")
  | .integer => ("integer", "int4")
  | .bigint => ("bigint", "int8")
  | .smallint => ("smallint", "int2")
  | .boolean => ("boolean", "bool")
  | .timestamp => ("timestamp without time zone", "timestamp")
  | .timestamptz => ("timestamp with time zone", "timestamptz")
  | .date => ("date", "date")
  | .time => ("time without time zone", "time")
  | .timetz => ("time with time zone", "timetz")
  | .uuid => ("uuid", "uuid")
  | .json => ("json", "json")
  | .jsonb => ("jsonb", "jsonb")
  | .numeric => ("numeric", "numeric")
  | .real => ("real", "float4")
  | .double => ("double precision", "float8")
  | .bytea => ("bytea", "bytea")
  | .interval => ("interval", "interval")
  | .varchar => ("character varying", "varchar")
  | .character => ("character", "bpchar")
  | .money => ("money", "money")
  | .inet => ("inet", "inet")
  | .cidr => ("cidr", "cidr")
  | .macaddr => ("macaddr", "macaddr")
  | .citext => ("USER-DEFINED", "citext")
  | .tsvector => ("tsvector", "tsvector")
  | .tsquery => ("tsquery", "tsquery")
  | .ltree => ("USER-DEFINED", "ltree")
  | .hstore => ("USER-DEFINED", "hstore")
  | .xml => ("xml", "xml")
  | .oid => ("oid", "oid")
  | .tsrange => ("tsrange", "tsrange")
  | .tstzrange => ("tstzrange", "tstzrange")
  | .daterange => ("daterange", "daterange")
  | .int4range => ("int4range", "int4range")
  | .int8range => ("int8range", "int8range")
  | .numrange => ("numrange", "numrange")
  | .varbit => ("bit varying", "varbit")

/-- The names in capitals under which PostgreSQL knows them. -/
def postgresTypes : List (String × PostgresType) :=
  [("TEXT", .text), ("INTEGER", .integer), ("INT", .integer), ("INT4", .integer),
    ("SERIAL", .integer), ("BIGINT", .bigint), ("INT8", .bigint), ("BIGSERIAL", .bigint),
    ("SMALLINT", .smallint), ("INT2", .smallint), ("SMALLSERIAL", .smallint),
    ("BOOLEAN", .boolean), ("BOOL", .boolean), ("TIMESTAMP", .timestamp),
    ("TIMESTAMP WITHOUT TIME ZONE", .timestamp), ("TIMESTAMPTZ", .timestamptz),
    ("TIMESTAMP WITH TIME ZONE", .timestamptz), ("DATE", .date), ("TIME", .time),
    ("TIME WITHOUT TIME ZONE", .time), ("TIMETZ", .timetz), ("TIME WITH TIME ZONE", .timetz),
    ("UUID", .uuid), ("JSON", .json), ("JSONB", .jsonb), ("NUMERIC", .numeric),
    ("DECIMAL", .numeric), ("REAL", .real), ("FLOAT4", .real), ("DOUBLE PRECISION", .double),
    ("FLOAT", .double), ("FLOAT8", .double), ("BYTEA", .bytea), ("INTERVAL", .interval),
    ("VARCHAR", .varchar), ("CHARACTER VARYING", .varchar), ("CHAR", .character),
    ("CHARACTER", .character), ("BPCHAR", .character), ("MONEY", .money), ("INET", .inet),
    ("CIDR", .cidr), ("MACADDR", .macaddr), ("CITEXT", .citext), ("TSVECTOR", .tsvector),
    ("TSQUERY", .tsquery), ("LTREE", .ltree), ("HSTORE", .hstore), ("XML", .xml), ("OID", .oid),
    ("TSRANGE", .tsrange), ("TSTZRANGE", .tstzrange), ("DATERANGE", .daterange),
    ("INT4RANGE", .int4range), ("INT8RANGE", .int8range), ("NUMRANGE", .numrange),
    ("BIT VARYING", .varbit)]

def modifierLength (cs : List Char) : Option ℕ :=
  match skipSpaces cs with
  | '(' :: more => (String.ofList ((skipSpaces more).takeWhile Char.isDigit)).toNat?
  | _ => none

/-- The type a name with a modifier or brackets stands for; `FLOAT` is as wide as it asks. -/
def shapedType (type : String) : Option PostgresType :=
  if baseName type = "FLOAT" ∧ (modifierLength (typeParts type).2).any (· ≤ 24) then some .real
  else postgresTypes.lookup (baseName type)

/-- The row of a type name in capitals; a name that is no type has none. -/
def namedRow (type : String) : Option CatalogType :=
  match postgresTypes.lookup type with
  | some t => some ⟨t.row.1, t.row.2, none⟩
  | none => (shapedType type).map fun t =>
    if (typeParts type).2.contains '[' then ⟨"ARRAY", "_" ++ t.row.2, none⟩
    else ⟨t.row.1, t.row.2,
      if t = .varchar ∨ t = .character then modifierLength (typeParts type).2 else none⟩

def catalogRow : SqlType → Option CatalogType
  | .named text => namedRow (upperCase text)
  | .varchar length => some ⟨"character varying", "varchar", some length⟩
  | .enum _ name => some ⟨"USER-DEFINED", name, none⟩

structure TypeFamily where
  family : String
  length : Option ℕ
  deriving DecidableEq, Repr

def positive (length : Option ℕ) : Option ℕ := length.filter (0 < ·)

/-- The families without a length, in the order in which they are tried. -/
def unsizedFamily (dt udt : String) : String :=
  if dt = "text" ∨ udt = "text" then "TEXT"
  else if dt = "integer" ∨ udt = "int4" ∨ dt = "smallint" ∨ udt = "int2" then "INT"
  else if dt = "bigint" ∨ udt = "int8" then "BIGINT"
  else if dt = "numeric" ∨ dt = "decimal" then "NUMERIC"
  else if dt = "boolean" ∨ udt = "bool" then "BOOL"
  else if containsText "timestamp" dt then "TIMESTAMP"
  else if dt = "date" then "DATE"
  else if dt = "uuid" then "UUID"
  else if dt = "jsonb" ∨ dt = "json" then "JSONB"
  else if dt = "user-defined" then "ENUM"
  else upperCase dt

def isVarchar (dt udt : String) : Bool := dt = "character varying" || udt = "varchar"

def normalizeCatalogType (row : CatalogType) : TypeFamily :=
  let dt := asciiLower row.dataType
  let udt := asciiLower row.udtName
  if isVarchar dt udt then ⟨"VARCHAR", positive row.characterMaximumLength⟩
  else ⟨unsizedFamily dt udt, none⟩

/-- The families of the declared names, apart from the names that are their own family. -/
def declaredFamilies : List (String × String) :=
  [("TEXT", "TEXT"), ("INT", "INT"), ("INTEGER", "INT"), ("BIGINT", "BIGINT"),
    ("NUMERIC", "NUMERIC"), ("DECIMAL", "NUMERIC"), ("FLOAT", "NUMERIC"), ("BOOL", "BOOL"),
    ("BOOLEAN", "BOOL"), ("TIMESTAMP", "TIMESTAMP"), ("DATE", "DATE"), ("UUID", "UUID"),
    ("JSONB", "JSONB"), ("ENUM", "ENUM")]

def familyOfName (t : String) (length : Option ℕ) : TypeFamily :=
  if t = "STRING" then match positive length with
    | some n => ⟨"VARCHAR", some n⟩
    | none => ⟨"TEXT", none⟩
  else if t = "VARCHAR" then ⟨"VARCHAR", positive length⟩
  else ⟨(declaredFamilies.lookup t).getD t, none⟩

def normalizeDeclaredType (declType : String) (length : Option ℕ) : TypeFamily :=
  familyOfName (upperCase declType) length

def typeChanged (cat dec : TypeFamily) : Bool :=
  if cat.family ≠ dec.family then true
  else if dec.family = "VARCHAR" then match cat.length, dec.length with
    | some m, some n => m ≠ n
    | none, some _ => true
    | _, none => false
  else false

/-- The names in capitals that settle, with the types they are compiled to. -/
def settledTypes : List (String × PostgresType) :=
  [("STRING", .text), ("TEXT", .text), ("VARCHAR", .varchar), ("INTEGER", .integer),
    ("INT", .integer), ("BIGINT", .bigint), ("BOOLEAN", .boolean), ("BOOL", .boolean),
    ("TIMESTAMP", .timestamp), ("DATE", .date), ("UUID", .uuid), ("JSONB", .jsonb),
    ("NUMERIC", .numeric), ("DECIMAL", .numeric), ("REAL", .real), ("DOUBLE PRECISION", .double),
    ("BYTEA", .bytea), ("INTERVAL", .interval), ("CHARACTER", .character), ("MONEY", .money),
    ("INET", .inet), ("CIDR", .cidr), ("MACADDR", .macaddr), ("TSVECTOR", .tsvector),
    ("TSQUERY", .tsquery), ("XML", .xml), ("OID", .oid), ("TSRANGE", .tsrange),
    ("TSTZRANGE", .tstzrange), ("DATERANGE", .daterange), ("INT4RANGE", .int4range),
    ("INT8RANGE", .int8range), ("NUMRANGE", .numrange), ("TIME WITHOUT TIME ZONE", .time),
    ("TIME WITH TIME ZONE", .timetz), ("BIT VARYING", .varbit)]

def settledNames : List String := settledTypes.map Prod.fst

def compiledName (t : String) : String := (typeMap.lookup t).getD t

theorem upperCase_mapped : ∀ entry ∈ typeMap, upperCase entry.2 = entry.2 := by decide

theorem lookup_mem {β : Type*} {entries : List (String × β)} {key : String} {value : β}
    (h : entries.lookup key = some value) : (key, value) ∈ entries := by
  induction entries with
  | nil => cases h
  | cons entry entries ih =>
    obtain ⟨k, v⟩ := entry
    rw [List.lookup_cons] at h
    by_cases hk : key = k
    · rw [beq_iff_eq.mpr hk] at h
      cases h
      exact hk ▸ List.mem_cons_self
    · rw [beq_eq_false_iff_ne.mpr hk] at h
      exact List.mem_cons_of_mem _ (ih h)

theorem lookup_none {β : Type*} {entries : List (String × β)} {key : String}
    (h : key ∉ entries.map Prod.fst) : entries.lookup key = none := by
  rw [List.lookup_eq_none_iff]
  intro entry hentry
  rw [bne_iff_ne]
  rintro rfl
  exact h (List.mem_map_of_mem hentry)

theorem upperCase_mappedType (type : String) :
    upperCase (mappedType type) = compiledName (upperCase type) := by
  unfold mappedType compiledName
  cases h : typeMap.lookup (upperCase type) with
  | none => rfl
  | some mapped =>
    have hmapped : upperCase mapped = mapped := upperCase_mapped (upperCase type, mapped) (lookup_mem h)
    rw [Option.getD_some, Option.getD_some, hmapped]

/-- `data_type` in the small letters in which it is compared. -/
def PostgresType.lowered (t : PostgresType) : String :=
  if t.row.1 = "USER-DEFINED" then "user-defined" else t.row.1

theorem asciiLower_row (t : PostgresType) :
    asciiLower t.row.1 = t.lowered ∧ asciiLower t.row.2 = t.row.2 := by
  cases t <;> decide +kernel

theorem type_of_settled : ∀ entry ∈ settledTypes,
    postgresTypes.lookup (compiledName entry.1) = some entry.2 := by
  decide +kernel

theorem family_of_settled : ∀ entry ∈ settledTypes, entry.1 ≠ "STRING" → entry.1 ≠ "VARCHAR" →
    isVarchar entry.2.lowered entry.2.row.2 = false ∧
      unsizedFamily entry.2.lowered entry.2.row.2 =
        (declaredFamilies.lookup entry.1).getD entry.1 := by
  decide +kernel

theorem family_of_type (t : PostgresType) (h : isVarchar t.lowered t.row.2 = false) :
    unsizedFamily t.lowered t.row.2 ∈ "ENUM" :: settledNames := by
  cases t <;> revert h <;> decide +kernel

theorem catalogFamily (t : PostgresType) (length : Option ℕ) :
    (normalizeCatalogType ⟨t.row.1, t.row.2, length⟩).family =
      if isVarchar t.lowered t.row.2 then "VARCHAR" else unsizedFamily t.lowered t.row.2 := by
  simp only [normalizeCatalogType]
  rw [(asciiLower_row t).1, (asciiLower_row t).2]
  cases isVarchar t.lowered t.row.2
  case false => rfl
  case true => rfl

theorem arrayFamily (udtName : String) :
    (normalizeCatalogType ⟨"ARRAY", "_" ++ udtName, none⟩).family = "ARRAY" := by
  have hudt (name : String) (h : name.toList.head? ≠ some '_') :
      asciiLower ("_" ++ udtName) ≠ name := by
    rintro rfl
    rw [asciiLower_toList, String.toList_append] at h
    exact h rfl
  have hdt : asciiLower "ARRAY" = "array" := by decide
  have htimestamp : containsText "timestamp" "array" = false := by decide
  have hupper : upperCase "array" = "ARRAY" := by decide
  simp [normalizeCatalogType, hdt, isVarchar, unsizedFamily, htimestamp, hupper,
    hudt "varchar" (by decide), hudt "text" (by decide), hudt "int4" (by decide),
    hudt "int2" (by decide), hudt "int8" (by decide), hudt "bool" (by decide)]

theorem namedRow_family {type : String} {row : CatalogType} (h : namedRow type = some row) :
    (normalizeCatalogType row).family ∈ "ARRAY" :: "VARCHAR" :: "ENUM" :: settledNames := by
  have hplain (t : PostgresType) (length : Option ℕ) :
      (normalizeCatalogType ⟨t.row.1, t.row.2, length⟩).family ∈
        "ARRAY" :: "VARCHAR" :: "ENUM" :: settledNames := by
    rw [catalogFamily]
    cases hv : isVarchar t.lowered t.row.2 with
    | true => exact List.mem_cons_of_mem _ List.mem_cons_self
    | false => exact List.mem_cons_of_mem _ (List.mem_cons_of_mem _ (family_of_type t hv))
  unfold namedRow at h
  split at h
  · cases h
    exact hplain _ _
  · rw [Option.map_eq_some_iff] at h
    obtain ⟨t, _, hrow⟩ := h
    split_ifs at hrow
    · rw [← hrow, arrayFamily]
      exact List.mem_cons_self
    all_goals exact hrow ▸ hplain _ _

theorem typeChanged_false {cat dec : TypeFamily} (hdec : dec.family ≠ "VARCHAR") :
    typeChanged cat dec = false ↔ cat.family = dec.family := by
  simp [typeChanged, hdec]

theorem declared_ne_varchar {t : String} (h : t ≠ "VARCHAR") :
    (declaredFamilies.lookup t).getD t ≠ "VARCHAR" := by
  have hvalues : ∀ entry ∈ declaredFamilies, entry.2 ≠ "VARCHAR" := by decide
  cases hl : declaredFamilies.lookup t with
  | none => exact h
  | some family => exact hvalues (t, family) (lookup_mem hl)

theorem familyOfName_other {t : String} (hstring : t ≠ "STRING") (hvarchar : t ≠ "VARCHAR")
    (length : Option ℕ) :
    familyOfName t length = ⟨(declaredFamilies.lookup t).getD t, none⟩ := by
  rw [familyOfName, if_neg hstring, if_neg hvarchar]

theorem unsettled_family {t : String} {row : CatalogType} (hs : t ∉ settledNames)
    (h : namedRow (compiledName t) = some row) :
    (normalizeCatalogType row).family ≠ (declaredFamilies.lookup t).getD t := by
  by_cases hjson : t = "JSON"
  · subst hjson
    cases (show namedRow (compiledName "JSON") = some ⟨"jsonb", "jsonb", none⟩ by decide).symm.trans h
    decide
  by_cases hfloat : t = "FLOAT"
  · subst hfloat
    cases (show namedRow (compiledName "FLOAT") = some ⟨"double precision", "float8", none⟩ by
      decide).symm.trans h
    decide
  by_cases henum : t = "ENUM"
  · subst henum
    cases (show namedRow (compiledName "ENUM") = none by decide).symm.trans h
  by_cases harray : t = "ARRAY"
  · subst harray
    cases (show namedRow (compiledName "ARRAY") = none by decide).symm.trans h
  -- any other name of the two tables settles, so both leave this one as it is
  have hmap : typeMap.lookup t = none := lookup_none fun hmem => by
    have hkeys : ∀ name ∈ typeMap.map Prod.fst, name ∈ "JSON" :: "FLOAT" :: settledNames := by decide
    simpa [hjson, hfloat, hs] using hkeys t hmem
  have hdeclared : declaredFamilies.lookup t = none := lookup_none fun hmem => by
    have hkeys : ∀ name ∈ declaredFamilies.map Prod.fst,
        name ∈ "FLOAT" :: "ENUM" :: settledNames := by decide
    simpa [hfloat, henum, hs] using hkeys t hmem
  rw [compiledName, hmap, Option.getD_none] at h
  rw [hdeclared, Option.getD_none]
  intro hfamily
  have hmem := hfamily ▸ namedRow_family h
  have hvarchar : "VARCHAR" ∈ settledNames := by decide
  rcases List.mem_cons.mp hmem with h | hmem
  · exact harray h
  rcases List.mem_cons.mp hmem with h | hmem
  · exact hs (h ▸ hvarchar)
  rcases List.mem_cons.mp hmem with h | hmem
  · exact henum h
  · exact hs hmem

theorem named_settles {t : String} {length : Option ℕ} {row : CatalogType}
    (h : namedRow (compiledName t) = some row) :
    typeChanged (normalizeCatalogType row) (familyOfName t length) = false ↔
      t ∈ settledNames ∧ (t = "STRING" ∨ t = "VARCHAR" → positive length = none) := by
  by_cases hs : t ∈ settledNames
  · obtain ⟨entry, hentry, rfl⟩ := List.mem_map.mp hs
    unfold namedRow at h
    rw [type_of_settled entry hentry] at h
    cases h
    have htype := type_of_settled entry hentry
    by_cases hstring : entry.1 = "STRING"
    · rw [hstring] at htype
      have htext : entry.2 = .text :=
        Option.some.inj (htype.symm.trans (show _ = some PostgresType.text by decide))
      have hcat : normalizeCatalogType ⟨"text", "text", none⟩ = ⟨"TEXT", none⟩ := by decide
      rw [hstring, htext]
      change typeChanged (normalizeCatalogType ⟨"text", "text", none⟩) _ = false ↔ _
      rw [hcat, familyOfName, if_pos rfl]
      cases positive length with
      | none => exact iff_of_true rfl ⟨hstring ▸ hs, fun _ => rfl⟩
      | some n => exact iff_of_false Bool.noConfusion fun hsettled => nomatch hsettled.2 (.inl rfl)
    by_cases hvarchar : entry.1 = "VARCHAR"
    · rw [hvarchar] at htype
      have hsized : entry.2 = .varchar :=
        Option.some.inj (htype.symm.trans (show _ = some PostgresType.varchar by decide))
      have hcat : normalizeCatalogType ⟨"character varying", "varchar", none⟩ = ⟨"VARCHAR", none⟩ := by
        decide
      rw [hvarchar, hsized]
      change typeChanged (normalizeCatalogType ⟨"character varying", "varchar", none⟩) _ = false ↔ _
      rw [hcat, familyOfName, if_neg (by decide), if_pos rfl]
      cases positive length with
      | none => exact iff_of_true rfl ⟨hvarchar ▸ hs, fun _ => rfl⟩
      | some n => exact iff_of_false Bool.noConfusion fun hsettled => nomatch hsettled.2 (.inr rfl)
    have hfamily := family_of_settled entry hentry hstring hvarchar
    rw [familyOfName_other hstring hvarchar, typeChanged_false (declared_ne_varchar hvarchar),
      catalogFamily, if_neg (by rw [hfamily.1]; exact Bool.false_ne_true)]
    exact iff_of_true hfamily.2 ⟨hs, by rintro (h | h) <;> contradiction⟩
  · have hstring : t ≠ "STRING" := by
      rintro rfl
      exact hs (by decide)
    have hvarchar : t ≠ "VARCHAR" := by
      rintro rfl
      exact hs (by decide)
    rw [familyOfName_other hstring hvarchar, typeChanged_false (declared_ne_varchar hvarchar)]
    exact iff_of_false (unsettled_family hs h) fun hsettled => hs hsettled.1

example : acceptedType [] "numeric (10, 2) [] [3]" = true := by decide
example : acceptedType [] "DOUBLE  PRECISION" = true := by decide
example : acceptedType [] "TEXT; DROP" = false := by decide
example : namedRow "TIMESTAMP(3)" = some ⟨"timestamp without time zone", "timestamp", none⟩ := by decide

end DataFabric.ColumnTypes
