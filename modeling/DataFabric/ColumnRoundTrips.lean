import DataFabric.ManifestPlans

set_option autoImplicit false

/-!
# Columns between the compiler and the differ

When the column a statement leaves is one the differ finds unchanged.
-/
namespace DataFabric.ColumnRoundTrips
open CharText ColumnTypes Manifests HubCatalog ManifestPlans

/-- The differ finds no change between a column of this type and its declaration. -/
def Unchanged (row : CatalogType) (c : ColumnDefinition) : Prop :=
  typeChanged (normalizeCatalogType row) (normalizeDeclaredType c.type c.length) = false

/-- The type a column has in the catalog when `CREATE_TABLE` or `ADD_COLUMN` made it. -/
def CreatedAs (S : String) (enumNames : List String) (col : ColumnDefinition) (row : CatalogType) :
    Prop :=
  ∃ type, createdType S enumNames col = some type ∧ catalogRow type = some row ∧
    (col.strategy = some .IDENTITY_ALWAYS → row.udtName ∈ ["int2", "int4", "int8"])

/-- The types of PostgreSQL whose `udt_name` alone decides the family. -/
def builtinUdts : List String := ["varchar", "text", "int4", "int2", "int8", "bool"]

/-- Without a strategy; `sized` are the names a length applies to. -/
def PlainSettles (enumNames sized : List String) (c : ColumnDefinition) : Prop :=
  match enumRef c with
  | some ref => asciiLower ref ∉ builtinUdts
  | none =>
    if c.type ∈ enumNames then
      asciiLower c.type ∈ ["text", "bool"] ∨ asciiLower c.type = "varchar" ∧ positive c.length = none
    else upperCase c.type ∈ settledNames ∧
      (upperCase c.type = "VARCHAR" → "VARCHAR" ∈ sized ∨ positive c.length = none)

def CreateSettles (enumNames : List String) (c : ColumnDefinition) : Prop :=
  match c.strategy with
  | some .IDENTITY_ALWAYS => upperCase c.type ∈ ["INT", "INTEGER", "BIGINT"]
  | some .UUID_V7 => upperCase c.type = "UUID"
  | some .LEGACY_SERIAL => upperCase c.type ∈ ["INT", "INTEGER"]
  | _ => PlainSettles enumNames ["STRING"] c

def AlterSettles (enumNames : List String) (c : ColumnDefinition) : Prop :=
  PlainSettles enumNames ["STRING", "VARCHAR"] c

theorem upperChar_toLower (c : Char) : upperChar c.toLower = upperChar c := by
  have hupper : ∀ i < 26, upperChar (Char.ofNat (65 + i)).toLower = upperChar (Char.ofNat (65 + i)) := by
    decide
  by_cases h : 65 ≤ c.toNat ∧ c.toNat ≤ 90
  · have hc := hupper (c.toNat - 65) (by omega)
    rwa [show 65 + (c.toNat - 65) = c.toNat by omega, Char.ofNat_toNat] at hc
  · have hlower : c.toLower = c := dif_neg fun h' : c.val ≥ 'A'.val ∧ c.val ≤ 'Z'.val => h ⟨h'.1, h'.2⟩
    rw [hlower]

theorem upperCase_asciiLower (s : String) : upperCase (asciiLower s) = upperCase s := by
  rw [upperCase, upperCase, asciiLower_toList, List.flatMap_map]
  exact congrArg String.ofList (List.flatMap_congr fun c _ => upperChar_toLower c)

variable {t : String} {length : Option ℕ}

theorem family_iff {f : String} (names : List String) (hf : f ≠ "VARCHAR" ∧ f ≠ "TEXT")
    (hown : f ∈ names) (hnames : ∀ entry ∈ declaredFamilies, entry.2 = f → entry.1 ∈ names)
    (hback : ∀ t ∈ names, t ≠ "STRING" ∧ t ≠ "VARCHAR" ∧ (declaredFamilies.lookup t).getD t = f) :
    (familyOfName t length).family = f ↔ t ∈ names := by
  constructor
  · intro h
    by_cases hstring : t = "STRING"
    · rw [familyOfName, if_pos hstring] at h
      cases hp : positive length with
      | none => exact absurd (by rw [← h, hp]) hf.2
      | some n => exact absurd (by rw [← h, hp]) hf.1
    by_cases hvarchar : t = "VARCHAR"
    · rw [familyOfName, if_neg hstring, if_pos hvarchar] at h
      exact absurd h.symm hf.1
    rw [familyOfName_other hstring hvarchar] at h
    change (declaredFamilies.lookup t).getD t = f at h
    cases hl : declaredFamilies.lookup t with
    | none =>
      rw [hl, Option.getD_none] at h
      exact h ▸ hown
    | some family =>
      rw [hl, Option.getD_some] at h
      exact hnames (t, family) (lookup_mem hl) h
  · intro h
    obtain ⟨hstring, hvarchar, hfamily⟩ := hback t h
    rw [familyOfName_other hstring hvarchar, hfamily]

theorem family_int : (familyOfName t length).family = "INT" ↔ t ∈ ["INT", "INTEGER"] :=
  family_iff _ (by decide) (by decide) (by decide) (by decide)

theorem family_bigint : (familyOfName t length).family = "BIGINT" ↔ t ∈ ["BIGINT"] :=
  family_iff _ (by decide) (by decide) (by decide) (by decide)

theorem family_uuid : (familyOfName t length).family = "UUID" ↔ t ∈ ["UUID"] :=
  family_iff _ (by decide) (by decide) (by decide) (by decide)

theorem family_enum : (familyOfName t length).family = "ENUM" ↔ t ∈ ["ENUM"] :=
  family_iff _ (by decide) (by decide) (by decide) (by decide)

theorem family_bool : (familyOfName t length).family = "BOOL" ↔ t ∈ ["BOOL", "BOOLEAN"] :=
  family_iff _ (by decide) (by decide) (by decide) (by decide)

theorem unchanged_iff {row : CatalogType} {c : ColumnDefinition} {f : String} (hf : f ≠ "VARCHAR")
    (hrow : (normalizeCatalogType row).family = f) :
    Unchanged row c ↔ (familyOfName (upperCase c.type) c.length).family = f := by
  unfold Unchanged typeChanged normalizeDeclaredType
  rw [hrow]
  by_cases h : f = (familyOfName (upperCase c.type) c.length).family
  · rw [if_neg (by simpa using h), if_neg (by rw [← h]; exact hf)]
    exact iff_of_true rfl h.symm
  · rw [if_pos h]
    exact iff_of_false (by decide) fun h' => h h'.symm

theorem enum_row (name : String) (hvarchar : asciiLower name ≠ "varchar") :
    (normalizeCatalogType ⟨"USER-DEFINED", name, none⟩).family =
      unsizedFamily "user-defined" (asciiLower name) := by
  have hdt : asciiLower "USER-DEFINED" = "user-defined" := by decide
  simp only [normalizeCatalogType, hdt]
  rw [if_neg (by simp [isVarchar, hvarchar])]

theorem unsized_enum {udt : String} (h : udt ∉ builtinUdts) :
    unsizedFamily "user-defined" udt = "ENUM" := by
  have htimestamp : containsText "timestamp" "user-defined" = false := by decide
  simp only [builtinUdts, List.mem_cons, List.not_mem_nil, or_false, not_or] at h
  simp [unsizedFamily, h, htimestamp]

theorem varchar_row (name : String) (hvarchar : asciiLower name = "varchar") :
    normalizeCatalogType ⟨"USER-DEFINED", name, none⟩ = ⟨"VARCHAR", none⟩ := by
  simp only [normalizeCatalogType]
  rw [if_pos (by simp [isVarchar, hvarchar])]
  rfl

theorem enum_by_ref {ref : String} {c : ColumnDefinition} (h : upperCase c.type = "ENUM") :
    Unchanged ⟨"USER-DEFINED", ref, none⟩ c ↔ asciiLower ref ∉ builtinUdts := by
  have henum : (familyOfName (upperCase c.type) c.length).family = "ENUM" := by
    rw [h]
    exact family_enum.mpr List.mem_cons_self
  by_cases hvarchar : asciiLower ref = "varchar"
  · refine iff_of_false ?_ fun hnot => hnot (hvarchar ▸ List.mem_cons_self)
    rw [Unchanged, varchar_row ref hvarchar, normalizeDeclaredType, typeChanged, henum,
      if_pos (by decide)]
    decide
  have hrow := enum_row ref hvarchar
  by_cases hmem : asciiLower ref ∈ builtinUdts
  · refine iff_of_false ?_ (not_not.mpr hmem)
    have hne : unsizedFamily "user-defined" (asciiLower ref) ≠ "VARCHAR" ∧
        unsizedFamily "user-defined" (asciiLower ref) ≠ "ENUM" := by
      have hall : ∀ udt ∈ builtinUdts, udt ≠ "varchar" →
          unsizedFamily "user-defined" udt ≠ "VARCHAR" ∧ unsizedFamily "user-defined" udt ≠ "ENUM" := by
        decide
      exact hall _ hmem hvarchar
    rw [unchanged_iff hne.1 hrow, henum]
    exact hne.2.symm
  · rw [unsized_enum hmem] at hrow
    rw [unchanged_iff (by decide) hrow]
    exact iff_of_true henum hmem

theorem enum_by_name {c : ColumnDefinition} (h : upperCase c.type ≠ "ENUM") :
    Unchanged ⟨"USER-DEFINED", c.type, none⟩ c ↔
      asciiLower c.type ∈ ["text", "bool"] ∨
        asciiLower c.type = "varchar" ∧ positive c.length = none := by
  have hupper := upperCase_asciiLower c.type
  by_cases hvarchar : asciiLower c.type = "varchar"
  · rw [hvarchar] at hupper
    have hname : upperCase c.type = "VARCHAR" := hupper.symm.trans (by decide)
    rw [Unchanged, varchar_row _ hvarchar, normalizeDeclaredType, hname, hvarchar, familyOfName,
      if_neg (by decide), if_pos rfl]
    cases positive c.length with
    | none => exact iff_of_true rfl (.inr ⟨rfl, rfl⟩)
    | some n => exact iff_of_false Bool.noConfusion (by simp)
  have hrow := enum_row c.type hvarchar
  have hnot : ¬ (asciiLower c.type = "varchar" ∧ positive c.length = none) := fun h => hvarchar h.1
  rw [or_iff_left hnot]
  by_cases hmem : asciiLower c.type ∈ builtinUdts
  · simp only [builtinUdts, List.mem_cons, List.not_mem_nil, or_false] at hmem
    rcases hmem with hl | hl | hl | hl | hl | hl
    · exact absurd hl hvarchar
    all_goals rw [hl] at hupper hrow ⊢
    · rw [unchanged_iff (f := "TEXT") (by decide) (hrow.trans (by decide)), ← hupper]
      exact iff_of_true rfl (by decide)
    · rw [unchanged_iff (f := "INT") (by decide) (hrow.trans (by decide)), family_int, ← hupper]
      decide
    · rw [unchanged_iff (f := "INT") (by decide) (hrow.trans (by decide)), family_int, ← hupper]
      decide
    · rw [unchanged_iff (f := "BIGINT") (by decide) (hrow.trans (by decide)), family_bigint, ← hupper]
      decide
    · rw [unchanged_iff (f := "BOOL") (by decide) (hrow.trans (by decide)), family_bool, ← hupper]
      decide
  · rw [unsized_enum hmem] at hrow
    rw [unchanged_iff (by decide) hrow, family_enum, List.mem_singleton]
    refine iff_of_false h fun hlist => hmem ?_
    have hsub : ∀ name ∈ ["text", "bool"], name ∈ builtinUdts := by decide
    exact hsub _ hlist

variable {S : String} {enumNames : List String} {c : ColumnDefinition}

theorem catalogRow_mapped (type : String) :
    catalogRow (.named (mappedType type)) = namedRow (compiledName (upperCase type)) := by
  rw [catalogRow, upperCase_mappedType]

theorem named_unchanged {row : CatalogType} (h : catalogRow (.named (mappedType c.type)) = some row) :
    Unchanged row c ↔ upperCase c.type ∈ settledNames ∧
      (upperCase c.type = "STRING" ∨ upperCase c.type = "VARCHAR" → positive c.length = none) := by
  rw [catalogRow_mapped] at h
  exact named_settles h

theorem varchar_unchanged {n : ℕ} (hlength : positive c.length = some n)
    (hname : upperCase c.type = "STRING" ∨ upperCase c.type = "VARCHAR") :
    Unchanged ⟨"character varying", "varchar", some n⟩ c := by
  have hpos : positive (some n) = some n := by
    rw [positive, Option.filter_eq_some_iff] at hlength
    exact Option.filter_some_pos hlength.2
  have hcat : normalizeCatalogType ⟨"character varying", "varchar", some n⟩ = ⟨"VARCHAR", some n⟩ := by
    have hvarchar : isVarchar (asciiLower "character varying") (asciiLower "varchar") = true := by decide
    simp only [normalizeCatalogType, hvarchar, if_true, hpos]
  rw [Unchanged, hcat, normalizeDeclaredType, familyOfName]
  rcases hname with hname | hname <;> rw [hname]
  · simp [hlength, typeChanged]
  · simp [hlength, typeChanged]

theorem enumRef_some {ref : String} (h : enumRef c = some ref) : upperCase c.type = "ENUM" := by
  unfold enumRef at h
  split at h
  · rename_i hplaceholder
    simpa [isEnumPlaceholder] using hplaceholder
  · cases h

theorem mappedTypeOf_some {mapped : String} (h : mappedTypeOf enumNames c = some mapped) :
    mapped = c.type ∨ mapped = mappedType c.type := by
  unfold mappedTypeOf normalizeType at h
  split_ifs at h with hcustom hempty haccepted
  · exact .inl (Option.some.inj h).symm
  · exact .inl (hempty ▸ (Option.some.inj h).symm)
  · exact .inr (Option.some.inj h).symm

theorem mappedTypeOf_plain {mapped : String} (h : mappedTypeOf enumNames c = some mapped)
    (hcustom : c.type ∉ enumNames) (hplain : enumRef c = none) : mapped = mappedType c.type := by
  unfold mappedTypeOf normalizeType at h
  rw [if_neg (by simp [hcustom, hplain])] at h
  split_ifs at h with hempty haccepted
  · have hmapped : mappedType "" = "" := by decide
    rw [hempty, hmapped]
    exact (Option.some.inj h).symm
  · exact (Option.some.inj h).symm

theorem plain_unchanged {sized : List String} {mapped : String} {row : CatalogType}
    (hsized : ∀ name ∈ sized, name = "STRING" ∨ name = "VARCHAR") (hstring : "STRING" ∈ sized)
    (hmapped : mappedTypeOf enumNames c = some mapped)
    (hvalid : enumRef c = none → upperCase c.type ≠ "ENUM")
    (hrow : catalogRow (plainType S enumNames sized c mapped) = some row) :
    Unchanged row c ↔ PlainSettles enumNames sized c := by
  unfold PlainSettles plainType at *
  cases href : enumRef c with
  | some ref =>
    rw [href] at hrow
    cases hrow
    exact enum_by_ref (enumRef_some href)
  | none =>
    rw [href] at hrow
    by_cases hcustom : c.type ∈ enumNames
    · simp only [if_pos hcustom] at hrow ⊢
      cases hrow
      exact enum_by_name (hvalid href)
    simp only [if_neg hcustom] at hrow ⊢
    rw [mappedTypeOf_plain hmapped hcustom href] at hrow
    cases hlength : positive c.length with
    | none =>
      rw [hlength] at hrow
      rw [named_unchanged hrow, hlength]
      exact and_congr_right fun _ => iff_of_true (fun _ => rfl) fun _ => .inr rfl
    | some n =>
      rw [hlength] at hrow
      by_cases hname : upperCase c.type ∈ sized
      · simp only [if_pos hname] at hrow
        cases hrow
        refine iff_of_true (varchar_unchanged hlength (hsized _ hname))
          ⟨?_, fun h => .inl (h ▸ hname)⟩
        rcases hsized _ hname with h | h <;> rw [h] <;> decide
      · simp only [if_neg hname] at hrow
        rw [named_unchanged hrow, hlength]
        refine and_congr_right fun _ => ⟨fun h hv => ?_, fun h hor => ?_⟩
        · cases h (.inr hv)
        · rcases hor with h' | h'
          · exact absurd (h' ▸ hstring) hname
          · rcases h h' with hv | hv
            · exact absurd (h' ▸ hv) hname
            · exact hv

theorem namedRow_type {type : String} {row : CatalogType} (h : namedRow type = some row) :
    ∃ t : PostgresType, row.dataType = "ARRAY" ∧ row.udtName = "_" ++ t.row.2 ∨
      row.dataType = t.row.1 ∧ row.udtName = t.row.2 := by
  unfold namedRow at h
  split at h
  · rename_i t _
    cases h
    exact ⟨t, .inr ⟨rfl, rfl⟩⟩
  · rw [Option.map_eq_some_iff] at h
    obtain ⟨t, _, hrow⟩ := h
    refine ⟨t, ?_⟩
    split_ifs at hrow
    · exact .inl ⟨hrow ▸ rfl, hrow ▸ rfl⟩
    all_goals exact .inr ⟨hrow ▸ rfl, hrow ▸ rfl⟩

theorem integer_types (t : PostgresType) (h : t.row.2 ∈ ["int2", "int4", "int8"]) :
    t = .integer ∨ t = .smallint ∨ t = .bigint := by
  cases t <;> revert h <;> decide

theorem integer_family {type : String} {row : CatalogType} (h : namedRow type = some row)
    (hudt : row.udtName ∈ ["int2", "int4", "int8"]) :
    (normalizeCatalogType row).family = "INT" ∨ (normalizeCatalogType row).family = "BIGINT" := by
  obtain ⟨dataType, udtName, length⟩ := row
  obtain ⟨t, ⟨_, hunderscore⟩ | ⟨hdt, hname⟩⟩ := namedRow_type h
  · have hhead : ∀ name ∈ ["int2", "int4", "int8"], name.toList.head? ≠ some '_' := by decide
    refine absurd ?_ (hhead _ hudt)
    rw [hunderscore, String.toList_append]
    rfl
  · change dataType = t.row.1 at hdt
    change udtName = t.row.2 at hname
    subst hdt hname
    rw [catalogFamily]
    rcases integer_types t hudt with rfl | rfl | rfl
    · exact .inl (by decide)
    · exact .inl (by decide)
    · exact .inr (by decide)

theorem integer_names : ∀ name ∈ ["INT", "INTEGER", "BIGINT"],
    ((namedRow name).map fun row => (normalizeCatalogType row).family) =
        some (familyOfName name none).family ∧
      ((namedRow (compiledName name)).map fun row => (normalizeCatalogType row).family) =
        some (familyOfName name none).family := by
  decide

theorem family_integer {name : String} (h : name ∈ ["INT", "INTEGER", "BIGINT"]) (length : Option ℕ) :
    (familyOfName name length).family = (familyOfName name none).family ∧
      (familyOfName name none).family ≠ "VARCHAR" := by
  simp only [List.mem_cons, List.not_mem_nil, or_false] at h
  rcases h with rfl | rfl | rfl <;> exact ⟨rfl, by decide⟩

theorem identity_unchanged {mapped : String} {row : CatalogType}
    (hmapped : mappedTypeOf enumNames c = some mapped) (hrow : catalogRow (.named mapped) = some row)
    (hudt : row.udtName ∈ ["int2", "int4", "int8"]) :
    Unchanged row c ↔ upperCase c.type ∈ ["INT", "INTEGER", "BIGINT"] := by
  have hfamily := integer_family hrow hudt
  constructor
  · intro h
    rcases hfamily with hf | hf
    · have := family_int.mp ((unchanged_iff (by decide) hf).mp h)
      simp only [List.mem_cons, List.not_mem_nil, or_false] at this ⊢
      exact this.elim .inl fun h => .inr (.inl h)
    · have := family_bigint.mp ((unchanged_iff (by decide) hf).mp h)
      simp only [List.mem_cons, List.not_mem_nil, or_false] at this ⊢
      exact .inr (.inr this)
  · intro h
    have hnames := integer_names _ h
    have hown := family_integer h c.length
    have hrow' : (normalizeCatalogType row).family = (familyOfName (upperCase c.type) none).family := by
      rcases mappedTypeOf_some hmapped with rfl | rfl
      · rw [catalogRow] at hrow
        rw [hrow] at hnames
        exact Option.some.inj hnames.1
      · rw [catalogRow_mapped] at hrow
        rw [hrow] at hnames
        exact Option.some.inj hnames.2
    rw [unchanged_iff (hrow' ▸ hown.2) rfl, hrow']
    exact hown.1

theorem created_unchanged {type : SqlType} {row : CatalogType}
    (htype : createdType S enumNames c = some type) (hrow : catalogRow type = some row)
    (hidentity : c.strategy = some .IDENTITY_ALWAYS → row.udtName ∈ ["int2", "int4", "int8"])
    (hvalid : enumRef c = none → upperCase c.type ≠ "ENUM") :
    Unchanged row c ↔ CreateSettles enumNames c := by
  rw [createdType, Option.map_eq_some_iff] at htype
  obtain ⟨mapped, hmapped, htype⟩ := htype
  have hplain (h : plainType S enumNames ["STRING"] c mapped = type) :
      Unchanged row c ↔ PlainSettles enumNames ["STRING"] c :=
    plain_unchanged (S := S) (by simp) (by simp) hmapped hvalid (h ▸ hrow)
  unfold CreateSettles
  cases hstrategy : c.strategy with
  | none =>
    rw [hstrategy] at htype
    exact hplain htype
  | some strategy =>
    rw [hstrategy] at htype
    cases strategy with
    | IDENTITY_ALWAYS =>
      cases htype
      exact identity_unchanged hmapped hrow (hidentity hstrategy)
    | UUID_V7 =>
      cases htype
      cases (show catalogRow (.named "UUID") = some ⟨"uuid", "uuid", none⟩ by decide).symm.trans hrow
      rw [unchanged_iff (f := "UUID") (by decide) (by decide), family_uuid, List.mem_singleton]
    | LEGACY_SERIAL =>
      cases htype
      cases (show catalogRow (.named "SERIAL") = some ⟨"integer", "int4", none⟩ by decide).symm.trans hrow
      rw [unchanged_iff (f := "INT") (by decide) (by decide), family_int]
    | FUNCTIONAL => exact hplain htype
    | SOFT_DELETE => exact hplain htype

theorem altered_unchanged {type : SqlType} {row : CatalogType}
    (htype : alteredType S enumNames c = some type) (hrow : catalogRow type = some row)
    (hvalid : enumRef c = none → upperCase c.type ≠ "ENUM") :
    Unchanged row c ↔ AlterSettles enumNames c := by
  rw [alteredType, Option.map_eq_some_iff] at htype
  obtain ⟨mapped, hmapped, rfl⟩ := htype
  exact plain_unchanged (by simp) (by simp) hmapped hvalid hrow

end DataFabric.ColumnRoundTrips
