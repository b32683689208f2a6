import DataFabric.ColumnRoundTrips
import DataFabric.ExceptRules
import DataFabric.HubFrames

set_option autoImplicit false

/-! # Where the statements of an apply come from -/
namespace DataFabric.PlannedStatements
open CharText TenantIdentifiers HubReplicas ExceptRules ColumnTypes Manifests HubCatalog HubFrames
  ManifestPlans ColumnRoundTrips TransitionRuns

variable {t S T n : String} {h : Hub} {c : Change}

theorem physicalName_eq (hS : physicalName t n = some S) : S = "tenant_" ++ t ++ "_" ++ n := by
  have hok : physicalSchemaName t (.str n) = .ok S := by
    unfold physicalName at hS
    cases hp : physicalSchemaName t (.str n) with
    | error e =>
      rw [hp] at hS
      cases hS
    | ok S' =>
      rw [hp] at hS
      exact congrArg Except.ok (Option.some.inj hS)
  unfold physicalSchemaName at hok
  obtain ⟨t', ht, hok⟩ := bind_ok hok
  obtain ⟨n', hn, hok⟩ := bind_ok hok
  have hn' : n' = n := by
    change (if identRe n then Except.ok n else _) = Except.ok n' at hn
    split at hn
    · exact (Except.ok.inj hn).symm
    · cases hn
  rw [(assertTenantId_ok_iff.mp ht).2, hn'] at hok
  dsimp only at hok
  split at hok
  · cases hok
  · exact (Except.ok.inj hok).symm

theorem physicalName_inj {n' : String} (hS : physicalName t n = some S)
    (hS' : physicalName t n' = some S) : n = n' := by
  have e := (physicalName_eq hS).symm.trans (physicalName_eq hS')
  simpa [String.ext_iff] using e

theorem mem_sortResources {rs : List ResourceDefinition} {r : ResourceDefinition} :
    r ∈ sortResources rs ↔ r ∈ rs := by
  have horder : order r < 7 := by
    cases r with
    | view v =>
      rw [order]
      split <;> omega
    | _ =>
      rw [order]
      omega
  simp [sortResources, horder]

theorem mem_schemaChanges {s : SchemaDefinition} : c ∈ schemaChanges h S s ↔
    (S ∉ h.schemas ∧ c = .createSchema s.name) ∨
    (∃ r ∈ s.resources, c ∈ processResourceDiff h S s.name r) ∨
    ∃ T ∈ h.liveTables S, (T ∉ s.tables.map (·.name) ∧ startsWith T "__deleted" = false) ∧
      .quarantineTable s.name T = c := by
  rw [schemaChanges, List.mem_append, List.mem_append, or_assoc]
  refine or_congr ?_ (or_congr ?_ ?_)
  · split_ifs with hS
    · simp [hS]
    · simp [hS]
  · simp only [List.mem_flatMap, mem_sortResources]
  · simp only [detectRetiredResources, List.mem_map, List.mem_filter, Bool.and_eq_true,
      decide_eq_true_eq, Bool.not_eq_true', and_assoc]

theorem mem_diffTable {tb : TableDefinition} : c ∈ diffTable h S n tb ↔
    (h.tableAt S tb.name = false ∧ c = .createTable n tb) ∨
    (h.tableAt S tb.name = true ∧ ∃ col ∈ tb.columns,
      (Hub.typeOf h S tb.name col.name = none ∧ c = .addColumn n tb.name col) ∨
      ∃ row, Hub.typeOf h S tb.name col.name = some row ∧ ¬ Unchanged row col ∧
        c = .alterColumnType n tb.name col) := by
  rw [diffTable, Hub.tableAt]
  simp only [typeOf_eq]
  cases h.table? S tb.name with
  | none => simp
  | some live =>
    simp only [List.mem_flatMap, Option.isSome_some, Bool.true_eq_false, false_and, false_or,
      true_and, Option.bind_some, LiveTable.typeOf]
    refine exists_congr fun col => and_congr_right fun _ => ?_
    rw [diffColumn]
    cases live.column? col.name with
    | none => simp
    | some existing =>
      simp only [Option.map_some, Option.some.injEq, reduceCtorEq, false_and, false_or,
        exists_eq_left', Unchanged, Bool.not_eq_false]
      split_ifs with hchanged
      · simp [hchanged]
      · simp [hchanged]

theorem mem_diffSequence {q : SequenceDefinition} :
    c ∈ diffSequence h S n q ↔ h.sequenceAt S q.name = false ∧ c = .createSequence n q := by
  unfold diffSequence
  split_ifs with hq <;> simp [hq]

theorem mem_diffView {v : ViewDefinition} :
    c ∈ diffView h S n v ↔ h.viewAt S v.name = false ∧ c = .createView n v := by
  unfold diffView
  split_ifs with hv <;> simp [hv]

theorem mem_diffFunction {f : FunctionDefinition} :
    c ∈ diffFunction h S n f ↔ h.functionAt S f.name = false ∧ c = .createFunction n f := by
  unfold diffFunction
  split_ifs with hf <;> simp [hf]

inductive Plans (h : Hub) (S n : String) : ResourceDefinition → Change → Prop
  | createEnum {e} (free : h.typeAt S e.name = false) : Plans h S n (.enum e) (.createEnum n e)
  | addEnumValue {e value} : Plans h S n (.enum e) (.addEnumValue n e.name value)
  | createSequence {q} (free : h.sequenceAt S q.name = false) :
      Plans h S n (.sequence q) (.createSequence n q)
  | createFunction {f} (free : h.functionAt S f.name = false) :
      Plans h S n (.function f) (.createFunction n f)
  | createTable {tb} (free : h.tableAt S tb.name = false) : Plans h S n (.table tb) (.createTable n tb)
  | addColumn {tb col} (live : h.tableAt S tb.name = true) (column : col ∈ tb.columns)
      (free : Hub.typeOf h S tb.name col.name = none) :
      Plans h S n (.table tb) (.addColumn n tb.name col)
  | alterColumnType {tb col row} (live : h.tableAt S tb.name = true) (column : col ∈ tb.columns)
      (type : Hub.typeOf h S tb.name col.name = some row) (changed : ¬ Unchanged row col) :
      Plans h S n (.table tb) (.alterColumnType n tb.name col)
  | createView {v} (free : h.viewAt S v.name = false) : Plans h S n (.view v) (.createView n v)

theorem processResourceDiff_plans {r : ResourceDefinition} (hc : c ∈ processResourceDiff h S n r) :
    Plans h S n r c := by
  cases r with
  | enum e =>
    rw [processResourceDiff, diffEnum] at hc
    split_ifs at hc with hfree
    · obtain ⟨value, _, rfl⟩ := List.mem_map.mp hc
      exact .addEnumValue
    · cases List.mem_singleton.mp hc
      exact .createEnum (by simpa using hfree)
  | sequence q =>
    obtain ⟨hfree, rfl⟩ := mem_diffSequence.mp hc
    exact .createSequence hfree
  | table tb =>
    rcases mem_diffTable.mp hc with ⟨hfree, rfl⟩ | ⟨hlive, col, hcol, hc⟩
    · exact .createTable hfree
    · rcases hc with ⟨hfree, rfl⟩ | ⟨row, hrow, hchanged, rfl⟩
      · exact .addColumn hlive hcol hfree
      · exact .alterColumnType hlive hcol hrow hchanged
  | view v =>
    obtain ⟨hfree, rfl⟩ := mem_diffView.mp hc
    exact .createView hfree
  | function f =>
    obtain ⟨hfree, rfl⟩ := mem_diffFunction.mp hc
    exact .createFunction hfree

/-- A change planned in the physical schema `S` of a declared schema, or added by `force`. -/
structure Planned (h : Hub) (t : String) (m : MetadataManifest) (s : SchemaDefinition) (S : String)
    (c : Change) : Prop where
  declared : s ∈ m.schemas
  physical : physicalName t s.name = some S
  planned : c = .createSchema s.name ∨ c ∈ schemaChanges h S s

variable {m : MetadataManifest} {s : SchemaDefinition}

theorem Planned.resource (p : Planned h t m s S c) (hschema : ∀ n, c ≠ .createSchema n)
    (hquarantine : ∀ n T, c ≠ .quarantineTable n T) : ∃ r ∈ s.resources, Plans h S s.name r c := by
  rcases p.planned with hc | hc
  · exact absurd hc (hschema _)
  · rcases mem_schemaChanges.mp hc with ⟨_, hc⟩ | ⟨r, hr, hc⟩ | ⟨T, _, _, hc⟩
    · exact absurd hc (hschema _)
    · exact ⟨r, hr, processResourceDiff_plans hc⟩
    · exact absurd hc.symm (hquarantine _ _)

theorem Planned.schema (p : Planned h t m s S c) : c.schema = s.name := by
  rcases p.planned with rfl | hc
  · rfl
  · rcases mem_schemaChanges.mp hc with ⟨_, rfl⟩ | ⟨r, _, hc⟩ | ⟨T, _, _, rfl⟩
    · rfl
    · cases processResourceDiff_plans hc <;> rfl
    · rfl

theorem Planned.createTable {tb : TableDefinition} (p : Planned h t m s S (.createTable n tb)) :
    tb ∈ s.tables ∧ h.tableAt S tb.name = false := by
  obtain ⟨r, hr, hc⟩ := p.resource nofun nofun
  cases hc with
  | createTable hfree => exact ⟨mem_tables.mpr hr, hfree⟩

theorem Planned.addColumn {col : ColumnDefinition} (p : Planned h t m s S (.addColumn n T col)) :
    h.tableAt S T = true ∧ Hub.typeOf h S T col.name = none ∧
      ∃ tb ∈ s.tables, tb.name = T ∧ col ∈ tb.columns := by
  obtain ⟨r, hr, hc⟩ := p.resource nofun nofun
  cases hc with
  | addColumn hlive hcol hfree => exact ⟨hlive, hfree, _, mem_tables.mpr hr, rfl, hcol⟩

theorem Planned.alterColumnType {col : ColumnDefinition}
    (p : Planned h t m s S (.alterColumnType n T col)) : h.tableAt S T = true ∧
      (∃ row, Hub.typeOf h S T col.name = some row ∧ ¬ Unchanged row col) ∧
      ∃ tb ∈ s.tables, tb.name = T ∧ col ∈ tb.columns := by
  obtain ⟨r, hr, hc⟩ := p.resource nofun nofun
  cases hc with
  | alterColumnType hlive hcol hrow hchanged =>
    exact ⟨hlive, ⟨_, hrow, hchanged⟩, _, mem_tables.mpr hr, rfl, hcol⟩

theorem Planned.createSequence {q : SequenceDefinition}
    (p : Planned h t m s S (.createSequence n q)) : .sequence q ∈ s.resources := by
  obtain ⟨r, hr, hc⟩ := p.resource nofun nofun
  cases hc with
  | createSequence => exact hr

theorem Planned.createView {v : ViewDefinition} (p : Planned h t m s S (.createView n v)) :
    .view v ∈ s.resources := by
  obtain ⟨r, hr, hc⟩ := p.resource nofun nofun
  cases hc with
  | createView => exact hr

section Compiled

variable {md5 : String → String} {own : List Statement} {st : Statement}

/-- A statement that neither makes a relation nor decides the type of a column. -/
def Plain (st : Statement) : Prop := target st = none ∧ columnOf st = none ∧ view st = none

inductive Decides (S : String) (m : MetadataManifest) : Change → Statement → Prop
  | createSequence {n q} (native : q.procedural = false) :
      Decides S m (.createSequence n q) (.createSequence S q)
  | createTable {n tb spec} (spec_eq : tableSpec S (enumNamesOf m n) tb = some spec) :
      Decides S m (.createTable n tb) (.createTable S spec)
  | addColumn {n T col spec} (spec_eq : addedColumn S (enumNamesOf m n) col = some spec) :
      Decides S m (.addColumn n T col) (.addColumn S T spec)
  | alterColumnType {n T col type} (type_eq : alteredType S (enumNamesOf m n) col = some type) :
      Decides S m (.alterColumnType n T col) (.alterType S T col.name type)
  | createView {n v st} (view_eq : view st = some (S, v.name))
      (native : v.materialized = true ∨ v.isVirtual = false) : Decides S m (.createView n v) st

theorem columnDetails_plain {col : ColumnDefinition} (hst : st ∈ columnDetails md5 S T col) :
    Plain st := by
  rw [columnDetails, List.mem_append] at hst
  rcases hst with hst | hst
  · cases hindex : col.index with
    | none =>
      rw [hindex] at hst
      cases hst
    | some method =>
      rw [hindex] at hst
      cases List.mem_singleton.mp hst
      exact ⟨rfl, rfl, rfl⟩
  · split at hst
    · cases hdefault : declaredDefault col with
      | none =>
        rw [hdefault] at hst
        cases hst
      | some expression =>
        rw [hdefault] at hst
        rcases List.mem_pair.mp hst with rfl | rfl <;> exact ⟨rfl, rfl, rfl⟩
    · cases hst

theorem tableDetails_plain {tb : TableDefinition} (hst : st ∈ tableDetails md5 S tb) : Plain st := by
  simp only [tableDetails, List.mem_append, or_assoc] at hst
  rcases hst with hst | hst | hst | hst
  · obtain ⟨col, _, hst⟩ := List.mem_flatMap.mp hst
    exact columnDetails_plain hst
  · split at hst
    · rcases List.mem_cons.mp hst with rfl | hst
      · exact ⟨rfl, rfl, rfl⟩
      · obtain ⟨policy, _, rfl⟩ := List.mem_map.mp hst
        exact ⟨rfl, rfl, rfl⟩
    · cases hst
  · obtain ⟨grant, _, rfl⟩ := List.mem_map.mp hst
    exact ⟨rfl, rfl, rfl⟩
  · obtain ⟨trigger, _, rfl⟩ := List.mem_map.mp hst
    exact ⟨rfl, rfl, rfl⟩

theorem toSql_decides (hown : toSql md5 S m c = some own) (hst : st ∈ own)
    (hc : ∀ n r, c ≠ .provisionRelationship n r) : Plain st ∨ Decides S m c st := by
  cases c with
  | createSchema | createEnum | addEnumValue | createFunction =>
    cases hown
    cases List.mem_singleton.mp hst
    exact .inl ⟨rfl, rfl, rfl⟩
  | createSequence n q =>
    cases hown
    cases List.mem_singleton.mp hst
    cases hq : q.procedural with
    | true => exact .inl ⟨rfl, rfl, rfl⟩
    | false => exact .inr (.createSequence hq)
  | createTable n tb =>
    obtain ⟨spec, hspec, rfl⟩ := Option.map_eq_some_iff.mp hown
    rcases List.mem_cons.mp hst with rfl | hst
    · exact .inr (.createTable hspec)
    · exact .inl (tableDetails_plain hst)
  | addColumn n T col =>
    obtain ⟨spec, hspec, rfl⟩ := Option.map_eq_some_iff.mp hown
    cases List.mem_singleton.mp hst
    exact .inr (.addColumn hspec)
  | alterColumnType n T col =>
    obtain ⟨type, htype, rfl⟩ := Option.map_eq_some_iff.mp hown
    rcases List.mem_cons.mp hst with rfl | hst
    · exact .inl ⟨rfl, rfl, rfl⟩
    rcases List.mem_cons.mp hst with rfl | hst
    · exact .inr (.alterColumnType htype)
    · cases hdefault : declaredDefault col with
      | none =>
        rw [hdefault] at hst
        cases hst
      | some value =>
        rw [hdefault] at hst
        cases List.mem_singleton.mp hst
        exact .inl ⟨rfl, rfl, rfl⟩
  | createView n v =>
    cases hown
    unfold viewStatements at hst
    split_ifs at hst with hmaterialized hvirtual
    · rcases List.mem_cons.mp hst with rfl | hst
      · exact .inr (.createView rfl (.inl hmaterialized))
      · obtain ⟨columns, _, rfl⟩ := List.mem_map.mp hst
        exact .inl ⟨rfl, rfl, rfl⟩
    · cases List.mem_singleton.mp hst
      exact .inl ⟨rfl, rfl, rfl⟩
    · cases List.mem_singleton.mp hst
      exact .inr (.createView rfl (.inr (by simpa using hvirtual)))
  | quarantineTable n T =>
    cases hown
    cases hst
  | provisionRelationship n r => exact absurd rfl (hc n r)

theorem mem_hubStatements {changes : List Change} (hown : hubStatements md5 t m changes = some own) :
    st ∈ own ↔ ∃ c ∈ changes, runsOnHub m c = true ∧
      ∃ ofChange, compileChange md5 t m c = some ofChange ∧ st ∈ ofChange := by
  obtain ⟨compiled, hcompiled, rfl⟩ := Option.map_eq_some_iff.mp hown
  simp only [List.mem_flatten, mem_mapM_some hcompiled, List.mem_filter, and_assoc]
  constructor
  · rintro ⟨ofChange, ⟨c, hc, hruns, he⟩, hst⟩
    exact ⟨c, hc, hruns, ofChange, he, hst⟩
  · rintro ⟨c, hc, hruns, ofChange, he, hst⟩
    exact ⟨ofChange, ⟨c, hc, hruns, he⟩, hst⟩

theorem compileChange_some {changes : List Change} (hown : hubStatements md5 t m changes = some own)
    (hc : c ∈ changes) (hruns : runsOnHub m c = true) :
    ∃ ofChange, compileChange md5 t m c = some ofChange ∧ ∀ st ∈ ofChange, st ∈ own := by
  obtain ⟨compiled, hcompiled, _⟩ := Option.map_eq_some_iff.mp hown
  obtain ⟨ofChange, he, _⟩ := mapM_some_of_mem hcompiled (List.mem_filter.mpr ⟨hc, hruns⟩)
  exact ⟨ofChange, he, fun _ hst => (mem_hubStatements hown).mpr ⟨c, hc, hruns, ofChange, he, hst⟩⟩

theorem hubStatements_append {xs ys : List Change}
    (hown : hubStatements md5 t m (xs ++ ys) = some own) : ∃ ofXs ofYs, own = ofXs ++ ofYs ∧
      hubStatements md5 t m xs = some ofXs ∧ hubStatements md5 t m ys = some ofYs := by
  obtain ⟨compiled, hcompiled, rfl⟩ := Option.map_eq_some_iff.mp hown
  rw [List.filter_append, List.mapM_append] at hcompiled
  obtain ⟨fst, hfst, hcompiled⟩ := Option.bind_eq_some_iff.mp hcompiled
  obtain ⟨snd, hsnd, hcompiled⟩ := Option.bind_eq_some_iff.mp hcompiled
  cases hcompiled
  refine ⟨fst.flatten, snd.flatten, List.flatten_append, ?_, ?_⟩
  · exact Option.map_eq_some_iff.mpr ⟨fst, hfst, rfl⟩
  · exact Option.map_eq_some_iff.mpr ⟨snd, hsnd, rfl⟩

theorem mem_compare {plan : List Change} (hplan : compare h t m = some plan) : c ∈ plan ↔
    (∃ s ∈ m.schemas, ∃ S, physicalName t s.name = some S ∧ c ∈ schemaChanges h S s) ∨
      c ∈ relationshipChanges m := by
  obtain ⟨perSchema, hperSchema, rfl⟩ := Option.map_eq_some_iff.mp hplan
  rw [List.mem_append, List.mem_flatten]
  refine or_congr_left ?_
  simp only [mem_mapM_some hperSchema, compareSchema, Option.map_eq_some_iff]
  constructor
  · rintro ⟨_, ⟨s, hs, S, hS, rfl⟩, hc⟩
    exact ⟨s, hs, S, hS, hc⟩
  · rintro ⟨s, hs, S, hS, hc⟩
    exact ⟨_, ⟨s, hs, S, hS, rfl⟩, hc⟩

theorem physicalName_some {plan : List Change} (hplan : compare h t m = some plan)
    (hs : s ∈ m.schemas) : ∃ S, physicalName t s.name = some S := by
  obtain ⟨perSchema, hperSchema, _⟩ := Option.map_eq_some_iff.mp hplan
  obtain ⟨changes, hchanges, _⟩ := mapM_some_of_mem hperSchema hs
  obtain ⟨S, hS, _⟩ := Option.map_eq_some_iff.mp hchanges
  exact ⟨S, hS⟩

/-- The statements of the schemas come first, those of the relationships last. -/
structure Phases (md5 : String → String) (h : Hub) (t : String) (m : MetadataManifest)
    (ofSchemas ofRelationships : List Statement) : Prop where
  valid : validateManifestDocument m = []
  physical : ∀ s ∈ m.schemas, ∃ S, physicalName t s.name = some S
  planned : ∀ st ∈ ofSchemas, ∃ s S c own, Planned h t m s S c ∧ toSql md5 S m c = some own ∧ st ∈ own
  compiled : ∀ s ∈ m.schemas, ∀ S, physicalName t s.name = some S → ∀ c ∈ schemaChanges h S s,
    ∃ own, toSql md5 S m c = some own ∧ ∀ st ∈ own, st ∈ ofSchemas
  related : hubStatements md5 t m (relationshipChanges m) = some ofRelationships

variable {force : Bool}

theorem mem_forcedSchemas {plan : List Change} (hc : c ∈ forcedSchemas force m plan) :
    ∃ s ∈ m.schemas, c = .createSchema s.name := by
  unfold forcedSchemas at hc
  split at hc
  · obtain ⟨s, hs, rfl⟩ := List.mem_map.mp (List.mem_reverse.mp hc)
    exact ⟨s, List.mem_of_mem_filter hs, rfl⟩
  · cases hc

theorem runsOnHub_schemaChanges (hc : c ∈ schemaChanges h S s) :
    runsOnHub m c = true := by
  rcases mem_schemaChanges.mp hc with ⟨_, rfl⟩ | ⟨r, _, hc⟩ | ⟨T, _, _, rfl⟩
  · rfl
  · cases processResourceDiff_plans hc <;> rfl
  · rfl

theorem applyStatements_phases (happly : applyStatements md5 h t m force = some own) :
    ∃ ofSchemas ofRelationships, own = ofSchemas ++ ofRelationships ∧
      Phases md5 h t m ofSchemas ofRelationships := by
  unfold applyStatements at happly
  split at happly
  · rename_i hvalid
    obtain ⟨plan, hplan, happly⟩ := Option.bind_eq_some_iff.mp happly
    split at happly
    · cases happly
    have hphysical := fun s (hs : s ∈ m.schemas) => physicalName_some hplan hs
    obtain ⟨perSchema, hperSchema, rfl⟩ := Option.map_eq_some_iff.mp hplan
    rw [← List.append_assoc] at happly
    obtain ⟨ofSchemas, ofRelationships, rfl, hschemas, hrelated⟩ := hubStatements_append happly
    refine ⟨ofSchemas, ofRelationships, rfl, hvalid, hphysical, ?_, ?_, hrelated⟩
    · intro st hst
      obtain ⟨c, hc, _, ofChange, he, hst⟩ := (mem_hubStatements hschemas).mp hst
      obtain ⟨S, hS, he⟩ := Option.bind_eq_some_iff.mp he
      rcases List.mem_append.mp hc with hc | hc
      · obtain ⟨s, hs, rfl⟩ := mem_forcedSchemas hc
        exact ⟨s, S, _, ofChange, ⟨hs, hS, .inl rfl⟩, he, hst⟩
      · obtain ⟨changes, hchanges, hc⟩ := List.mem_flatten.mp hc
        obtain ⟨s, hs, hchanges⟩ := (mem_mapM_some hperSchema changes).mp hchanges
        obtain ⟨S', hS', rfl⟩ := Option.map_eq_some_iff.mp hchanges
        have p : Planned h t m s S' c := ⟨hs, hS', .inr hc⟩
        rw [p.schema, hS', Option.some.injEq] at hS
        subst hS
        exact ⟨s, S', c, ofChange, p, he, hst⟩
    · intro s hs S hS c hc
      obtain ⟨changes, hchanges, hmem⟩ := mapM_some_of_mem hperSchema hs
      rw [compareSchema, hS, Option.map_some, Option.some.injEq] at hchanges
      subst hchanges
      have hin := List.mem_append_right (forcedSchemas force m (perSchema.flatten ++ relationshipChanges m))
        (List.mem_flatten_of_mem hmem hc)
      obtain ⟨ofChange, he, hsub⟩ := compileChange_some hschemas hin (runsOnHub_schemaChanges hc)
      have p : Planned h t m s S c := ⟨hs, hS, .inr hc⟩
      rw [compileChange, p.schema, hS, Option.bind_some] at he
      exact ⟨ofChange, he, hsub⟩
  · cases happly

theorem enumNamesOf_eq (hvalid : validateManifestDocument m = []) (hs : s ∈ m.schemas) :
    enumNamesOf m s.name = s.enumNames := by
  unfold enumNamesOf
  cases hfind : m.schemas.find? (·.name = s.name) with
  | none => simpa using List.find?_eq_none.mp hfind s hs
  | some s' =>
    have hname : s'.name = s.name := by simpa using List.find?_some hfind
    rw [schema_eq hvalid (List.mem_of_find?_eq_some hfind) hs hname]
    rfl

variable {ofSchemas ofRelationships : List Statement}

theorem Phases.decides (p : Phases md5 h t m ofSchemas ofRelationships) (hst : st ∈ ofSchemas)
    (hplain : ¬ Plain st) : ∃ s S c, Planned h t m s S c ∧ Decides S m c st := by
  obtain ⟨s, S, c, own, hplanned, hown, hmem⟩ := p.planned st hst
  refine ⟨s, S, c, hplanned, (toSql_decides hown hmem fun n r hc => ?_).resolve_left hplain⟩
  subst hc
  obtain ⟨r', _, hc⟩ := hplanned.resource nofun nofun
  cases hc

theorem Phases.same_schema (p : Phases md5 h t m ofSchemas ofRelationships) {s' : SchemaDefinition}
    (hs : s ∈ m.schemas) (hs' : s' ∈ m.schemas) (hS : physicalName t s.name = some S)
    (hS' : physicalName t s'.name = some S) : s = s' :=
  schema_eq p.valid hs hs' (physicalName_inj hS hS')

theorem Phases.origin_table (p : Phases md5 h t m ofSchemas ofRelationships) {spec : TableSpec}
    (hst : .createTable S spec ∈ ofSchemas) : ∃ s ∈ m.schemas, physicalName t s.name = some S ∧
      ∃ tb ∈ s.tables, tb.name = spec.name ∧ h.tableAt S tb.name = false ∧
        tableSpec S s.enumNames tb = some spec := by
  obtain ⟨s, S', c, hplanned, hdecides⟩ := p.decides hst nofun
  cases hdecides with
  | createTable hspec =>
    rename_i n tb
    obtain ⟨htb, hfree⟩ := hplanned.createTable
    have hn : n = s.name := hplanned.schema
    rw [hn, enumNamesOf_eq p.valid hplanned.declared] at hspec
    refine ⟨s, hplanned.declared, hplanned.physical, tb, htb, ?_, hfree, hspec⟩
    obtain ⟨columns, _, rfl⟩ := Option.map_eq_some_iff.mp hspec
    rfl
  | createView hview => cases hview

theorem Phases.origin_target (p : Phases md5 h t m ofSchemas ofRelationships) (hst : st ∈ ofSchemas)
    (ht : target st = some (S, T)) : (∃ q, st = .createSequence S q ∧ q.name = T) ∨
      ∃ spec, st = .createTable S spec ∧ spec.name = T := by
  obtain ⟨s, S', c, hplanned, hdecides⟩ :=
    p.decides hst fun hplain => by cases hplain.1.symm.trans ht
  cases hdecides with
  | createTable =>
    cases ht
    exact .inr ⟨_, rfl, rfl⟩
  | createSequence =>
    cases ht
    exact .inl ⟨_, rfl, rfl⟩
  | addColumn | alterColumnType => cases ht
  | createView hview => cases st <;> cases ht <;> cases hview

theorem Phases.origin_column (p : Phases md5 h t m ofSchemas ofRelationships) (hst : st ∈ ofSchemas)
    (hcolumn : columnOf st = some (S, T, n)) : h.tableAt S T = true ∧
    ∃ s ∈ m.schemas, physicalName t s.name = some S ∧ ∃ tb ∈ s.tables, tb.name = T ∧
      ∃ col ∈ tb.columns, col.name = n ∧
        ((Hub.typeOf h S T n = none ∧
            ∃ spec, addedColumn S s.enumNames col = some spec ∧ st = .addColumn S T spec) ∨
          (∃ row, Hub.typeOf h S T n = some row ∧ ¬ Unchanged row col ∧
            ∃ type, alteredType S s.enumNames col = some type ∧ st = .alterType S T n type)) := by
  obtain ⟨s, S', c, hplanned, hdecides⟩ :=
    p.decides hst fun hplain => by cases hplain.2.1.symm.trans hcolumn
  cases hdecides with
  | createTable | createSequence => cases hcolumn
  | addColumn hspec =>
    rename_i n' T' col spec
    obtain ⟨hlive, hfree, tb, htb, hT, hcol⟩ := hplanned.addColumn
    have hn : n' = s.name := hplanned.schema
    rw [hn, enumNamesOf_eq p.valid hplanned.declared] at hspec
    have hname : spec.name = col.name := by
      obtain ⟨type, _, rfl⟩ := Option.map_eq_some_iff.mp hspec
      rfl
    rw [columnOf, hname] at hcolumn
    cases hcolumn
    exact ⟨hlive, s, hplanned.declared, hplanned.physical, tb, htb, hT, col, hcol, rfl,
      .inl ⟨hfree, spec, hspec, rfl⟩⟩
  | alterColumnType htype =>
    rename_i n' T' col type
    obtain ⟨hlive, ⟨row, hrow, hchanged⟩, tb, htb, hT, hcol⟩ := hplanned.alterColumnType
    have hn : n' = s.name := hplanned.schema
    rw [hn, enumNamesOf_eq p.valid hplanned.declared] at htype
    cases hcolumn
    exact ⟨hlive, s, hplanned.declared, hplanned.physical, tb, htb, hT, col, hcol, rfl,
      .inr ⟨row, hrow, hchanged, type, htype, rfl⟩⟩
  | createView hview =>
    cases st <;> cases hcolumn <;> cases hview

theorem Phases.origin_view (p : Phases md5 h t m ofSchemas ofRelationships) (hst : st ∈ ofSchemas)
    (hview : view st = some (S, n)) : ∃ s ∈ m.schemas, physicalName t s.name = some S ∧
      ∃ v, .view v ∈ s.resources ∧ v.name = n ∧ (v.materialized = true ∨ v.isVirtual = false) := by
  obtain ⟨s, S', c, hplanned, hdecides⟩ :=
    p.decides hst fun hplain => by cases hplain.2.2.symm.trans hview
  cases hdecides with
  | createView hview' hnative =>
    cases hview'.symm.trans hview
    exact ⟨s, hplanned.declared, hplanned.physical, _, hplanned.createView, rfl, hnative⟩
  | _ => cases hview

theorem Phases.origin_sequence (p : Phases md5 h t m ofSchemas ofRelationships)
    {q : SequenceDefinition} (hst : .createSequence S q ∈ ofSchemas) : ∃ s ∈ m.schemas,
      physicalName t s.name = some S ∧ .sequence q ∈ s.resources ∧ q.procedural = false := by
  obtain ⟨s, S', c, hplanned, hdecides⟩ := p.decides hst nofun
  cases hdecides with
  | createSequence hnative =>
    exact ⟨s, hplanned.declared, hplanned.physical, hplanned.createSequence, hnative⟩
  | createView hview => cases hview

theorem relationshipStatements_kind {r : RelationshipDefinition}
    (hown : relationshipStatements md5 S m r = some own) (hst : st ∈ own) :
    (∃ bridge fromColumn toColumn, st = .createBridge S bridge fromColumn toColumn) ∨
      (∃ name T key, st = .addForeignKey name S T key) ∨ ∃ text, st = .remark text := by
  unfold relationshipStatements at hown
  split at hown
  · obtain ⟨fromColumn, _, hown⟩ := Option.bind_eq_some_iff.mp hown
    obtain ⟨toColumn, _, rfl⟩ := Option.map_eq_some_iff.mp hown
    rcases List.mem_cons.mp hst with rfl | hst
    · exact .inl ⟨_, _, _, rfl⟩
    · split at hst
      · cases hst
      · rcases List.mem_pair.mp hst with rfl | rfl
        · exact .inr (.inl ⟨_, _, _, rfl⟩)
        · exact .inr (.inr ⟨_, rfl⟩)
  · cases hown
    cases hst
  all_goals
    split at hown
    · cases hown
      cases List.mem_singleton.mp hst
      exact .inr (.inl ⟨_, _, _, rfl⟩)
    · cases hown
      cases List.mem_singleton.mp hst
      exact .inr (.inr ⟨_, rfl⟩)

theorem Phases.relationship (p : Phases md5 h t m ofSchemas ofRelationships)
    (hst : st ∈ ofRelationships) : ∃ s S, m.schemas.head? = some s ∧ physicalName t s.name = some S ∧
      ∃ r ∈ m.relationships, ∃ own, relationshipStatements md5 S m r = some own ∧ st ∈ own := by
  obtain ⟨c, hc, _, own, hown, hmem⟩ := (mem_hubStatements p.related).mp hst
  obtain ⟨r, hr, rfl⟩ := List.mem_map.mp hc
  obtain ⟨S, hS, hown⟩ := Option.bind_eq_some_iff.mp hown
  cases hhead : m.schemas.head? with
  | none =>
    have hvalid := p.valid
    rw [validateManifestDocument, List.head?_eq_none_iff.mp hhead] at hvalid
    cases hvalid
  | some s =>
    rw [Change.schema, hhead] at hS
    exact ⟨s, S, rfl, hS, r, hr, own, hown, hmem⟩

theorem Phases.relationship_kind (p : Phases md5 h t m ofSchemas ofRelationships)
    (hst : st ∈ ofRelationships) :
    (∃ S bridge fromColumn toColumn, st = .createBridge S bridge fromColumn toColumn) ∨
      (∃ name S T key, st = .addForeignKey name S T key) ∨ ∃ text, st = .remark text := by
  obtain ⟨_, S, _, _, r, _, own, hown, hmem⟩ := p.relationship hst
  rcases relationshipStatements_kind hown hmem with h₁ | ⟨name, h₂⟩ | h₃
  · exact .inl ⟨S, h₁⟩
  · exact .inr (.inl ⟨name, S, h₂⟩)
  · exact .inr (.inr h₃)

end Compiled

end DataFabric.PlannedStatements
