import DataFabric.PlannedStatements

set_option autoImplicit false

/-!
# Applying a manifest again

When the hub that an apply leaves is one for which the same manifest plans nothing.
-/
namespace DataFabric.Convergence
open CharText ExceptRules ColumnTypes Manifests HubCatalog HubFrames ManifestPlans ColumnRoundTrips
  PlannedStatements TransitionRuns

/-- A `CREATE`, an `ADD_COLUMN`, an `ALTER_COLUMN_TYPE` or a `QUARANTINE_TABLE`. -/
def Change.provisions : Change → Bool
  | .addEnumValue _ _ _ | .provisionRelationship _ _ => false
  | _ => true

variable (md5 : String → String) (pg : Postgres)

/-- A successful apply to `h` of a manifest whose schemas lie on the hub; it leaves `h'`. -/
structure Applied (h : Hub) (t : String) (m : MetadataManifest) (force : Bool) (h' : Hub) : Prop where
  hub : targetsHub m
  applied : apply md5 pg h t m force = some h'

/-- The same manifest is accepted again, plans nothing and changes no table. -/
structure Converged (h' : Hub) (t : String) (m : MetadataManifest) : Prop where
  planned : ∃ plan, compare h' t m = some plan ∧ ∀ c ∈ plan, Change.provisions c = false
  accepted : (applyStatements md5 h' t m false).isSome = true
  unchanged : ∀ h'', apply md5 pg h' t m false = some h'' →
    h''.relations = h'.relations ∧ h''.constraints = h'.constraints

/-- The declared resource is one that the differ recognises once it is provisioned. -/
def Settles (h : Hub) (S : String) (enumNames : List String) : ResourceDefinition → Prop
  | .enum _ | .function _ => True
  | .sequence q => h.sequenceAt S q.name = true ∨ q.procedural = false
  | .view v => h.viewAt S v.name = true ∨ v.materialized = true ∨ v.isVirtual = false
  | .table tb => ∀ col ∈ tb.columns, match Hub.typeOf h S tb.name col.name with
      | none => CreateSettles enumNames col
      | some row => Unchanged row col ∨ AlterSettles enumNames col

/-- What a statement makes under a name is not kept from it by something else of that name, and a
bridge table that it makes is one the differ overlooks. -/
def Unhindered (h : Hub) : Statement → Prop
  | .createTable S spec => h.taken S spec.name = true → h.tableAt S spec.name = true
  | .createSequence S q => h.taken S q.name = true → h.sequenceAt S q.name = true
  | .createBridge S bridge _ _ => h.taken S bridge = true ∨ startsWith bridge "__deleted" = true
  | _ => True

structure Converges (h : Hub) (t : String) (m : MetadataManifest) (force : Bool) : Prop where
  undeclared : ∀ s ∈ m.schemas, ∀ S, physicalName t s.name = some S → ∀ T ∈ h.liveTables S,
    T ∈ s.tables.map (·.name) ∨ startsWith T "__deleted" = true
  resources : ∀ s ∈ m.schemas, ∀ S, physicalName t s.name = some S → ∀ r ∈ s.resources,
    Settles h S s.enumNames r
  unhindered : ∀ ss, applyStatements md5 h t m force = some ss →
    Throughout (exec pg) Unhindered h ss

theorem addedColumn_createdAs {S : String} {enumNames : List String} {col : ColumnDefinition}
    {spec : ColumnSpec} {column : LiveColumn} (hspec : addedColumn S enumNames col = some spec)
    (hcreate : spec.create = some column) :
    spec.name = col.name ∧ CreatedAs S enumNames col column.type := by
  obtain ⟨type, htype, rfl⟩ := Option.map_eq_some_iff.mp hspec
  obtain ⟨_, hrow, hidentity⟩ := ColumnSpec.create_ok hcreate
  exact ⟨rfl, type, htype, hrow, fun h => hidentity (decide_eq_true h)⟩

theorem createColumn_createdAs {S : String} {enumNames : List String} {tb : TableDefinition}
    {col : ColumnDefinition} {spec : ColumnSpec} {column : LiveColumn}
    (hspec : createColumn S enumNames tb col = some spec) (hcreate : spec.create = some column) :
    column.name = col.name ∧ CreatedAs S enumNames col column.type := by
  obtain ⟨type, htype, rfl⟩ := Option.map_eq_some_iff.mp hspec
  obtain ⟨hname, hrow, hidentity⟩ := ColumnSpec.create_ok hcreate
  exact ⟨hname, type, htype, hrow, fun h => hidentity (decide_eq_true h)⟩

theorem created_column {S : String} {enumNames : List String} {tb : TableDefinition}
    {spec : TableSpec} {live : LiveTable} (hspec : tableSpec S enumNames tb = some spec)
    (hcreate : spec.create = some live) {col : ColumnDefinition} (hcol : col ∈ tb.columns)
    (hunique : ∀ col' ∈ tb.columns, col'.name = col.name → col' = col) :
    ∃ row, CreatedAs S enumNames col row ∧ LiveTable.typeOf live col.name = some row := by
  obtain ⟨specs, hspecs, rfl⟩ := Option.map_eq_some_iff.mp hspec
  obtain ⟨columns, hcolumns, rfl⟩ := Option.map_eq_some_iff.mp hcreate
  change specs.mapM ColumnSpec.create = some columns at hcolumns
  have horigin (column : LiveColumn) (hmem : column ∈ columns) :
      ∃ col' ∈ tb.columns, column.name = col'.name ∧ CreatedAs S enumNames col' column.type := by
    obtain ⟨own, hown, hmade⟩ := (mem_mapM_some hcolumns column).mp hmem
    obtain ⟨col', hcol', hownSpec⟩ := (mem_mapM_some hspecs own).mp hown
    exact ⟨col', hcol', createColumn_createdAs hownSpec hmade⟩
  obtain ⟨own, hown, hmem⟩ := mapM_some_of_mem hspecs hcol
  obtain ⟨column, hmade, hmem⟩ := mapM_some_of_mem hcolumns hmem
  rw [LiveTable.typeOf, LiveTable.column?]
  cases hfind : columns.find? (·.name = col.name) with
  | none =>
    have hnot := List.find?_eq_none.mp hfind column hmem
    rw [(createColumn_createdAs hown hmade).1] at hnot
    exact absurd (decide_eq_true rfl) hnot
  | some found =>
    obtain ⟨col', hcol', hname, hcreated⟩ := horigin found (List.mem_of_find?_eq_some hfind)
    have hfound : found.name = col.name := by simpa using List.find?_some hfind
    rw [hunique col' hcol' (hname.symm.trans hfound)] at hcreated
    exact ⟨found.type, hcreated, rfl⟩

section Runs

variable {md5 pg} {h h' mid : Hub} {t : String} {m : MetadataManifest} {force : Bool}
  {ofSchemas ofRelationships : List Statement}

structure PhasedRun (md5 : String → String) (pg : Postgres) (h : Hub) (t : String)
    (m : MetadataManifest) (force : Bool) (ofSchemas ofRelationships : List Statement) (mid h' : Hub) :
    Prop extends Phases md5 h t m ofSchemas ofRelationships where
  statements : applyStatements md5 h t m force = some (ofSchemas ++ ofRelationships)
  first : run (exec pg) h ofSchemas = some mid
  second : run (exec pg) mid ofRelationships = some h'

theorem phasedRun (happly : apply md5 pg h t m force = some h') :
    ∃ ofSchemas ofRelationships mid, PhasedRun md5 pg h t m force ofSchemas ofRelationships mid h' := by
  obtain ⟨ss, hss, hrun⟩ := Option.bind_eq_some_iff.mp happly
  obtain ⟨ofSchemas, ofRelationships, rfl, p⟩ := applyStatements_phases hss
  rw [run_append] at hrun
  obtain ⟨mid, hfirst, hsecond⟩ := Option.bind_eq_some_iff.mp hrun
  exact ⟨ofSchemas, ofRelationships, mid, ⟨p, hss, hfirst, hsecond⟩⟩

variable (p : PhasedRun md5 pg h t m force ofSchemas ofRelationships mid h')
  {s : SchemaDefinition} {S : String} (hs : s ∈ m.schemas) (hS : physicalName t s.name = some S)

theorem PhasedRun.run (p : PhasedRun md5 pg h t m force ofSchemas ofRelationships mid h') :
    run (exec pg) h (ofSchemas ++ ofRelationships) = some h' := by
  rw [run_append, p.first]
  exact p.second

include p hs hS

theorem runs_resource {r : ResourceDefinition} (hr : r ∈ s.resources) {c : Change}
    (hc : c ∈ processResourceDiff h S s.name r) :
    ∃ own, toSql md5 S m c = some own ∧ ∀ st ∈ own, st ∈ ofSchemas ++ ofRelationships := by
  obtain ⟨own, hown, hmem⟩ := p.compiled s hs S hS c (mem_schemaChanges.mpr (.inr (.inl ⟨r, hr, hc⟩)))
  exact ⟨own, hown, fun st hst => List.mem_append_left _ (hmem st hst)⟩

theorem schema_created : S ∈ h'.schemas := by
  refine run_settles (P := fun h => S ∈ h.schemas) p.run (fun s _ _ hx hS => schemas_step hx (.inl hS)) ?_
  by_cases hin : S ∈ h.schemas
  · exact .inl hin
  · obtain ⟨own, hown, hmem⟩ := p.compiled s hs S hS _ (mem_schemaChanges.mpr (.inl ⟨hin, rfl⟩))
    cases hown
    exact .inr ⟨_, List.mem_append_left _ (hmem _ List.mem_cons_self),
      fun _ _ hx => schemas_step hx (.inr rfl)⟩

theorem enum_created {e : EnumDefinition} (hr : .enum e ∈ s.resources) :
    h'.typeAt S e.name = true := by
  refine run_settles (P := fun h => h.typeAt S e.name = true) p.run (fun _ _ _ => typeAt_mono) ?_
  cases hfree : h.typeAt S e.name with
  | true => exact .inl rfl
  | false =>
    have hc : .createEnum s.name e ∈ processResourceDiff h S s.name (.enum e) := by
      rw [processResourceDiff, diffEnum, hfree]
      exact List.mem_cons_self
    obtain ⟨own, hown, hmem⟩ := runs_resource p hs hS hr hc
    cases hown
    refine .inr ⟨_, hmem _ List.mem_cons_self, fun _ _ hx => ?_⟩
    rw [Hub.typeAt, enum_step hx (.inr ⟨e.values, rfl⟩)]
    rfl

theorem function_created {f : FunctionDefinition} (hr : .function f ∈ s.resources) :
    h'.functionAt S f.name = true := by
  refine run_settles (P := fun h => h.functionAt S f.name = true) p.run
    (fun _ _ _ hx hf => functionAt_step hx (.inl hf)) ?_
  cases hfree : h.functionAt S f.name with
  | true => exact .inl rfl
  | false =>
    obtain ⟨own, hown, hmem⟩ := runs_resource p hs hS hr (mem_diffFunction.mpr ⟨hfree, rfl⟩)
    cases hown
    exact .inr ⟨_, hmem _ List.mem_cons_self, fun _ _ hx => functionAt_step hx (.inr ⟨f, rfl, rfl⟩)⟩

theorem view_created {v : ViewDefinition} (hr : .view v ∈ s.resources) :
    h'.viewAt S v.name = true ↔
      h.viewAt S v.name = true ∨ v.materialized = true ∨ v.isVirtual = false := by
  constructor
  · intro hview
    refine (run_new_view p.run hview).imp_right fun ⟨st, hst, hv⟩ => ?_
    rcases List.mem_append.mp hst with hst | hst
    · obtain ⟨s', hs', hS', v', hr', hname, hnative⟩ := p.origin_view hst hv
      cases p.same_schema hs hs' hS hS'
      cases resource_eq p.valid hs hr hr' rfl hname.symm
      exact hnative
    · rcases p.relationship_kind hst with ⟨_, _, _, _, rfl⟩ | ⟨_, _, _, _, rfl⟩ | ⟨_, rfl⟩ <;> cases hv
  · intro hnative
    refine run_settles (P := fun h => h.viewAt S v.name = true) p.run (fun _ _ _ => viewAt_mono) ?_
    cases hfree : h.viewAt S v.name with
    | true => exact .inl rfl
    | false =>
      have hnative := hnative.resolve_left (by simp [hfree])
      obtain ⟨own, hown, hmem⟩ := runs_resource p hs hS hr (mem_diffView.mpr ⟨hfree, rfl⟩)
      cases hown
      right
      rw [viewStatements] at hmem
      split_ifs at hmem with hmaterialized hvirtual
      · exact ⟨_, hmem _ List.mem_cons_self, fun _ _ hx => viewAt_of_view hx rfl⟩
      · rcases hnative with hm | hv
        · exact absurd hm hmaterialized
        · cases hvirtual.symm.trans hv
      · exact ⟨_, hmem _ List.mem_cons_self, fun _ _ hx => viewAt_of_view hx rfl⟩

theorem sequence_native {q : SequenceDefinition} (hr : .sequence q ∈ s.resources)
    (hsequence : h'.sequenceAt S q.name = true) :
    h.sequenceAt S q.name = true ∨ q.procedural = false := by
  refine (run_new_sequence p.run hsequence).imp_right fun ⟨q', hst, hname⟩ => ?_
  rcases List.mem_append.mp hst with hst | hst
  · obtain ⟨s', hs', hS', hr', hnative⟩ := p.origin_sequence hst
    cases p.same_schema hs hs' hS hS'
    cases resource_eq p.valid hs hr hr' rfl hname.symm
    exact hnative
  · rcases p.relationship_kind hst with ⟨_, _, _, _, hst⟩ | ⟨_, _, _, _, hst⟩ | ⟨_, hst⟩ <;> cases hst

theorem sequence_made {q : SequenceDefinition} (hr : .sequence q ∈ s.resources)
    (hun : Throughout (exec pg) Unhindered h (ofSchemas ++ ofRelationships))
    (hnative : h.sequenceAt S q.name = true ∨ q.procedural = false) :
    h'.sequenceAt S q.name = true := by
  have hkeeps {k k' : Hub} {ss : List Statement} (hrun : run (exec pg) k ss = some k')
      (hk : k.sequenceAt S q.name = true) : k'.sequenceAt S q.name = true :=
    run_preserves (P := fun k => k.sequenceAt S q.name = true) hrun hk
      fun _ _ _ _ hk hx => (sequenceAt_step hx).mpr (.inl hk)
  cases hfree : h.sequenceAt S q.name with
  | true => exact hkeeps p.run hfree
  | false =>
    have hnative := hnative.resolve_left (by simp [hfree])
    obtain ⟨own, hown, hmem⟩ := runs_resource p hs hS hr (mem_diffSequence.mpr ⟨hfree, rfl⟩)
    cases hown
    rw [hnative] at hmem
    obtain ⟨pre, post, k, k', hss, hpre, hx, hpost⟩ := run_split p.run (hmem _ List.mem_cons_self)
    refine hkeeps hpost ((sequenceAt_step hx).mpr ?_)
    cases htaken : k.taken S q.name with
    | true => exact .inl (hun pre _ post k hss hpre htaken)
    | false => exact .inr ⟨rfl, q, rfl, rfl⟩

theorem creates_table {tb : TableDefinition} (htb : tb ∈ s.tables)
    (hfree : h.tableAt S tb.name = false) : ∃ spec, tableSpec S s.enumNames tb = some spec ∧
      spec.name = tb.name ∧ .createTable S spec ∈ ofSchemas := by
  have hc : .createTable s.name tb ∈ schemaChanges h S s :=
    mem_schemaChanges.mpr (.inr (.inl ⟨_, mem_tables.mp htb, mem_diffTable.mpr (.inl ⟨hfree, rfl⟩)⟩))
  obtain ⟨own, hown, hmem⟩ := p.compiled s hs S hS _ hc
  rw [toSql, enumNamesOf_eq p.valid hs] at hown
  obtain ⟨spec, hspec, rfl⟩ := Option.map_eq_some_iff.mp hown
  refine ⟨spec, hspec, ?_, hmem _ List.mem_cons_self⟩
  obtain ⟨columns, _, rfl⟩ := Option.map_eq_some_iff.mp hspec
  rfl

theorem table_taken {tb : TableDefinition} (htb : tb ∈ s.tables) : mid.taken S tb.name = true := by
  cases hfree : h.tableAt S tb.name with
  | true => exact run_taken p.first (taken_of_tableAt hfree)
  | false =>
    obtain ⟨spec, _, hname, hmem⟩ := creates_table p hs hS htb hfree
    obtain ⟨pre, post, k, k', _, _, hx, hpost⟩ := run_split p.first hmem
    exact run_taken hpost (taken_of_target hx (hname ▸ rfl))

theorem table_made {tb : TableDefinition} (htb : tb ∈ s.tables)
    (hun : Throughout (exec pg) Unhindered h (ofSchemas ++ ofRelationships)) :
    h'.tableAt S tb.name = true := by
  cases hfree : h.tableAt S tb.name with
  | true => exact run_tableAt p.run hfree
  | false =>
    obtain ⟨spec, _, hname, hmem⟩ := creates_table p hs hS htb hfree
    obtain ⟨pre, post, k, k', hss, hpre, hx, hpost⟩ :=
      run_split p.run (List.mem_append_left _ hmem)
    refine run_tableAt hpost ?_
    rw [← hname]
    cases htaken : k.taken S spec.name with
    | true => exact tableAt_mono hx (hun pre _ post k hss hpre htaken)
    | false => exact tableAt_made hx rfl nofun htaken

section Columns

variable {tb : TableDefinition} (htb : tb ∈ s.tables) {col : ColumnDefinition} (hcol : col ∈ tb.columns)
include htb hcol

theorem column_origin {st : Statement} (hst : st ∈ ofSchemas ++ ofRelationships)
    (hcolumn : columnOf st = some (S, tb.name, col.name)) : h.tableAt S tb.name = true ∧
    ((Hub.typeOf h S tb.name col.name = none ∧
        ∃ spec, addedColumn S s.enumNames col = some spec ∧ st = .addColumn S tb.name spec) ∨
      (∃ row, Hub.typeOf h S tb.name col.name = some row ∧ ¬ Unchanged row col ∧
        ∃ type, alteredType S s.enumNames col = some type ∧
          st = .alterType S tb.name col.name type)) := by
  rcases List.mem_append.mp hst with hst | hst
  · obtain ⟨hlive, s', hs', hS', tb', htb', hT, col', hcol', hname, hcases⟩ :=
      p.origin_column hst hcolumn
    cases p.same_schema hs hs' hS hS'
    cases table_eq p.valid hs htb' htb hT
    cases column_eq p.valid hs htb hcol' hcol hname
    exact ⟨hlive, hcases⟩
  · rcases p.relationship_kind hst with ⟨_, _, _, _, rfl⟩ | ⟨_, _, _, _, rfl⟩ | ⟨_, rfl⟩ <;>
      cases hcolumn

theorem column_kept {row : CatalogType} (hrow : Hub.typeOf h S tb.name col.name = some row)
    (hunchanged : Unchanged row col) (hlive : h.tableAt S tb.name = true) :
    Hub.typeOf h' S tb.name col.name = some row := by
  rw [← hrow]
  refine run_typeOf p.run hlive fun st hst hcolumn => ?_
  obtain ⟨_, ⟨hnone, _⟩ | ⟨row', hrow', hchanged, _⟩⟩ :=
    column_origin p hs hS htb hcol hst hcolumn
  · cases hnone.symm.trans hrow
  · cases hrow'.symm.trans hrow
    exact hchanged hunchanged

theorem column_altered {row : CatalogType} (hrow : Hub.typeOf h S tb.name col.name = some row)
    (hchanged : ¬ Unchanged row col) (hlive : h.tableAt S tb.name = true) :
    ∃ type row', alteredType S s.enumNames col = some type ∧ catalogRow type = some row' ∧
      Hub.typeOf h' S tb.name col.name = some row' := by
  obtain ⟨own, hown, hmem⟩ := runs_resource p hs hS (mem_tables.mp htb)
    (mem_diffTable.mpr (.inr ⟨hlive, col, hcol, .inr ⟨row, hrow, hchanged, rfl⟩⟩))
  rw [toSql, enumNamesOf_eq p.valid hs] at hown
  obtain ⟨type, htype, rfl⟩ := Option.map_eq_some_iff.mp hown
  have hst := hmem _ (List.mem_cons_of_mem _ List.mem_cons_self)
  obtain ⟨pre, post, k, k', _, _, hx, _⟩ := run_split p.run hst
  obtain ⟨row', hrow', _⟩ := typeOf_alter hx
  refine ⟨type, row', htype, hrow', run_sets p.run hlive hst ?_ ?_⟩
  · intro k k' hx _ hk
    obtain ⟨row'', hrow'', htypeOf⟩ := typeOf_alter hx
    cases hrow''.symm.trans hrow'
    rw [htypeOf]
    rcases hk with hk | hk
    · rw [hk, hrow]
      rfl
    · rw [hk]
      rfl
  · intro st hst hcolumn
    obtain ⟨_, ⟨hnone, _⟩ | ⟨_, _, _, type', htype', rfl⟩⟩ :=
      column_origin p hs hS htb hcol hst hcolumn
    · cases hnone.symm.trans hrow
    · cases htype'.symm.trans htype
      rfl

theorem column_added (hnone : Hub.typeOf h S tb.name col.name = none)
    (hlive : h.tableAt S tb.name = true) :
    ∃ row, CreatedAs S s.enumNames col row ∧ Hub.typeOf h' S tb.name col.name = some row := by
  obtain ⟨own, hown, hmem⟩ := runs_resource p hs hS (mem_tables.mp htb)
    (mem_diffTable.mpr (.inr ⟨hlive, col, hcol, .inl ⟨hnone, rfl⟩⟩))
  rw [toSql, enumNamesOf_eq p.valid hs] at hown
  obtain ⟨spec, hspec, rfl⟩ := Option.map_eq_some_iff.mp hown
  have hst := hmem _ List.mem_cons_self
  obtain ⟨pre, post, k, k', _, hpre, hx, _⟩ := run_split p.run hst
  obtain ⟨column, hcreate, _⟩ := typeOf_add hx (run_tableAt hpre hlive)
  obtain ⟨hname, hcreated⟩ := addedColumn_createdAs hspec hcreate
  refine ⟨column.type, hcreated, run_sets p.run hlive hst ?_ ?_⟩
  · intro k k' hx hk htype
    obtain ⟨column', hcreate', htypeOf⟩ := typeOf_add hx hk
    cases hcreate'.symm.trans hcreate
    rw [hname] at htypeOf
    rw [htypeOf]
    rcases htype with htype | htype
    · rw [htype, hnone]
      rfl
    · rw [htype]
      rfl
  · intro st hst hcolumn
    obtain ⟨_, ⟨_, spec', hspec', rfl⟩ | ⟨_, hrow, _⟩⟩ :=
      column_origin p hs hS htb hcol hst hcolumn
    · cases hspec'.symm.trans hspec
      rfl
    · cases hnone.symm.trans hrow

theorem column_created (hfree : h.tableAt S tb.name = false) (hmade : h'.tableAt S tb.name = true) :
    ∃ row, CreatedAs S s.enumNames col row ∧ Hub.typeOf h' S tb.name col.name = some row := by
  have hunique : ∀ col' ∈ tb.columns, col'.name = col.name → col' = col :=
    fun col' hcol' hname => column_eq p.valid hs htb hcol' hcol hname
  -- only its own `CREATE TABLE` makes the table while the schemas are provisioned
  have hmid : mid.tableAt S tb.name = true →
      ∃ row, CreatedAs S s.enumNames col row ∧ Hub.typeOf mid S tb.name col.name = some row := by
    refine run_preserves (P := fun k => k.tableAt S tb.name = true →
      ∃ row, CreatedAs S s.enumNames col row ∧ Hub.typeOf k S tb.name col.name = some row) p.first
      (fun hlive => by cases hfree.symm.trans hlive) ?_
    intro st hst k k' hk hx hlive
    rcases table?_step S tb.name hx with e | ⟨f, hwork, e⟩ | ⟨_, htarget, live, hmakes, e⟩
    · rw [Hub.tableAt, e] at hlive
      rw [typeOf_eq, e]
      exact hk hlive
    · rw [Hub.tableAt, e, Option.isSome_map] at hlive
      have hframe : columnOf st ≠ some (S, tb.name, col.name) := fun hcolumn => by
        cases hfree.symm.trans
          (column_origin p hs hS htb hcol (List.mem_append_left _ hst) hcolumn).1
      rw [typeOf_frame hx (taken_of_tableAt hlive) hframe]
      exact hk hlive
    · rcases p.origin_target hst htarget with ⟨q, rfl, _⟩ | ⟨spec, rfl, hspecName⟩
      · cases hmakes
      obtain ⟨s', hs', hS', tb', htb', hname, _, hspec⟩ := p.origin_table hst
      rw [hspecName] at hname
      cases p.same_schema hs hs' hS hS'
      cases table_eq p.valid hs htb' htb hname
      obtain ⟨live', hcreate, hlive'⟩ := hmakes
      cases hlive'
      rw [typeOf_eq, e]
      exact created_column hspec hcreate hcol hunique
  have htaken := table_taken p hs hS htb
  cases hlive : mid.tableAt S tb.name with
  | false => exact absurd hmade (run_held_table p.second htaken (by simp [hlive]))
  | true =>
    obtain ⟨row, hcreated, hrow⟩ := hmid hlive
    refine ⟨row, hcreated, ?_⟩
    rw [← hrow]
    refine run_typeOf p.second hlive fun st hst hcolumn => ?_
    have horigin := (column_origin p hs hS htb hcol (List.mem_append_right _ hst) hcolumn).1
    cases hfree.symm.trans horigin

theorem column_settled (hmade : h'.tableAt S tb.name = true) :
    (∃ row, Hub.typeOf h' S tb.name col.name = some row ∧ Unchanged row col) ↔
      match Hub.typeOf h S tb.name col.name with
      | none => CreateSettles s.enumNames col
      | some row => Unchanged row col ∨ AlterSettles s.enumNames col := by
  have hvalid : enumRef col = none → upperCase col.type ≠ "ENUM" := by
    intro hnone henum
    have hplaceholder : isEnumPlaceholder col.type = true := by simpa [isEnumPlaceholder] using henum
    obtain ⟨ref, href, _, hne⟩ := column_ref p.valid hs htb hcol hplaceholder
    rw [enumRef, if_pos hplaceholder, href] at hnone
    simp [Option.filter, hne] at hnone
  have hiff {row : CatalogType} {P : Prop} (htype : Hub.typeOf h' S tb.name col.name = some row)
      (hP : Unchanged row col ↔ P) :
      (∃ row, Hub.typeOf h' S tb.name col.name = some row ∧ Unchanged row col) ↔ P := by
    rw [htype]
    simpa using hP
  cases hlive : h.tableAt S tb.name with
  | false =>
    have hnone : Hub.typeOf h S tb.name col.name = none := by
      rw [Hub.tableAt, Option.isSome_eq_false_iff, Option.isNone_iff_eq_none] at hlive
      rw [typeOf_eq, hlive]
      rfl
    obtain ⟨row, ⟨type, htype, hrow, hidentity⟩, hfinal⟩ :=
      column_created p hs hS htb hcol hlive hmade
    rw [hnone]
    exact hiff hfinal (created_unchanged htype hrow hidentity hvalid)
  | true =>
    cases hold : Hub.typeOf h S tb.name col.name with
    | none =>
      obtain ⟨row, ⟨type, htype, hrow, hidentity⟩, hfinal⟩ :=
        column_added p hs hS htb hcol hold hlive
      exact hiff hfinal (created_unchanged htype hrow hidentity hvalid)
    | some row =>
      by_cases hunchanged : Unchanged row col
      · exact hiff (column_kept p hs hS htb hcol hold hunchanged hlive)
          (iff_of_true hunchanged (.inl hunchanged))
      · obtain ⟨type, row', htype, hrow, hfinal⟩ :=
          column_altered p hs hS htb hcol hold hunchanged hlive
        refine hiff hfinal ((altered_unchanged htype hrow hvalid).trans ?_)
        exact (or_iff_right hunchanged).symm

end Columns

omit hs hS

def NothingLeft (k : Hub) (t : String) (m : MetadataManifest) : Prop :=
  ∀ s ∈ m.schemas, ∀ S, physicalName t s.name = some S → ∀ c ∈ schemaChanges k S s,
    Change.provisions c = false

omit p in
theorem nothingLeft_kind {k : Hub} (hnothing : NothingLeft k t m) {s : SchemaDefinition} {S : String}
    (hs : s ∈ m.schemas) (hS : physicalName t s.name = some S) {c : Change}
    (hc : c ∈ schemaChanges k S s) : ∃ name value, c = .addEnumValue s.name name value := by
  have hprovisions := hnothing s hs S hS c hc
  rcases mem_schemaChanges.mp hc with ⟨_, rfl⟩ | ⟨r, _, hr⟩ | ⟨T, _, _, rfl⟩
  · cases hprovisions
  · cases processResourceDiff_plans hr with
    | addEnumValue => exact ⟨_, _, rfl⟩
    | _ => cases hprovisions
  · cases hprovisions

theorem nothingLeft_planned (hnothing : NothingLeft h' t m) :
    ∃ plan, compare h' t m = some plan ∧ ∀ c ∈ plan, Change.provisions c = false := by
  have hsome : ∃ perSchema, m.schemas.mapM (compareSchema h' t) = some perSchema := by
    refine mapM_some fun s hs => ?_
    obtain ⟨S, hS⟩ := p.physical s hs
    exact ⟨_, by rw [compareSchema, hS]; rfl⟩
  obtain ⟨perSchema, hperSchema⟩ := hsome
  have hplan : compare h' t m = some (perSchema.flatten ++ relationshipChanges m) := by
    unfold ManifestPlans.compare
    rw [hperSchema]
    rfl
  refine ⟨_, hplan, fun c hc => ?_⟩
  rcases (mem_compare hplan).mp hc with ⟨s, hs, S, hS, hc⟩ | hc
  · exact hnothing s hs S hS c hc
  · obtain ⟨r, _, rfl⟩ := List.mem_map.mp hc
    rfl

theorem nothingLeft_accepted (hnothing : NothingLeft h' t m) :
    (applyStatements md5 h' t m false).isSome = true := by
  obtain ⟨plan, hplan, hprovisions⟩ := nothingLeft_planned p hnothing
  have hrisk : plan.any Change.highRisk = false := by
    rw [List.any_eq_false]
    intro c hc hhigh
    have hnot := hprovisions c hc
    cases c with
    | quarantineTable => exact Bool.noConfusion hnot
    | _ => cases hhigh
  have hcompiled : ∃ own, (plan.filter (runsOnHub m)).mapM (compileChange md5 t m) = some own := by
    refine mapM_some fun c hc => ?_
    obtain ⟨hc, hruns⟩ := List.mem_filter.mp hc
    rcases (mem_compare hplan).mp hc with ⟨s, hs, S, hS, hc⟩ | hc
    · obtain ⟨name, value, rfl⟩ := nothingLeft_kind hnothing hs hS hc
      exact ⟨_, by rw [compileChange, Change.schema, hS]; rfl⟩
    · obtain ⟨own, hown, _⟩ := compileChange_some p.related hc hruns
      exact ⟨own, hown⟩
  obtain ⟨own, hown⟩ := hcompiled
  rw [applyStatements, if_pos p.valid, hplan, Option.bind_some, hrisk, hubStatements, forcedSchemas]
  simp [hown]

theorem relationship_again {st : Statement} (hst : st ∈ ofRelationships) {k k' : Hub}
    (hk : k.relations = h'.relations ∧ k.constraints = h'.constraints)
    (hx : exec pg k st = some k') : k'.relations = k.relations ∧ k'.constraints = k.constraints := by
  obtain ⟨pre, post, m₁, m₂, _, _, hfirst, hpost⟩ := run_split p.second hst
  rcases p.relationship_kind hst with ⟨S, bridge, fromColumn, toColumn, rfl⟩ | ⟨name, S, T, key, rfl⟩ |
    ⟨text, rfl⟩
  · have htaken : k.taken S bridge = true := by
      rw [taken_congr hk.1]
      exact run_taken hpost (taken_of_target hfirst rfl)
    have hx := exec_ok hx
    rw [effect, if_pos htaken, Option.some.injEq] at hx
    rw [hx]
    exact ⟨rfl, rfl⟩
  · have hname : ∃ c ∈ h'.constraints, c.name = name :=
      run_preserves (P := fun k => ∃ c ∈ k.constraints, c.name = name) hpost (addForeignKey_name hfirst)
        fun _ _ _ _ hP hx => hP.imp fun c hc => ⟨constraint_mono hx hc.1, hc.2⟩
    rw [← hk.2] at hname
    have hx := exec_ok hx
    rw [effect, if_pos (by simpa using hname), Option.some.injEq] at hx
    rw [hx]
    exact ⟨rfl, rfl⟩
  · cases exec_ok hx
    exact ⟨rfl, rfl⟩

theorem nothingLeft_unchanged (hnothing : NothingLeft h' t m) {h'' : Hub}
    (hagain : apply md5 pg h' t m false = some h'') :
    h''.relations = h'.relations ∧ h''.constraints = h'.constraints := by
  obtain ⟨ofSchemas', ofRelationships', mid', p'⟩ := phasedRun hagain
  cases p'.related.symm.trans p.related
  refine run_preserves (P := fun k => k.relations = h'.relations ∧ k.constraints = h'.constraints)
    p'.run ⟨rfl, rfl⟩ fun st hst k k' hk hx => ?_
  have hkeeps : k'.relations = k.relations ∧ k'.constraints = k.constraints := by
    rcases List.mem_append.mp hst with hst | hst
    · obtain ⟨s, S, c, own, hplanned, hown, hmem⟩ := p'.planned st hst
      rcases hplanned.planned with rfl | hc
      · cases hown
        cases List.mem_singleton.mp hmem
        cases exec_ok hx
        split <;> exact ⟨rfl, rfl⟩
      · obtain ⟨name, value, rfl⟩ :=
          nothingLeft_kind hnothing hplanned.declared hplanned.physical hc
        cases hown
        cases List.mem_singleton.mp hmem
        cases exec_ok hx
        exact ⟨rfl, rfl⟩
    · exact relationship_again p hst hk hx
  exact ⟨hkeeps.1.trans hk.1, hkeeps.2.trans hk.2⟩

theorem converged_iff_nothingLeft : Converged md5 pg h' t m ↔ NothingLeft h' t m := by
  constructor
  · rintro ⟨⟨plan, hplan, hprovisions⟩, _, _⟩ s hs S hS c hc
    exact hprovisions c ((mem_compare hplan).mpr (.inl ⟨s, hs, S, hS, hc⟩))
  · intro hnothing
    exact ⟨nothingLeft_planned p hnothing, nothingLeft_accepted p hnothing,
      fun _ => nothingLeft_unchanged p hnothing⟩

omit p in
theorem table_settled {k : Hub} {S n : String} {tb : TableDefinition} :
    (∀ c ∈ diffTable k S n tb, Change.provisions c = false) ↔ k.tableAt S tb.name = true ∧
      ∀ col ∈ tb.columns, ∃ row, Hub.typeOf k S tb.name col.name = some row ∧ Unchanged row col := by
  constructor
  · intro hsettled
    have hlive : k.tableAt S tb.name = true := by
      by_contra hfree
      cases hsettled _ (mem_diffTable.mpr (.inl ⟨by simpa using hfree, rfl⟩))
    refine ⟨hlive, fun col hcol => ?_⟩
    cases htype : Hub.typeOf k S tb.name col.name with
    | none => cases hsettled _ (mem_diffTable.mpr (.inr ⟨hlive, col, hcol, .inl ⟨htype, rfl⟩⟩))
    | some row =>
      refine ⟨row, rfl, ?_⟩
      by_contra hchanged
      cases hsettled _
        (mem_diffTable.mpr (.inr ⟨hlive, col, hcol, .inr ⟨row, htype, hchanged, rfl⟩⟩))
  · rintro ⟨hlive, hcolumns⟩ c hc
    rcases mem_diffTable.mp hc with ⟨hfree, _⟩ | ⟨_, col, hcol, hc⟩
    · cases hfree.symm.trans hlive
    · obtain ⟨row, hrow, hunchanged⟩ := hcolumns col hcol
      rcases hc with ⟨hnone, _⟩ | ⟨row', hrow', hchanged, _⟩
      · cases hnone.symm.trans hrow
      · cases hrow'.symm.trans hrow
        exact absurd hunchanged hchanged

theorem declared_tables (hconverges : Converges md5 pg h t m force) {s : SchemaDefinition}
    {S T : String} (hs : s ∈ m.schemas) (hS : physicalName t s.name = some S)
    (hT : h'.tableAt S T = true) : T ∈ s.tables.map (·.name) ∨ startsWith T "__deleted" = true := by
  rcases run_new_table p.run hT with hold | ⟨pre, st, post, k, hss, hpre, hfree, htarget, live, hmakes⟩
  · exact hconverges.undeclared s hs S hS T (mem_liveTables.mpr hold)
  have hst : st ∈ ofSchemas ++ ofRelationships :=
    hss ▸ List.mem_append_right pre List.mem_cons_self
  rcases List.mem_append.mp hst with hst | hst
  · rcases p.origin_target hst htarget with ⟨q, rfl, _⟩ | ⟨spec, rfl, rfl⟩
    · cases hmakes
    · obtain ⟨s', hs', hS', tb, htb, hname, _⟩ := p.origin_table hst
      cases p.same_schema hs hs' hS hS'
      exact .inl (List.mem_map.mpr ⟨tb, htb, hname⟩)
  · have hun := hconverges.unhindered _ p.statements pre st post k hss hpre
    rcases p.relationship_kind hst with ⟨_, _, _, _, rfl⟩ | ⟨_, _, _, _, rfl⟩ | ⟨_, rfl⟩
    · cases htarget
      exact hun.elim (fun htaken => by cases hfree.symm.trans htaken) .inr
    all_goals cases htarget

theorem nothingLeft_of_converges (hconverges : Converges md5 pg h t m force) : NothingLeft h' t m := by
  have hun := hconverges.unhindered _ p.statements
  intro s hs S hS c hc
  have hresources := hconverges.resources s hs S hS
  rcases mem_schemaChanges.mp hc with ⟨hfree, _⟩ | ⟨r, hr, hc⟩ | ⟨T, hT, ⟨hundeclared, hkept⟩, _⟩
  · exact absurd (schema_created p hs hS) hfree
  · have hsettles := hresources r hr
    cases r with
    | enum e =>
      cases processResourceDiff_plans hc with
      | createEnum hfree => cases hfree.symm.trans (enum_created p hs hS hr)
      | addEnumValue => rfl
    | sequence q =>
      obtain ⟨hfree, _⟩ := mem_diffSequence.mp hc
      cases hfree.symm.trans (sequence_made p hs hS hr hun hsettles)
    | table tb =>
      have htb := mem_tables.mpr hr
      have hmade := table_made p hs hS htb hun
      refine table_settled.mpr ⟨hmade, fun col hcol => ?_⟩ c hc
      exact (column_settled p hs hS htb hcol hmade).mpr (hsettles col hcol)
    | view v =>
      obtain ⟨hfree, _⟩ := mem_diffView.mp hc
      cases hfree.symm.trans ((view_created p hs hS hr).mpr hsettles)
    | function f =>
      obtain ⟨hfree, _⟩ := mem_diffFunction.mp hc
      cases hfree.symm.trans (function_created p hs hS hr)
  · rcases declared_tables p hconverges hs hS (mem_liveTables.mp hT) with hdeclared | hdeleted
    · exact absurd hdeclared hundeclared
    · cases hkept.symm.trans hdeleted

omit p in
theorem settled_table (hnothing : NothingLeft h' t m) {s : SchemaDefinition} {S : String}
    {tb : TableDefinition} (hs : s ∈ m.schemas) (hS : physicalName t s.name = some S)
    (htb : tb ∈ s.tables) : h'.tableAt S tb.name = true :=
  (table_settled.mp fun c hc => hnothing s hs S hS c
    (mem_schemaChanges.mpr (.inr (.inl ⟨_, mem_tables.mp htb, hc⟩)))).1

theorem settles_of_nothingLeft (hnothing : NothingLeft h' t m) {s : SchemaDefinition} {S : String}
    (hs : s ∈ m.schemas) (hS : physicalName t s.name = some S) {r : ResourceDefinition}
    (hr : r ∈ s.resources) : Settles h S s.enumNames r := by
  have hsettled (c : Change) (hc : c ∈ processResourceDiff h' S s.name r) :
      Change.provisions c = false :=
    hnothing s hs S hS c (mem_schemaChanges.mpr (.inr (.inl ⟨r, hr, hc⟩)))
  cases r with
  | enum e | function f => trivial
  | sequence q =>
    refine sequence_native p hs hS hr ?_
    by_contra hfree
    cases hsettled _ (mem_diffSequence.mpr ⟨by simpa using hfree, rfl⟩)
  | view v =>
    refine (view_created p hs hS hr).mp ?_
    by_contra hfree
    cases hsettled _ (mem_diffView.mpr ⟨by simpa using hfree, rfl⟩)
  | table tb =>
    obtain ⟨hmade, hcolumns⟩ := table_settled.mp hsettled
    exact fun col hcol =>
      (column_settled p hs hS (mem_tables.mpr hr) hcol hmade).mp (hcolumns col hcol)

omit p in
theorem undeclared_of_nothingLeft (hnothing : NothingLeft h' t m) {s : SchemaDefinition}
    {S T : String} (hs : s ∈ m.schemas) (hS : physicalName t s.name = some S)
    (hT : h'.tableAt S T = true) : T ∈ s.tables.map (·.name) ∨ startsWith T "__deleted" = true := by
  by_contra hundeclared
  rw [not_or, Bool.not_eq_true] at hundeclared
  cases hnothing s hs S hS _
    (mem_schemaChanges.mpr (.inr (.inr ⟨T, mem_liveTables.mpr hT, hundeclared, rfl⟩)))

theorem bridge_after {pre post : List Statement} {S bridge : String} {fromColumn toColumn : BridgeColumn}
    {k : Hub}
    (hss : ofSchemas ++ ofRelationships = pre ++ .createBridge S bridge fromColumn toColumn :: post)
    (hpre : run (exec pg) h pre = some k) : .createBridge S bridge fromColumn toColumn ∈ ofRelationships ∧
      ∃ ss, run (exec pg) mid ss = some k := by
  have hnot : .createBridge S bridge fromColumn toColumn ∉ ofSchemas := fun hst => by
    rcases p.origin_target hst rfl with ⟨_, hst, _⟩ | ⟨_, hst, _⟩ <;> cases hst
  rcases List.append_eq_append_iff.mp hss with ⟨rest, rfl, hrest⟩ | ⟨rest, rfl, hrest⟩
  · rw [run_append, p.first] at hpre
    exact ⟨hrest ▸ List.mem_append_right _ List.mem_cons_self, rest, hpre⟩
  · cases rest with
    | nil =>
      have hfirst := p.first
      rw [List.append_nil, hpre] at hfirst
      rw [List.nil_append] at hrest
      exact ⟨hrest ▸ List.mem_cons_self, [], hfirst.symm⟩
    | cons st rest =>
      cases hrest
      exact absurd (List.mem_append_right _ List.mem_cons_self) hnot

theorem unhindered_of_nothingLeft (hnothing : NothingLeft h' t m) :
    Throughout (exec pg) Unhindered h (ofSchemas ++ ofRelationships) := by
  intro pre st post k hss hpre
  have hst : st ∈ ofSchemas ++ ofRelationships :=
    hss ▸ List.mem_append_right pre List.mem_cons_self
  have hrest : run (exec pg) k (st :: post) = some h' := by
    have hrun := p.run
    rwa [hss, run_append, hpre] at hrun
  cases st with
  | createTable S spec =>
    intro htaken
    by_contra hfree
    have hst := (List.mem_append.mp hst).resolve_right fun hst => by
      rcases p.relationship_kind hst with ⟨_, _, _, _, hst⟩ | ⟨_, _, _, _, hst⟩ | ⟨_, hst⟩ <;> cases hst
    obtain ⟨s, hs, hS, tb, htb, hname, _⟩ := p.origin_table hst
    have hsettled := settled_table hnothing hs hS htb
    rw [hname] at hsettled
    exact run_held_table hrest htaken hfree hsettled
  | createSequence S q =>
    intro htaken
    by_contra hfree
    have hst := (List.mem_append.mp hst).resolve_right fun hst => by
      rcases p.relationship_kind hst with ⟨_, _, _, _, hst⟩ | ⟨_, _, _, _, hst⟩ | ⟨_, hst⟩ <;> cases hst
    obtain ⟨s, hs, hS, hr, _⟩ := p.origin_sequence hst
    refine run_held_sequence hrest htaken hfree ?_
    by_contra hnot
    cases hnothing s hs S hS _ (mem_schemaChanges.mpr
      (.inr (.inl ⟨_, hr, mem_diffSequence.mpr ⟨by simpa using hnot, rfl⟩⟩)))
  | createBridge S bridge fromColumn toColumn =>
    obtain ⟨hst, ss, hmid⟩ := bridge_after p hss hpre
    cases htaken : k.taken S bridge with
    | true => exact .inl htaken
    | false =>
      right
      obtain ⟨k', hx, hpost⟩ := Option.bind_eq_some_iff.mp hrest
      have hmade := run_tableAt hpost (tableAt_made hx rfl nofun htaken)
      obtain ⟨s, S', hhead, hS, r, _, own, hown, hmem⟩ := p.relationship hst
      have hs := List.mem_of_head? hhead
      rcases relationshipStatements_kind hown hmem with ⟨_, _, _, hst⟩ | ⟨_, _, _, hst⟩ | ⟨_, hst⟩
      · cases hst
        refine (undeclared_of_nothingLeft hnothing hs hS hmade).resolve_left fun hdeclared => ?_
        obtain ⟨tb, htb, rfl⟩ := List.mem_map.mp hdeclared
        cases htaken.symm.trans (run_taken hmid (table_taken p hs hS htb))
      all_goals cases hst
  | _ => trivial

theorem nothingLeft_iff : NothingLeft h' t m ↔ Converges md5 pg h t m force := by
  constructor
  · intro hnothing
    refine ⟨fun s hs S hS T hT => ?_, fun s hs S hS r hr => ?_, fun ss hss => ?_⟩
    · exact undeclared_of_nothingLeft hnothing hs hS (run_tableAt p.run (mem_liveTables.mp hT))
    · exact settles_of_nothingLeft p hnothing hs hS hr
    · cases hss.symm.trans p.statements
      exact unhindered_of_nothingLeft p hnothing
  · exact nothingLeft_of_converges p

end Runs

/-- After a successful apply the same manifest plans nothing more exactly when the condition on the
hub before it holds. -/
theorem converged_iff {h h' : Hub} {t : String} {m : MetadataManifest} {force : Bool}
    (a : Applied md5 pg h t m force h') :
    Converged md5 pg h' t m ↔ Converges md5 pg h t m force := by
  obtain ⟨ofSchemas, ofRelationships, mid, p⟩ := phasedRun a.applied
  exact (converged_iff_nothingLeft p).trans (nothingLeft_iff p)

def ordersTable (type : String) : TableDefinition :=
  ⟨"orders", [plainColumn "total" type], none, [], none, false, [], [], [], [], []⟩

def ordersManifest (type : String) : MetadataManifest :=
  ⟨none, [], [⟨"app", none, [.table (ordersTable type)]⟩], []⟩

def ordersHub (row : CatalogType) : Hub :=
  ⟨["tenant_acme_app"], [⟨"tenant_acme_app", "orders",
    .table ⟨[⟨"total", row, none, none, false, false⟩], [], false, [], []⟩⟩], [], [], []⟩

theorem ordersManifest_hub (type : String) : targetsHub (ordersManifest type) := by
  intro s hs
  cases List.mem_singleton.mp hs
  exact (by decide : onHub none = true)

theorem numeric_settles : CreateSettles [] (plainColumn "total" "NUMERIC") := by
  have href : enumRef (plainColumn "total" "NUMERIC") = none := by decide +kernel
  have hupper : upperCase "NUMERIC" = "NUMERIC" := by decide +kernel
  change PlainSettles [] ["STRING"] (plainColumn "total" "NUMERIC")
  simp only [PlainSettles, href]
  rw [if_neg List.not_mem_nil]
  change upperCase "NUMERIC" ∈ settledNames ∧ (upperCase "NUMERIC" = "VARCHAR" → _)
  rw [hupper]
  exact ⟨by decide, fun hname => by cases (by decide : "NUMERIC" ≠ "VARCHAR") hname⟩

theorem numeric_converges :
    Converged id lenient (ordersHub ⟨"numeric", "numeric", none⟩) "acme" (ordersManifest "NUMERIC") := by
  have happly : apply id lenient emptyHub "acme" (ordersManifest "NUMERIC") false =
      some (ordersHub ⟨"numeric", "numeric", none⟩) := by
    decide +kernel
  have hname : physicalName "acme" "app" = some "tenant_acme_app" := by decide +kernel
  refine (converged_iff id lenient ⟨ordersManifest_hub _, happly⟩).mpr ⟨?_, ?_, ?_⟩
  · intro s _ S _ T hT
    cases hT
  · intro s hs S _ r hr
    cases List.mem_singleton.mp hs
    cases List.mem_singleton.mp hr
    intro col hcol
    cases List.mem_singleton.mp hcol
    exact numeric_settles
  · intro ss hss
    have hstatements : applyStatements id emptyHub "acme" (ordersManifest "NUMERIC") false =
        some [.createSchema "tenant_acme_app", .createTable "tenant_acme_app" ⟨"orders",
          [⟨"total", .named "NUMERIC", none, none, false, false, false, false, none⟩], none, [], none⟩] := by
      decide +kernel
    cases hss.symm.trans hstatements
    refine throughout_cons trivial fun k hk => throughout_cons ?_ fun _ _ => throughout_nil
    cases hk
    intro htaken
    cases htaken

/-- A `FLOAT` column is created as `DOUBLE PRECISION`, which the differ then takes for another type. -/
theorem float_diverges : ¬ ∀ (h h' : Hub) (t : String) (m : MetadataManifest) (force : Bool),
    Applied id lenient h t m force h' → Converged id lenient h' t m := by
  intro hclaim
  have happly : apply id lenient emptyHub "acme" (ordersManifest "FLOAT") false =
      some (ordersHub ⟨"double precision", "float8", none⟩) := by
    decide +kernel
  obtain ⟨⟨plan, hplan, hprovisions⟩, _⟩ :=
    hclaim _ _ "acme" _ false ⟨ordersManifest_hub "FLOAT", happly⟩
  have hcompare : ManifestPlans.compare (ordersHub ⟨"double precision", "float8", none⟩) "acme"
      (ordersManifest "FLOAT") = some [.alterColumnType "app" "orders" (plainColumn "total" "FLOAT")] := by
    decide +kernel
  cases hplan.symm.trans hcompare
  exact Bool.noConfusion (hprovisions _ List.mem_cons_self)

end DataFabric.Convergence
