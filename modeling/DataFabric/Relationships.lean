import DataFabric.PlannedStatements

set_option autoImplicit false

/-!
# Relationships of several workspaces

The keys and bridge tables that the applies of the workspaces on one hub leave, one apply after
another.
-/
namespace DataFabric.Relationships
open ColumnTypes Manifests HubCatalog HubFrames ManifestPlans ColumnRoundTrips PlannedStatements
  TransitionRuns

/-- An apply by a workspace; `earlier` is what it runs on the hub before its relationships. -/
structure TenantApply where
  tenant : String
  manifest : MetadataManifest
  earlier : List Statement

variable (md5 : String → String) (pg : Postgres)

def TenantApply.relationships (a : TenantApply) : Option (List Statement) :=
  hubStatements md5 a.tenant a.manifest (relationshipChanges a.manifest)

def applies (h : Hub) (a : TenantApply) : Option Hub :=
  if validateManifestDocument a.manifest = [] then
    (TenantApply.relationships md5 a).bind fun ss => run (exec pg) h (a.earlier ++ ss)
  else none

theorem apply_applies {h h' : Hub} {t : String} {m : MetadataManifest} {force : Bool}
    (happly : apply md5 pg h t m force = some h') :
    ∃ earlier, applies md5 pg h ⟨t, m, earlier⟩ = some h' := by
  obtain ⟨ss, hss, hrun⟩ := Option.bind_eq_some_iff.mp happly
  obtain ⟨ofSchemas, ofRelationships, rfl, p⟩ := applyStatements_phases hss
  refine ⟨ofSchemas, ?_⟩
  rw [applies, if_pos p.valid, TenantApply.relationships, p.related]
  exact hrun

def Referenced (h : Hub) (S T : String) (key : ForeignKey) : Prop :=
  ∃ k ∈ h.constraints, k.schema = S ∧ k.table = T ∧ k.foreignKey = some key

/-- A schema of the workspace with the physical name `S` declares the table. -/
def Declares (t : String) (m : MetadataManifest) (S T : String) : Prop :=
  ∃ s ∈ m.schemas, physicalName t s.name = some S ∧ T ∈ s.tables.map (·.name)

/-- It declares the column, with a type that is `row` in the catalog. -/
def DeclaresColumn (t : String) (m : MetadataManifest) (S : String) (e : RelationshipSide)
    (row : CatalogType) : Prop :=
  ∃ s ∈ m.schemas, physicalName t s.name = some S ∧ ∃ tb ∈ s.tables, tb.name = e.resource ∧
    ∃ col ∈ tb.columns, col.name = e.field ∧ CreatedAs S s.enumNames col row

def Keyed (h : Hub) (t : String) (m : MetadataManifest) (r : RelationshipDefinition) : Prop :=
  ∃ S S', Declares t m S r.to_.resource ∧ Declares t m S' r.from_.resource ∧
    Referenced h S r.to_.resource ⟨r.to_.field, S', r.from_.resource, r.from_.field⟩

def bridgeField (e : RelationshipSide) : String := e.resource ++ "_" ++ e.field

/-- The bridge table has the two columns with the declared types, and references the two tables and
nothing else. -/
def Bridged (h : Hub) (t : String) (m : MetadataManifest) (r : RelationshipDefinition)
    (bridge : String) : Prop :=
  ∃ s ∈ m.schemas, ∃ S, physicalName t s.name = some S ∧ ∃ live, h.table? S bridge = some live ∧
    ∃ S₁ S₂ row₁ row₂, DeclaresColumn t m S₁ r.from_ row₁ ∧ DeclaresColumn t m S₂ r.to_ row₂ ∧
      live.columns.map (fun c => (c.name, c.type)) =
        [(bridgeField r.from_, row₁), (bridgeField r.to_, row₂)] ∧
      ∀ key, Referenced h S bridge key ↔
        key = ⟨bridgeField r.from_, S₁, r.from_.resource, r.from_.field⟩ ∨
        key = ⟨bridgeField r.to_, S₂, r.to_.resource, r.to_.field⟩

/-- The local relationships of the workspace are there, between the tables it declares. -/
structure Provisioned (h : Hub) (t : String) (m : MetadataManifest) : Prop where
  keys : ∀ r ∈ m.relationships, isLocal r = true → r.cardinality ≠ .many_many → Keyed h t m r
  bridges : ∀ r ∈ m.relationships, isLocal r = true → r.cardinality = .many_many →
    ∀ bridge, r.bridge = some bridge → Bridged h t m r bridge

/-- The column's declared type is the one that a bridge takes from its name alone. -/
def BridgeTyped (S : String) (enumNames : List String) (col : ColumnDefinition) : Prop :=
  ∃ type row, normalizeType col.type = some type ∧ catalogRow (.named type) = some row ∧
    CreatedAs S enumNames col row

/-- No constraint on the hub has the name of a key, unless the key is there; nothing has the name of a
bridge, and no other relationship gives it a key. -/
def Unclaimed (m : MetadataManifest) (h : Hub) : Statement → Prop
  | .createBridge S bridge fromColumn _ => fromColumn.references.isSome = true →
      h.taken S bridge = false ∧ ∀ k ∈ h.constraints, ¬ (k.schema = S ∧ k.table = bridge)
  | .addForeignKey name S T key =>
      ((∃ r ∈ m.relationships, isLocal r = true ∧ r.cardinality ≠ .many_many ∧ name = fkName md5 r) →
        (∀ k ∈ h.constraints, k.name ≠ name) ∨ Referenced h S T key) ∧
      ∀ r ∈ m.relationships, isLocal r = true → r.cardinality = .many_many → r.bridge ≠ some T
  | _ => True

structure Provides (h : Hub) (a : TenantApply) : Prop where
  hub : ∀ r ∈ a.manifest.relationships, isLocal r = true → onHub a.manifest.targetSource = true
  declared : ∀ s, a.manifest.schemas.head? = some s → ∀ r ∈ a.manifest.relationships,
    isLocal r = true → ∀ e ∈ [r.from_, r.to_], ∃ tb ∈ s.tables, tb.name = e.resource ∧
      (r.cardinality = .many_many → ∃ col ∈ tb.columns, col.name = e.field ∧
        ∀ S, physicalName a.tenant s.name = some S → BridgeTyped S s.enumNames col)
  unclaimed : ∀ ss mid, TenantApply.relationships md5 a = some ss →
    run (exec pg) h a.earlier = some mid → Throughout (exec pg) (Unclaimed md5 a.manifest) mid ss

section Step

variable {md5 pg} {h h' k k' : Hub} {a : TenantApply} {t S T bridge : String} {m : MetadataManifest}
  {s : SchemaDefinition} {r : RelationshipDefinition} {st : Statement} {key : ForeignKey}

theorem find_name {α : Type*} {name : α → String} {xs : List α} {x : α} (hx : x ∈ xs)
    (hunique : ∀ y ∈ xs, name y = name x → y = x) : xs.find? (name · = name x) = some x := by
  cases hfind : xs.find? (name · = name x) with
  | none => simpa using List.find?_eq_none.mp hfind x hx
  | some y =>
    have hname : name y = name x := by simpa using List.find?_some hfind
    rw [hunique y (List.mem_of_find?_eq_some hfind) hname]

theorem findColumnType_head (hvalid : validateManifestDocument m = []) (hhead : m.schemas.head? = some s)
    {tb : TableDefinition} (htb : tb ∈ s.tables) {col : ColumnDefinition} (hcol : col ∈ tb.columns) :
    m.findColumnType tb.name col.name = col.type := by
  have hs := List.mem_of_head? hhead
  have htable : s.tables.find? (·.name = tb.name) = some tb := find_name htb fun tb' htb' => table_eq hvalid hs htb' htb
  have hcolumn : tb.columns.find? (·.name = col.name) = some col := find_name hcol
    fun col' hcol' => column_eq hvalid hs htb hcol' hcol
  cases hschemas : m.schemas with
  | nil =>
    rw [hschemas] at hhead
    cases hhead
  | cons s' rest =>
    rw [hschemas] at hhead
    cases hhead
    rw [MetadataManifest.findColumnType, hschemas, List.findSome?_cons, htable, Option.bind_some,
      hcolumn]
    rfl

theorem Referenced.mono (hx : exec pg k st = some k') (hkey : Referenced k S T key) :
    Referenced k' S T key := by
  obtain ⟨c, hc, hat⟩ := hkey
  exact ⟨c, constraint_mono hx hc, hat⟩

theorem referenced_append {added : List Constraint} (e : k'.constraints = k.constraints ++ added) :
    Referenced k' S T key ↔ Referenced k S T key ∨
      ∃ c ∈ added, c.schema = S ∧ c.table = T ∧ c.foreignKey = some key := by
  unfold Referenced
  rw [e]
  simp only [List.mem_append, or_and_right, exists_or]

theorem addForeignKey_referenced {name : String} (hx : exec pg k (.addForeignKey name S T key) = some k')
    (hfree : (∀ c ∈ k.constraints, c.name ≠ name) ∨ Referenced k S T key) : Referenced k' S T key := by
  rcases hfree with hfree | hkey
  · rw [referenced_append (addForeignKey_adds hx hfree)]
    exact .inr ⟨_, List.mem_cons_self, rfl, rfl, rfl⟩
  · exact hkey.mono hx

/-- The statements of a relationship run in the first schema, after what comes before. -/
structure Runs (md5 : String → String) (pg : Postgres) (h : Hub) (a : TenantApply)
    (r : RelationshipDefinition) (s : SchemaDefinition) (S : String) (own ss : List Statement)
    (mid h' : Hub) : Prop where
  valid : validateManifestDocument a.manifest = []
  head : a.manifest.schemas.head? = some s
  physical : physicalName a.tenant s.name = some S
  compiled : relationshipStatements md5 S a.manifest r = some own
  mem : ∀ st ∈ own, st ∈ ss
  all : TenantApply.relationships md5 a = some ss
  before : run (exec pg) h a.earlier = some mid
  after : run (exec pg) mid ss = some h'

theorem applies_runs (hx : applies md5 pg h a = some h') (hr : r ∈ a.manifest.relationships)
    (hhub : onHub a.manifest.targetSource = true) : ∃ s S own ss mid, Runs md5 pg h a r s S own ss mid h' := by
  unfold applies at hx
  split at hx
  · rename_i hvalid
    obtain ⟨ss, hss, hrun⟩ := Option.bind_eq_some_iff.mp hx
    rw [run_append] at hrun
    obtain ⟨mid, hbefore, hafter⟩ := Option.bind_eq_some_iff.mp hrun
    obtain ⟨own, hown, hmem⟩ := compileChange_some hss (List.mem_map_of_mem hr) hhub
    obtain ⟨S, hS, hown⟩ := Option.bind_eq_some_iff.mp hown
    cases hhead : a.manifest.schemas.head? with
    | none =>
      rw [validateManifestDocument, List.head?_eq_none_iff.mp hhead] at hvalid
      cases hvalid
    | some s =>
      rw [Change.schema, hhead] at hS
      exact ⟨s, S, own, ss, mid, hvalid, hhead, hS, hown, hmem, hss, hbefore, hafter⟩
  · cases hx

variable {own ss : List Statement} {mid : Hub}

theorem relationship_kind (p : Runs md5 pg h a r s S own ss mid h') (hst : st ∈ ss) :
    (∃ bridge fromColumn toColumn, st = .createBridge S bridge fromColumn toColumn) ∨
      (∃ name T key, st = .addForeignKey name S T key) ∨ ∃ text, st = .remark text := by
  obtain ⟨c, hc, _, ofChange, hown, hmem⟩ := (mem_hubStatements p.all).mp hst
  obtain ⟨r', _, rfl⟩ := List.mem_map.mp hc
  obtain ⟨S', hS', hown⟩ := Option.bind_eq_some_iff.mp hown
  rw [Change.schema, p.head] at hS'
  cases p.physical.symm.trans hS'
  exact relationshipStatements_kind hown hmem

theorem Runs.declares (p : Runs md5 pg h a r s S own ss mid h') {tb : TableDefinition}
    (htb : tb ∈ s.tables) : Declares a.tenant a.manifest S tb.name :=
  ⟨s, List.mem_of_head? p.head, p.physical, List.mem_map_of_mem htb⟩

theorem keyed (p : Runs md5 pg h a r s S own ss mid h') (hc : Provides md5 pg h a)
    (hr : r ∈ a.manifest.relationships) (hlocal : isLocal r = true) (hcardinality : r.cardinality ≠ .many_many) :
    Keyed h' a.tenant a.manifest r := by
  have hown : own = [.addForeignKey (fkName md5 r) S r.to_.resource
      ⟨r.to_.field, S, r.from_.resource, r.from_.field⟩] := by
    have hcompiled := p.compiled
    unfold relationshipStatements at hcompiled
    split at hcompiled
    · exact absurd ‹_› hcardinality
    · exact absurd ‹_› hcardinality
    all_goals
      rw [if_pos hlocal] at hcompiled
      exact (Option.some.inj hcompiled).symm
  have hst := p.mem _ (hown ▸ List.mem_cons_self)
  obtain ⟨pre, post, k, k', hss, hpre, hx, hpost⟩ := run_split p.after hst
  have hfree := (hc.unclaimed ss mid p.all p.before pre _ post k hss hpre).1
    ⟨r, hr, hlocal, hcardinality, rfl⟩
  have hkey : Referenced h' S r.to_.resource ⟨r.to_.field, S, r.from_.resource, r.from_.field⟩ :=
    run_preserves (P := fun k => Referenced k S r.to_.resource _) hpost
      (addForeignKey_referenced hx hfree) fun _ _ _ _ hk hx => hk.mono hx
  have hdeclared := hc.declared s p.head r hr hlocal
  obtain ⟨fromTable, hfrom, hfromName, _⟩ := hdeclared r.from_ List.mem_cons_self
  obtain ⟨toTable, hto, htoName, _⟩ :=
    hdeclared r.to_ (List.mem_cons_of_mem _ List.mem_cons_self)
  exact ⟨S, S, htoName ▸ p.declares hto, hfromName ▸ p.declares hfrom, hkey⟩

theorem bridge_kept (hx : exec pg k st = some k') (hfree : Unclaimed md5 m k st)
    (hkind : (∃ bridge' fromColumn toColumn, st = .createBridge S bridge' fromColumn toColumn) ∨
      (∃ name T key, st = .addForeignKey name S T key) ∨ ∃ text, st = .remark text)
    (hr : r ∈ m.relationships) (hlocal : isLocal r = true) (hcardinality : r.cardinality = .many_many)
    (hbridge : r.bridge = some bridge) (htaken : k.taken S bridge = true) :
    k'.table? S bridge = k.table? S bridge ∧
      ∀ key, Referenced k' S bridge key ↔ Referenced k S bridge key := by
  refine ⟨?_, fun key => ?_⟩
  · rcases table?_step S bridge hx with e | ⟨f, hwork, _⟩ | ⟨hnot, _⟩
    · exact e
    · rcases hkind with ⟨_, _, _, rfl⟩ | ⟨_, _, _, rfl⟩ | ⟨_, rfl⟩ <;> cases hwork
    · cases htaken.symm.trans hnot
  · obtain ⟨added, e⟩ := constraints_step hx
    rw [referenced_append e, or_iff_left]
    rintro ⟨c, hc, _, htable, hkey⟩
    rcases hkind with ⟨bridge', fromColumn, toColumn, rfl⟩ | ⟨name, T, key', rfl⟩ | ⟨text, rfl⟩
    · cases hnew : k.taken S bridge' with
      | true =>
        have hok := exec_ok hx
        rw [effect, if_pos hnew, Option.some.injEq] at hok
        rw [← hok] at e
        rw [List.self_eq_append_right.mp e] at hc
        cases hc
      | false =>
        obtain ⟨_, _, names, _, _, _, e'⟩ := createBridge_makes hx hnew
        rw [List.append_cancel_left (e.symm.trans e'), List.mem_append, List.mem_append] at hc
        have hat : c.table = bridge' := by
          rcases hc with (hc | hc) | hc
          · obtain ⟨_, _, _, _, rfl⟩ := mem_bridge_constraints.mp hc
            rfl
          · obtain ⟨_, _, _, _, rfl⟩ := mem_bridge_constraints.mp hc
            rfl
          · exact (mem_unreferenced hc).2.1
        rw [← htable, hat] at htaken
        cases htaken.symm.trans hnew
    · cases exec_ok hx
      split at e
      · rw [List.self_eq_append_right.mp e] at hc
        cases hc
      · rw [Hub.addConstraints] at e
        rw [← List.append_cancel_left e, List.mem_singleton] at hc
        rw [hc] at htable
        exact hfree.2 r hr hlocal hcardinality (hbridge.trans (congrArg some htable.symm))
    · cases exec_ok hx
      rw [List.self_eq_append_right.mp e] at hc
      cases hc

theorem bridge_made (p : Runs md5 pg h a r s S own ss mid h') (hc : Provides md5 pg h a)
    (hr : r ∈ a.manifest.relationships) (hlocal : isLocal r = true)
    (hcardinality : r.cardinality = .many_many) (hbridge : r.bridge = some bridge) :
    Bridged h' a.tenant a.manifest r bridge := by
  have hdeclared := hc.declared s p.head r hr hlocal
  obtain ⟨fromTable, hfromTable, hfromName, hfromColumn⟩ := hdeclared r.from_ List.mem_cons_self
  obtain ⟨toTable, htoTable, htoName, htoColumn⟩ :=
    hdeclared r.to_ (List.mem_cons_of_mem _ List.mem_cons_self)
  obtain ⟨fromCol, hfromCol, hfromField, hfromTyped⟩ := hfromColumn hcardinality
  obtain ⟨toCol, htoCol, htoField, htoTyped⟩ := htoColumn hcardinality
  obtain ⟨fromType, fromRow, hfromType, hfromRow, hfromCreated⟩ := hfromTyped S p.physical
  obtain ⟨toType, toRow, htoType, htoRow, htoCreated⟩ := htoTyped S p.physical
  have hfind₁ := findColumnType_head p.valid p.head hfromTable hfromCol
  have hfind₂ := findColumnType_head p.valid p.head htoTable htoCol
  rw [hfromName, hfromField] at hfind₁
  rw [htoName, htoField] at hfind₂
  have hown : own = [.createBridge S bridge
      ⟨bridgeField r.from_, fromType, some (S, r.from_.resource, r.from_.field)⟩
      ⟨bridgeField r.to_, toType, some (S, r.to_.resource, r.to_.field)⟩] := by
    have hcompiled := p.compiled
    rw [relationshipStatements, hcardinality, hbridge] at hcompiled
    simp only [bridgeColumn, hfind₁, hfind₂, hfromType, htoType, hlocal] at hcompiled
    exact (Option.some.inj hcompiled).symm
  have hst := p.mem _ (hown ▸ List.mem_cons_self)
  obtain ⟨pre, post, k, k', hss, hpre, hx, hpost⟩ := run_split p.after hst
  have hthrough := hc.unclaimed ss mid p.all p.before
  obtain ⟨hfree, hnone⟩ := hthrough pre _ post k hss hpre rfl
  obtain ⟨fromLive, toLive, names, hfromLive, htoLive, htable, hconstraints⟩ :=
    createBridge_makes hx hfree
  have hs := List.mem_of_head? p.head
  rw [BridgeColumn.create, hfromRow] at hfromLive
  rw [BridgeColumn.create, htoRow] at htoLive
  cases hfromLive
  cases htoLive
  have hkeys (key : ForeignKey) : Referenced k' S bridge key ↔
      key = ⟨bridgeField r.from_, S, r.from_.resource, r.from_.field⟩ ∨
      key = ⟨bridgeField r.to_, S, r.to_.resource, r.to_.field⟩ := by
    rw [referenced_append hconstraints, or_iff_right fun ⟨c, hc, hat⟩ => hnone c hc ⟨hat.1, hat.2.1⟩]
    simp only [List.mem_append]
    constructor
    · rintro ⟨c, (hc | hc) | hc, _, _, hkey⟩
      · obtain ⟨_, _, _, href, rfl⟩ := mem_bridge_constraints.mp hc
        cases href
        exact .inl (Option.some.inj hkey).symm
      · obtain ⟨_, _, _, href, rfl⟩ := mem_bridge_constraints.mp hc
        cases href
        exact .inr (Option.some.inj hkey).symm
      · cases (mem_unreferenced hc).2.2.symm.trans hkey
    · rintro (rfl | rfl)
      · exact ⟨_, .inl (.inl (mem_bridge_constraints.mpr ⟨_, _, _, rfl, rfl⟩)), rfl, rfl, rfl⟩
      · exact ⟨_, .inl (.inr (mem_bridge_constraints.mpr ⟨_, _, _, rfl, rfl⟩)), rfl, rfl, rfl⟩
  -- the statements after it touch neither the table nor its keys
  have hkept : h'.taken S bridge = true ∧ h'.table? S bridge = k'.table? S bridge ∧
      ∀ key, Referenced h' S bridge key ↔ Referenced k' S bridge key := by
    refine run_preserves_under (Q := Unclaimed md5 a.manifest) (P := fun j => j.taken S bridge = true ∧
      j.table? S bridge = k'.table? S bridge ∧
      ∀ key, Referenced j S bridge key ↔ Referenced k' S bridge key) hpost
      ((hss ▸ hthrough).after hpre hx)
      ⟨taken_of_target hx rfl, rfl, fun _ => Iff.rfl⟩ ?_
    intro st hst j j' hj hfree hx
    have hkind := relationship_kind p (hss ▸ List.mem_append_right _ (List.mem_cons_of_mem _ hst))
    have hstep := bridge_kept hx hfree hkind hr hlocal hcardinality hbridge hj.1
    exact ⟨taken_mono hx hj.1, hstep.1.trans hj.2.1, fun key => (hstep.2 key).trans (hj.2.2 key)⟩
  refine ⟨s, hs, S, p.physical, _, hkept.2.1.trans htable, S, S, fromRow, toRow, ?_, ?_, rfl, ?_⟩
  · exact ⟨s, hs, p.physical, fromTable, hfromTable, hfromName, fromCol, hfromCol, hfromField,
      hfromCreated⟩
  · exact ⟨s, hs, p.physical, toTable, htoTable, htoName, toCol, htoCol, htoField, htoCreated⟩
  · exact fun key => (hkept.2.2 key).trans (hkeys key)

theorem applies_provisioned (hx : applies md5 pg h a = some h') (hc : Provides md5 pg h a) :
    Provisioned h' a.tenant a.manifest := by
  constructor
  · intro r hr hlocal hcardinality
    obtain ⟨s, S, own, ss, mid, p⟩ := applies_runs hx hr (hc.hub r hr hlocal)
    exact keyed p hc hr hlocal hcardinality
  · intro r hr hlocal hcardinality bridge hbridge
    obtain ⟨s, S, own, ss, mid, p⟩ := applies_runs hx hr (hc.hub r hr hlocal)
    exact bridge_made p hc hr hlocal hcardinality hbridge

theorem Keyed.mono (hx : applies md5 pg k a = some k') (hkey : Keyed k t m r) : Keyed k' t m r := by
  obtain ⟨S, S', hto, hfrom, hkey⟩ := hkey
  refine ⟨S, S', hto, hfrom, ?_⟩
  unfold applies at hx
  split at hx
  · obtain ⟨ss, _, hrun⟩ := Option.bind_eq_some_iff.mp hx
    exact run_preserves (P := fun k => Referenced k S r.to_.resource _) hrun hkey
      fun _ _ _ _ hk hx => hk.mono hx
  · cases hx

end Step

/-- In a run of applies that all meet the condition, every workspace has its relationships after its
applies, and its keys for good. -/
theorem provisioned_throughout {h₀ h : Hub} {as : List TenantApply}
    (hrun : run (applies md5 pg) h₀ as = some h)
    (hc : Throughout (applies md5 pg) (Provides md5 pg) h₀ as) :
    (∀ pre a post k k', as = pre ++ a :: post → run (applies md5 pg) h₀ pre = some k →
      applies md5 pg k a = some k' → Provisioned k' a.tenant a.manifest) ∧
    ∀ a ∈ as, ∀ r ∈ a.manifest.relationships, isLocal r = true → r.cardinality ≠ .many_many →
      Keyed h a.tenant a.manifest r := by
  have hafter (pre : List TenantApply) (a : TenantApply) (post : List TenantApply) (k k' : Hub)
      (has : as = pre ++ a :: post) (hpre : run (applies md5 pg) h₀ pre = some k)
      (hx : applies md5 pg k a = some k') : Provisioned k' a.tenant a.manifest :=
    applies_provisioned hx (hc pre a post k has hpre)
  refine ⟨hafter, fun a ha r hr hlocal hcardinality => ?_⟩
  obtain ⟨pre, post, k, k', has, hpre, hx, hpost⟩ := run_split hrun ha
  refine run_preserves (P := fun k => Keyed k a.tenant a.manifest r) hpost ?_
    fun _ _ _ _ hk hx => hk.mono hx
  exact (hafter pre a post k k' has hpre hx).keys r hr hlocal hcardinality

def shopTable (name : String) (column : ColumnDefinition) : TableDefinition :=
  ⟨name, [column], none, [], none, false, [], [], [], [], []⟩

def usersTable : TableDefinition := shopTable "users" { plainColumn "id" "UUID" with primaryKey := true }

def ordersTable : TableDefinition := shopTable "orders" (plainColumn "user_id" "UUID")

def ordersUser : RelationshipDefinition :=
  ⟨"orders_user", .one_many, none, ⟨none, "users", "id"⟩, ⟨none, "orders", "user_id"⟩⟩

def shopSchema : SchemaDefinition := ⟨"app", none, [.table usersTable, .table ordersTable]⟩

def shopManifest : MetadataManifest := ⟨none, [], [shopSchema], [ordersUser]⟩

def ordersKey : ForeignKey := ⟨"user_id", "tenant_acme_app", "users", "id"⟩

/-- PostgreSQL as far as the tables of a key are concerned: both have to be there. -/
def checking : Postgres where
  accepts h
    | .addForeignKey _ schema table key =>
      (h.table? schema table).isSome && (h.table? key.refSchema key.refTable).isSome
    | _ => true
  attendants _ _ := []
  constraintNames _ _ := []
  referenceName _ _ table column := table ++ "_" ++ column ++ "_fkey"

/-- A workspace that creates the shop's tables and then its relationship. -/
def workspace (tenant S relationship : String) : TenantApply where
  tenant := tenant
  manifest := ⟨none, [], [shopSchema], [{ ordersUser with name := relationship }]⟩
  earlier := .createSchema S :: [usersTable, ordersTable].flatMap fun t =>
    ((tableSpec S [] t).map (Statement.createTable S)).toList

def keyNames (h : Hub) : List String := h.constraints.map (·.name)

theorem workspace_provides {h : Hub} {tenant S relationship : String} (names : List String)
    (statements : TenantApply.relationships id (workspace tenant S relationship) =
      some [.addForeignKey ("fk_" ++ relationship) S "orders" ⟨"user_id", S, "users", "id"⟩])
    (before : ∀ mid, run (exec checking) h (workspace tenant S relationship).earlier = some mid → keyNames mid = names)
    (free : "fk_" ++ relationship ∉ names) : Provides id checking h (workspace tenant S relationship) := by
  refine ⟨fun _ _ _ => rfl, ?_, ?_⟩
  · intro s hs r hr _ e he
    cases hs
    cases List.mem_singleton.mp hr
    rcases List.mem_pair.mp he with rfl | rfl
    · exact ⟨usersTable, List.mem_cons_self, rfl, nofun⟩
    · exact ⟨ordersTable, List.mem_cons_of_mem _ List.mem_cons_self, rfl, nofun⟩
  · intro ss mid hss hmid
    cases hss.symm.trans statements
    refine throughout_cons ⟨fun _ => .inl fun k hk hname => ?_, ?_⟩ fun _ _ => throughout_nil
    · rw [← before mid hmid, ← hname] at free
      exact free (List.mem_map_of_mem hk)
    · intro r hr _ hcardinality
      cases List.mem_singleton.mp hr
      cases hcardinality

def acme : TenantApply := workspace "acme" "tenant_acme_app" "orders_user"

def beta : TenantApply := workspace "beta" "tenant_beta_app" "orders_account"

/-- A second workspace, on a hub where the first has its tables and its key, gets a key under another name, and the
first one keeps its own. -/
theorem first_workspace_keyed : ∃ first h, applies id checking emptyHub acme = some first ∧
    applies id checking first beta = some h ∧ Provisioned first "acme" acme.manifest ∧
    Provisioned h "beta" beta.manifest ∧
    Keyed h "acme" acme.manifest { ordersUser with name := "orders_user" } := by
  have applied : ((applies id checking emptyHub acme).bind fun first => applies id checking first beta).isSome = true := by
    decide +kernel
  have keys : (applies id checking emptyHub acme).all (fun first =>
      (run (exec checking) first beta.earlier).all fun mid => keyNames mid = ["fk_orders_user"]) = true := by
    decide +kernel
  have none : (run (exec checking) emptyHub acme.earlier).all (fun mid => keyNames mid = []) = true := by
    decide +kernel
  obtain ⟨h, hboth⟩ := Option.isSome_iff_exists.mp applied
  obtain ⟨first, hfirst, hsecond⟩ := Option.bind_eq_some_iff.mp hboth
  have hrun : run (applies id checking) emptyHub [acme, beta] = some h := by
    rw [run_cons, hfirst, Option.bind_some, run_cons, hsecond]
    rfl
  have meets : Throughout (applies id checking) (Provides id checking) emptyHub [acme, beta] := by
    refine throughout_cons (workspace_provides [] (by decide +kernel) ?_ (by decide)) fun s' hs' => ?_
    · intro mid hmid
      change run (exec checking) emptyHub acme.earlier = some mid at hmid
      rw [hmid] at none
      exact of_decide_eq_true none
    · refine throughout_cons (workspace_provides ["fk_orders_user"] (by decide +kernel) ?_ (by decide))
        fun _ _ => throughout_nil
      intro mid hmid
      change run (exec checking) s' beta.earlier = some mid at hmid
      rw [hs', Option.all_some, hmid] at keys
      exact of_decide_eq_true keys
  obtain ⟨provisioned, kept⟩ := provisioned_throughout id checking hrun meets
  exact ⟨first, h, hfirst, hsecond, provisioned [] acme [beta] emptyHub first rfl rfl hfirst,
    provisioned [acme] beta [] first h rfl (by rw [run_cons, hfirst]; rfl) hsecond,
    kept acme List.mem_cons_self _ List.mem_cons_self rfl nofun⟩

/-- The second workspace to apply a manifest goes without its keys: the name of the first one's is
found in the catalog. -/
theorem second_workspace_unkeyed : ¬ ∀ (tenants : List String) (h : Hub),
    run (fun h t => apply id lenient h t shopManifest false) emptyHub tenants = some h →
      ∀ t ∈ tenants, Provisioned h t shopManifest := by
  intro hclaim
  have hconstraints : (run (fun h t => apply id lenient h t shopManifest false) emptyHub
      ["acme", "beta"]).map (·.constraints) =
      some [⟨"fk_orders_user", "tenant_acme_app", "orders", some ordersKey⟩] := by
    decide +kernel
  have hname : physicalName "beta" "app" = some "tenant_beta_app" := by decide +kernel
  obtain ⟨h, hrun, hconstraints⟩ := Option.map_eq_some_iff.mp hconstraints
  obtain ⟨S, S', ⟨s, hs, hS, _⟩, _, k, hk, hschema, _⟩ :=
    (hclaim _ h hrun "beta" (by simp)).keys ordersUser List.mem_cons_self rfl nofun
  cases List.mem_singleton.mp hs
  cases hS.symm.trans hname
  rw [hconstraints] at hk
  cases List.mem_singleton.mp hk
  exact (by decide : "tenant_acme_app" ≠ "tenant_beta_app") hschema

end DataFabric.Relationships
