import DataFabric.ExceptRules
import DataFabric.HubReplicas

set_option autoImplicit false

/-!
# Removing a source

What a source has put into the hub (replicas, landing tables, foreign servers with their foreign
tables, rows of the catalog) and what `removeSource` deletes.
-/
namespace DataFabric.SourceRemoval
open CharText TenantIdentifiers HubReplicas ExceptRules

abbrev Location := String × String

structure DataSource where
  id : String
  tenantId : String
  name : String
  type : String
  syncType : SyncType
deriving DecidableEq

structure CatalogSchema where
  id : String
  sourceId : Option String
  physicalName : String
deriving DecidableEq

structure CatalogTable where
  schemaId : String
  physicalName : String
deriving DecidableEq

inductive Relation
  /-- A table or view of the tenant, with the relations it depends on. -/
  | own (schema name : String) (view : Bool) (uses : List Location)
  /-- The table of a backfill. -/
  | replica (tenantId source schema table : String)
  /-- The table `syncTable` of the integration module lands rows in. -/
  | landing (tenantId source table : String)
deriving DecidableEq

/-- A foreign server and the foreign tables imported from it into the schema of its tenant. -/
structure ForeignServer where
  name : String
  tenantId : String
  source : String
  imported : List String
deriving DecidableEq

structure RegistryRow where
  serverName : String
  tenantId : String
  sourceName : String
deriving DecidableEq

/-- A row of `fabric_catalog.metadata` or of the vector store, whose reference to its source has no ON DELETE. -/
structure SourceReference where
  table : String
  sourceId : Option String
deriving DecidableEq

structure Fabric where
  sources : List DataSource
  schemas : List CatalogSchema
  tables : List CatalogTable
  relations : List Relation
  servers : List ForeignServer
  registry : List RegistryRow
  references : List SourceReference
deriving DecidableEq

/-- `${sourceName}_${table}` without the characters outside identifiers, at most 63 of them. -/
def landingTable (source table : String) : String := slice 63 (keepOnly isWord (source ++ "_" ++ table))

def Relation.location : Relation → Option Location
  | .own schema name _ _ => some (schema, name)
  | .replica tenantId _ schema table => do
    let schema ← q (hubSchemaFor tenantId schema)
    let table ← q table
    return (schema, table)
  | .landing tenantId source table => some (tenantBase tenantId, landingTable source table)

def Relation.uses : Relation → List Location
  | .own _ _ _ uses => uses
  | _ => []

def Relation.isView : Relation → Bool
  | .own _ _ view _ => view
  | _ => false

def Relation.ofSource (s : DataSource) : Relation → Bool
  | .own _ _ _ _ => false
  | .replica tenantId source _ _ => tenantId = s.tenantId && source = s.name
  | .landing tenantId source _ => tenantId = s.tenantId && source = s.name

def ForeignServer.foreignTables (v : ForeignServer) : List Location :=
  v.imported.map fun name => (tenantBase v.tenantId, name)

def ForeignServer.ofSource (s : DataSource) (v : ForeignServer) : Bool :=
  v.tenantId = s.tenantId && v.source = s.name

def sourceNameRe (s : String) : Bool :=
  match s.toList with
  | [] => false
  | c :: cs =>
    c.isAlpha && (cs.all fun d => isWord d || d == ' ' || d == '-') && decide (cs.length ≤ 47) &&
      cs.getLast? ≠ some ' '

def legacyServerName (tenantId source : String) : String := "server_" ++ tenantId ++ "_" ++ source

/-- The views that rest on relations that are gone go too, and those that rest on them. -/
def cascade : ℕ → List Relation → List Location → List Relation
  | 0, relations, _ => relations
  | n + 1, relations, gone =>
    let falls (r : Relation) : Bool := r.isView && r.uses.any (· ∈ gone)
    cascade n (relations.filter (!falls ·)) ((relations.filter falls).filterMap Relation.location)

/-- `DROP SERVER IF EXISTS .. CASCADE` for each of the names. -/
def dropServers (w : Fabric) (names : List String) : Fabric :=
  let gone := (w.servers.filter (·.name ∈ names)).flatMap ForeignServer.foreignTables
  { w with
    relations := cascade w.relations.length w.relations gone
    servers := w.servers.filter (·.name ∉ names) }

def registeredServers (w : Fabric) (tenantId name : String) : List String :=
  (w.registry.filter fun row => row.tenantId = tenantId && row.sourceName = name).map RegistryRow.serverName

/-- The PostgreSQL sources of all tenants whose server would have had the legacy name. -/
def legacyOwners (w : Fabric) (legacy : String) : ℕ :=
  w.sources.countP fun ds =>
    asciiLower ds.type ∈ ["postgres", "postgresql"] && legacyServerName ds.tenantId ds.name = legacy

def removeRemoteSource (w : Fabric) (tenantId name : String) : Except FabricError Fabric :=
  if tenantIdRe tenantId = false then .error (.unexpected "invalid tenant id")
  else if sourceNameRe name = false then .error (.unexpected "invalid source name")
  else
    let unregistered := { dropServers w (registeredServers w tenantId name) with
      registry := w.registry.filter fun row => !(row.tenantId = tenantId && row.sourceName = name) }
    let legacy := legacyServerName tenantId name
    if (unregistered.servers.any (·.name = legacy)) && legacyOwners w legacy ≤ 1 then
      .ok (dropServers unregistered [legacy])
    else .ok unregistered

/-- The hub table a catalog name stands for, cut as PostgreSQL cuts names. -/
def namedTable (tenantId physicalName : String) : Location :=
  (tenantBase tenantId, String.ofList (clip 63 physicalName.toList))

def dropTable (servers : List ForeignServer) (relations : List Relation) (l : Location) :
    Except FabricError (List Relation) :=
  if (servers.any fun v => l ∈ v.foreignTables) ||
      relations.any fun r => r.location = some l && r.isView then
    .error (.unexpected s!"\"{l.2}\" is not a table")
  else if (relations.any fun r => r.location = some l) &&
      relations.any fun r => r.location ≠ some l && l ∈ r.uses then
    .error (.unexpected s!"cannot drop table {l.2} because other objects depend on it")
  else .ok (relations.filter fun r => r.location ≠ some l)

def dropNamed (servers : List ForeignServer) (tenantId : String) (relations : List Relation)
    (physicalName : String) : Except FabricError (List Relation) := do
  let _ ← quoteAnyIdent physicalName
  dropTable servers relations (namedTable tenantId physicalName)

/-- The tables the catalog has under the schemas of a source. -/
def catalogTables (w : Fabric) (sourceId : String) : List CatalogTable :=
  w.tables.filter fun c => w.schemas.any fun sc => sc.id = c.schemaId && sc.sourceId = some sourceId

/-- Both deletions, the rows of `catalog_tables` going with their schema. -/
def purge (w : Fabric) (sourceId : String) : Fabric :=
  { w with
    schemas := w.schemas.filter fun sc => sc.sourceId ≠ some sourceId
    tables := w.tables.filter fun c =>
      !w.schemas.any fun sc => sc.id = c.schemaId && sc.sourceId = some sourceId
    sources := w.sources.filter fun ds => ds.id ≠ sourceId }

/-- The row of the source goes last, which a row that refers to it forbids. -/
def deregister (w : Fabric) (sourceId : String) : Except FabricError Fabric :=
  match w.references.find? fun r => r.sourceId = some sourceId with
  | some r => .error (.unexpected ("update or delete on table \"data_sources\" violates foreign key constraint on table \"" ++
      r.table ++ "\""))
  | none => .ok (purge w sourceId)

def dropCatalogTables (w : Fabric) (sourceId tenantId : String) : Except FabricError Fabric := do
  let tenantId ← assertTenantId (.str tenantId)
  let relations ← ((catalogTables w sourceId).map CatalogTable.physicalName).foldlM
    (dropNamed w.servers tenantId) w.relations
  .ok { w with relations }

/-- The steps before the catalog is purged; a CDC source has none. -/
def dropStored (w : Fabric) (source : DataSource) (tenantId : String) : Except FabricError Fabric :=
  if source.syncType = .VIRTUAL ∧ source.type = "postgres" then removeRemoteSource w tenantId source.name
  else if source.syncType = .SYNC then dropCatalogTables w source.id tenantId
  else .ok w

/-- One transaction, so that an error leaves the hub as it was. -/
def removeSource (w : Fabric) (sourceId tenantId : String) : Except FabricError Fabric :=
  match w.sources.find? fun ds => ds.id = sourceId && ds.tenantId = tenantId with
  | none => .error (.unexpected "Source not found or unauthorized")
  | some source => do
    let w ← dropStored w source tenantId
    deregister w sourceId

theorem utf8Size_of_isWord {c : Char} (h : isWord c = true) : c.utf8Size = 1 := by
  have hval : c.val ≤ 0x7f := by
    change ((decide (65 ≤ c.val ∧ c.val ≤ 90) || (97 ≤ c.val && c.val ≤ 122)) ||
      (48 ≤ c.val && c.val ≤ 57) || c == '_') = true at h
    simp only [Bool.or_eq_true, Bool.and_eq_true, decide_eq_true_eq, beq_iff_eq] at h
    rcases h with ((⟨-, h⟩ | ⟨-, h⟩) | ⟨-, h⟩) | rfl
    · exact UInt32.le_trans h (by decide)
    · exact UInt32.le_trans h (by decide)
    · exact UInt32.le_trans h (by decide)
    · decide
  exact Char.utf8Size_eq_one_iff.mpr hval

theorem clip_of_isWord {cs : List Char} (h : ∀ c ∈ cs, isWord c = true) (n : ℕ) :
    clip n cs = cs.take n := by
  induction cs generalizing n with
  | nil => cases n <;> rfl
  | cons c cs ih =>
    have hsize := utf8Size_of_isWord (h c List.mem_cons_self)
    have hrest := fun m => ih (fun d hd => h d (List.mem_cons_of_mem c hd)) m
    unfold clip
    rw [hsize]
    cases n with
    | zero => rfl
    | succ n => rw [if_pos (by omega), hrest, Nat.add_sub_cancel, List.take_succ_cons]

theorem tenantIdRe_word {t : String} (h : tenantIdRe t = true) :
    (∀ c ∈ t.toList, isWord c = true) ∧ t.toList.length ≤ 41 := by
  unfold tenantIdRe matchesWord at h
  cases ht : t.toList with
  | nil => exact ⟨fun c hc => absurd hc List.not_mem_nil, Nat.zero_le _⟩
  | cons first rest =>
    rw [ht] at h
    simp only [Bool.and_eq_true, List.all_eq_true, decide_eq_true_eq] at h
    obtain ⟨⟨hfirst, hrest⟩, -, hlength⟩ := h
    refine ⟨fun c hc => ?_, by rw [List.length_cons]; omega⟩
    rcases List.mem_cons.mp hc with rfl | hc
    · simp [isWord, Char.isAlphanum, hfirst]
    · exact hrest c hc

theorem replica_elsewhere {t : String} (ht : tenantIdRe t = true) (source schema table name : String) :
    (Relation.replica t source schema table).location ≠ some (tenantBase t, name) := by
  obtain ⟨hword, hlength⟩ := tenantIdRe_word ht
  intro hl
  simp only [Relation.location, Option.bind_eq_bind, Option.bind_eq_some_iff] at hl
  obtain ⟨hubSchema, hq, hubTable, -, hpair⟩ := hl
  obtain rfl : hubSchema = tenantBase t := congrArg Prod.fst (Option.some.inj hpair)
  have hbase : (tenantBase t).toList = "tenant_".toList ++ t.toList := String.toList_append
  have hchars : (hubSchemaFor t schema).toList =
      (tenantBase t).toList ++ '_' :: schema.toList.filter isWord := by
    have hstripped : t.toList.filter isWord = t.toList := List.filter_eq_self.mpr hword
    unfold hubSchemaFor
    simp [hbase, hstripped]
  have hall : ∀ c ∈ (hubSchemaFor t schema).toList, isWord c = true := by
    intro c hc
    rw [hchars, hbase, List.mem_append, List.mem_append, List.mem_cons] at hc
    rcases hc with (hc | hc) | rfl | hc
    · have hprefix : "tenant_".toList.all isWord = true := by rfl
      exact List.all_eq_true.mp hprefix c hc
    · exact hword c hc
    · decide
    · exact (List.mem_filter.mp hc).2
  have hquotes : (hubSchemaFor t schema).toList.filter (· ≠ '"') = (hubSchemaFor t schema).toList := by
    refine List.filter_eq_self.mpr fun c hc => decide_eq_true ?_
    rintro rfl
    exact absurd (hall _ hc) (by decide)
  unfold q at hq
  simp only [keepOnly_toList, Option.ite_none_left_eq_some, Option.some.injEq] at hq
  have htake := congrArg String.toList hq.2
  rw [String.toList_ofList, hquotes, clip_of_isWord hall, hchars] at htake
  have hlen := congrArg List.length htake
  rw [List.length_take, List.length_append, List.length_cons, hbase, List.length_append] at hlen
  have hseven : "tenant_".toList.length = 7 := by decide
  omega

section Drops

variable {servers : List ForeignServer} {relations left : List Relation} {l : Location}

theorem dropTable_ok (h : dropTable servers relations l = .ok left) :
    left = relations.filter (fun r => r.location ≠ some l) ∧ (∀ v ∈ servers, l ∉ v.foreignTables) ∧
      ∀ r ∈ relations, r.location = some l →
        r.isView = false ∧ ∀ r' ∈ relations, l ∈ r'.uses → r'.location = some l := by
  unfold dropTable at h
  split_ifs at h with hother hused
  rw [Bool.or_eq_true, List.any_eq_true, List.any_eq_true, not_or] at hother
  rw [Bool.and_eq_true, List.any_eq_true, List.any_eq_true] at hused
  refine ⟨(Except.ok.inj h).symm, fun v hv hl => hother.1 ⟨v, hv, decide_eq_true hl⟩,
    fun r hr hrl => ⟨Bool.eq_false_iff.mpr fun hview => hother.2 ⟨r, hr, by simp [hrl, hview]⟩, ?_⟩⟩
  intro r' hr' hl
  by_contra hne
  exact hused ⟨⟨r, hr, decide_eq_true hrl⟩, r', hr', by simp [hne, hl]⟩

theorem dropTable_clear (hforeign : ∀ v ∈ servers, l ∉ v.foreignTables)
    (hclear : ∀ r ∈ relations, r.location = some l →
      r.isView = false ∧ ∀ r' ∈ relations, l ∉ r'.uses) :
    dropTable servers relations l = .ok (relations.filter fun r => r.location ≠ some l) := by
  have hother : ¬ ((servers.any fun v => decide (l ∈ v.foreignTables)) ||
      relations.any fun r => decide (r.location = some l) && r.isView) = true := by
    rw [Bool.or_eq_true, List.any_eq_true, List.any_eq_true]
    rintro (⟨v, hv, hl⟩ | ⟨r, hr, hrl⟩)
    · exact hforeign v hv (of_decide_eq_true hl)
    · rw [Bool.and_eq_true, decide_eq_true_eq] at hrl
      exact absurd hrl.2 (Bool.eq_false_iff.mp (hclear r hr hrl.1).1)
  have hused : ¬ ((relations.any fun r => decide (r.location = some l)) &&
      relations.any fun r => decide (r.location ≠ some l) && decide (l ∈ r.uses)) = true := by
    rw [Bool.and_eq_true, List.any_eq_true, List.any_eq_true]
    rintro ⟨⟨r, hr, hrl⟩, r', hr', hl⟩
    rw [Bool.and_eq_true, decide_eq_true_eq, decide_eq_true_eq] at hl
    exact (hclear r hr (of_decide_eq_true hrl)).2 r' hr' hl.2
  unfold dropTable
  rw [if_neg hother, if_neg hused]

variable {tenantId : String} {names : List String}

def without (tenantId : String) (names : List String) (relations : List Relation) : List Relation :=
  relations.filter fun r => r.location ∉ names.map fun name => some (namedTable tenantId name)

theorem mem_without {r : Relation} : r ∈ without tenantId names relations ↔
    r ∈ relations ∧ ∀ name ∈ names, r.location ≠ some (namedTable tenantId name) := by
  unfold without
  rw [List.mem_filter, decide_eq_true_eq, List.mem_map]
  constructor
  · rintro ⟨hr, hnone⟩
    exact ⟨hr, fun name hname hl => hnone ⟨name, hname, hl.symm⟩⟩
  · rintro ⟨hr, hnone⟩
    refine ⟨hr, ?_⟩
    rintro ⟨name, hname, hl⟩
    exact hnone name hname hl.symm

theorem without_cons (name : String) : without tenantId names
    (relations.filter fun r => r.location ≠ some (namedTable tenantId name)) =
      without tenantId (name :: names) relations := by
  unfold without
  rw [List.filter_filter]
  refine List.filter_congr fun r _ => ?_
  rw [List.map_cons, Bool.eq_iff_iff, Bool.and_eq_true, decide_eq_true_eq, decide_eq_true_eq,
    decide_eq_true_eq, List.mem_cons, not_or]
  exact and_comm

theorem dropNamed_ok (h : names.foldlM (dropNamed servers tenantId) relations = .ok left) :
    left = without tenantId names relations ∧ ∀ name ∈ names, quotable name = true ∧
      (∀ v ∈ servers, namedTable tenantId name ∉ v.foreignTables) ∧
      ∀ r ∈ relations, r.location = some (namedTable tenantId name) →
        ∀ r' ∈ relations, namedTable tenantId name ∈ r'.uses → r' ∉ left := by
  induction names generalizing relations with
  | nil =>
    refine ⟨?_, fun name hname => absurd hname List.not_mem_nil⟩
    rw [List.foldlM_nil] at h
    simp [without, ← Except.ok.inj h]
  | cons name names ih =>
    rw [List.foldlM_cons] at h
    obtain ⟨next, hnext, hrest⟩ := bind_ok h
    unfold dropNamed at hnext
    obtain ⟨quoted, hquoted, hdrop⟩ := bind_ok hnext
    obtain ⟨rfl, hforeign, hclear⟩ := dropTable_ok hdrop
    obtain ⟨hleft, hnames⟩ := ih hrest
    rw [without_cons] at hleft
    refine ⟨hleft, fun other hother => ?_⟩
    have hgone : ∀ r, r.location = some (namedTable tenantId name) → r ∉ left := by
      intro r hr hmem
      rw [hleft, mem_without] at hmem
      exact hmem.2 name List.mem_cons_self hr
    have hfirst : quotable name = true ∧ (∀ v ∈ servers, namedTable tenantId name ∉ v.foreignTables) ∧
        ∀ r ∈ relations, r.location = some (namedTable tenantId name) →
          ∀ r' ∈ relations, namedTable tenantId name ∈ r'.uses → r' ∉ left :=
      ⟨(quoteAnyIdent_ok_iff.mp hquoted).1, hforeign,
        fun r hr hl r' hr' huses => hgone r' ((hclear r hr hl).2 r' hr' huses)⟩
    rcases List.mem_cons.mp hother with rfl | hother
    · exact hfirst
    · obtain ⟨hquot, hforeign', huses⟩ := hnames other hother
      refine ⟨hquot, hforeign', fun r hr hl r' hr' hmem => ?_⟩
      by_cases hl' : r'.location = some (namedTable tenantId name)
      · exact hgone r' hl'
      by_cases hsame : r.location = some (namedTable tenantId name)
      · have heq : namedTable tenantId other = namedTable tenantId name :=
          Option.some.inj (hl.symm.trans hsame)
        exact hfirst.2.2 r hr hsame r' hr' (heq ▸ hmem)
      · exact huses r (List.mem_filter.mpr ⟨hr, decide_eq_true hsame⟩) hl r'
          (List.mem_filter.mpr ⟨hr', decide_eq_true hl'⟩) hmem

theorem dropNamed_clear (hquot : ∀ name ∈ names, quotable name = true)
    (hforeign : ∀ name ∈ names, ∀ v ∈ servers, namedTable tenantId name ∉ v.foreignTables)
    (hclear : ∀ name ∈ names, ∀ r ∈ relations, r.location = some (namedTable tenantId name) →
      r.isView = false ∧ ∀ r' ∈ relations, namedTable tenantId name ∉ r'.uses) :
    names.foldlM (dropNamed servers tenantId) relations = .ok (without tenantId names relations) := by
  induction names generalizing relations with
  | nil =>
    have hall : without tenantId [] relations = relations := by simp [without]
    rw [hall]
    rfl
  | cons name names ih =>
    have hdrop : dropNamed servers tenantId relations name =
        .ok (relations.filter fun r => r.location ≠ some (namedTable tenantId name)) := by
      unfold dropNamed
      rw [quoteAnyIdent_ok_iff.mpr ⟨hquot name List.mem_cons_self, rfl⟩, ok_bind]
      exact dropTable_clear (hforeign name List.mem_cons_self) (hclear name List.mem_cons_self)
    rw [List.foldlM_cons, hdrop, ok_bind, ← without_cons]
    refine ih (fun n hn => hquot n (List.mem_cons_of_mem _ hn))
      (fun n hn => hforeign n (List.mem_cons_of_mem _ hn)) fun n hn r hr hl => ?_
    obtain ⟨hview, hunused⟩ := hclear n (List.mem_cons_of_mem _ hn) r (List.mem_of_mem_filter hr) hl
    exact ⟨hview, fun r' hr' => hunused r' (List.mem_of_mem_filter hr')⟩

end Drops

section Servers

variable {relations : List Relation} {gone : List Location} {r : Relation} {n : ℕ}

theorem mem_of_cascade (h : r ∈ cascade n relations gone) : r ∈ relations := by
  induction n generalizing relations gone with
  | zero => exact h
  | succ n ih => exact List.mem_of_mem_filter (ih h)

theorem mem_cascade (hr : r ∈ relations) (hview : r.isView = false) : r ∈ cascade n relations gone := by
  induction n generalizing relations gone with
  | zero => exact hr
  | succ n ih => exact ih (List.mem_filter.mpr ⟨hr, by simp [hview]⟩)

theorem cascade_unused (h : ∀ r ∈ relations, r.isView = true → ∀ l ∈ gone, l ∉ r.uses) :
    cascade n relations gone = relations := by
  induction n generalizing gone with
  | zero => rfl
  | succ n ih =>
    have hstays : ∀ r ∈ relations, (r.isView && r.uses.any (· ∈ gone)) = false := by
      intro r hr
      rw [Bool.and_eq_false_iff, List.any_eq_false]
      cases hview : r.isView with
      | false => exact .inl rfl
      | true => exact .inr fun l hl hgone => h r hr hview l (of_decide_eq_true hgone) hl
    have hkept : relations.filter (fun r => !(r.isView && r.uses.any (· ∈ gone))) = relations :=
      List.filter_eq_self.mpr fun r hr => by rw [hstays r hr]; rfl
    have hnone : relations.filter (fun r => r.isView && r.uses.any (· ∈ gone)) = [] :=
      List.filter_eq_nil_iff.mpr fun r hr => by rw [hstays r hr]; exact Bool.false_ne_true
    change cascade n (relations.filter _) ((relations.filter _).filterMap _) = relations
    rw [hkept, hnone]
    exact ih fun _ _ _ l hl => absurd hl List.not_mem_nil

theorem not_mem_cascade (hr : r ∈ relations) (hview : r.isView = true) {l : Location} (hl : l ∈ gone)
    (huses : l ∈ r.uses) : r ∉ cascade relations.length relations gone := by
  obtain ⟨n, hn⟩ : ∃ n, relations.length = n + 1 :=
    ⟨relations.length - 1, by have := List.length_pos_of_mem hr; omega⟩
  rw [hn]
  intro hmem
  have hstays := (List.mem_filter.mp (mem_of_cascade hmem)).2
  have hany : r.uses.any (· ∈ gone) = true := List.any_eq_true.mpr ⟨l, huses, decide_eq_true hl⟩
  simp [hview, hany] at hstays

structure Fell (gone : Location → Prop) (before after : List Relation) : Prop where
  sub : ∀ r ∈ after, r ∈ before
  tables : ∀ r ∈ before, r.isView = false → r ∈ after
  views : ∀ r ∈ before, r.isView = true → ∀ l ∈ r.uses, gone l → r ∉ after
  unused : (∀ r ∈ before, r.isView = true → ∀ l ∈ r.uses, ¬ gone l) → after = before

theorem fell_trans {gone gone' : Location → Prop} {before mid after : List Relation}
    (h : Fell gone before mid) (h' : Fell gone' mid after) :
    Fell (fun l => gone l ∨ gone' l) before after where
  sub r hr := h.sub r (h'.sub r hr)
  tables r hr hview := h'.tables r (h.tables r hr hview) hview
  views r hr hview l hl hgone hmem := by
    have hmid := h'.sub r hmem
    rcases hgone with hgone | hgone
    · exact h.views r hr hview l hl hgone hmid
    · exact h'.views r hmid hview l hl hgone hmem
  unused hnone := by
    have hmid := h.unused fun r hr hview l hl hgone => hnone r hr hview l hl (.inl hgone)
    rw [← hmid]
    refine h'.unused fun r hr hview l hl hgone => ?_
    exact hnone r (hmid ▸ hr) hview l hl (.inr hgone)

theorem fell_congr {gone gone' : Location → Prop} {before after : List Relation}
    (h : Fell gone before after) (heq : ∀ l, gone l ↔ gone' l) : Fell gone' before after := by
  have hfun : gone = gone' := funext fun l => propext (heq l)
  exact hfun ▸ h

theorem fell_dropServers (w : Fabric) (names : List String) :
    Fell (fun l => ∃ v ∈ w.servers, v.name ∈ names ∧ l ∈ v.foreignTables) w.relations
      (dropServers w names).relations := by
  have hgone : ∀ l, l ∈ (w.servers.filter (·.name ∈ names)).flatMap ForeignServer.foreignTables ↔
      ∃ v ∈ w.servers, v.name ∈ names ∧ l ∈ v.foreignTables := by
    intro l
    rw [List.mem_flatMap]
    constructor
    · rintro ⟨v, hv, hl⟩
      rw [List.mem_filter, decide_eq_true_eq] at hv
      exact ⟨v, hv.1, hv.2, hl⟩
    · rintro ⟨v, hv, hname, hl⟩
      exact ⟨v, List.mem_filter.mpr ⟨hv, decide_eq_true hname⟩, hl⟩
  refine ⟨fun r => mem_of_cascade, fun r => mem_cascade, fun r hr hview l hl hfalls => ?_, fun hnone => ?_⟩
  · exact not_mem_cascade hr hview ((hgone l).mpr hfalls) hl
  · exact cascade_unused fun r hr hview l hl huses => hnone r hr hview l huses ((hgone l).mp hl)

/-- A server the removal drops: one registered for the source, or one that bears its legacy name
while no other source would have had it. -/
def reached (w : Fabric) (tenantId name : String) (v : ForeignServer) : Bool :=
  v.name ∈ registeredServers w tenantId name ||
    v.name = legacyServerName tenantId name && legacyOwners w (legacyServerName tenantId name) ≤ 1

theorem reached_iff {w : Fabric} {tenantId name : String} {v : ForeignServer} :
    reached w tenantId name v = true ↔ v.name ∈ registeredServers w tenantId name ∨
      v.name = legacyServerName tenantId name ∧
        legacyOwners w (legacyServerName tenantId name) ≤ 1 := by
  unfold reached
  rw [Bool.or_eq_true, Bool.and_eq_true, decide_eq_true_eq, decide_eq_true_eq, decide_eq_true_eq]

theorem removeRemoteSource_ok (w : Fabric) {tenantId name : String} (ht : tenantIdRe tenantId = true)
    (hname : sourceNameRe name = true) :
    ∃ relations, removeRemoteSource w tenantId name = .ok { w with
        relations
        servers := w.servers.filter (!reached w tenantId name ·)
        registry := w.registry.filter fun row => !(row.tenantId = tenantId && row.sourceName = name) } ∧
      Fell (fun l => ∃ v ∈ w.servers, reached w tenantId name v = true ∧ l ∈ v.foreignTables)
        w.relations relations := by
  have hfirst := fell_dropServers w (registeredServers w tenantId name)
  unfold removeRemoteSource
  rw [if_neg (by simp [ht]), if_neg (by simp [hname])]
  dsimp only
  split_ifs with hlegacy
  · rw [Bool.and_eq_true, decide_eq_true_eq] at hlegacy
    have hsecond := fell_dropServers { dropServers w (registeredServers w tenantId name) with
      registry := w.registry.filter fun row => !(row.tenantId = tenantId && row.sourceName = name) }
      [legacyServerName tenantId name]
    refine ⟨_, ?_, fell_congr (fell_trans hfirst hsecond) fun l => ?_⟩
    · refine congrArg Except.ok (Fabric.mk.injEq .. |>.mpr ⟨rfl, rfl, rfl, rfl, ?_, rfl, rfl⟩)
      change (w.servers.filter _).filter _ = w.servers.filter _
      rw [List.filter_filter]
      refine List.filter_congr fun v _ => ?_
      rw [Bool.eq_iff_iff, Bool.not_eq_true', Bool.eq_false_iff, Ne, reached_iff]
      simp [hlegacy.2, and_comm]
    · constructor
      · rintro (⟨v, hv, hreached, hl⟩ | ⟨v, hv, hreached, hl⟩)
        · exact ⟨v, hv, reached_iff.mpr (.inl hreached), hl⟩
        · exact ⟨v, List.mem_of_mem_filter hv,
            reached_iff.mpr (.inr ⟨List.mem_singleton.mp hreached, hlegacy.2⟩), hl⟩
      · rintro ⟨v, hv, hreached, hl⟩
        by_cases hregistered : v.name ∈ registeredServers w tenantId name
        · exact .inl ⟨v, hv, hregistered, hl⟩
        · have hname := ((reached_iff.mp hreached).resolve_left hregistered).1
          exact .inr ⟨v, List.mem_filter.mpr ⟨hv, decide_eq_true hregistered⟩,
            List.mem_singleton.mpr hname, hl⟩
  · have hregistered : ∀ v ∈ w.servers, reached w tenantId name v = true →
        v.name ∈ registeredServers w tenantId name := by
      intro v hv hreached
      by_contra hnot
      obtain ⟨hlegacyName, howners⟩ := (reached_iff.mp hreached).resolve_left hnot
      refine hlegacy ?_
      rw [Bool.and_eq_true, decide_eq_true_eq, List.any_eq_true]
      exact ⟨⟨v, List.mem_filter.mpr ⟨hv, decide_eq_true hnot⟩, decide_eq_true hlegacyName⟩, howners⟩
    refine ⟨_, ?_, fell_congr hfirst fun l => ?_⟩
    · refine congrArg Except.ok (Fabric.mk.injEq .. |>.mpr ⟨rfl, rfl, rfl, rfl, ?_, rfl, rfl⟩)
      refine List.filter_congr fun v hv => ?_
      rw [Bool.eq_iff_iff, decide_eq_true_eq, Bool.not_eq_true', Bool.eq_false_iff]
      exact ⟨fun hnot hreached => hnot (hregistered v hv hreached),
        fun hnot hmem => hnot (reached_iff.mpr (.inl hmem))⟩
    · constructor
      · rintro ⟨v, hv, hmem, hl⟩
        exact ⟨v, hv, reached_iff.mpr (.inl hmem), hl⟩
      · rintro ⟨v, hv, hreached, hl⟩
        exact ⟨v, hv, hregistered v hv hreached, hl⟩

end Servers

structure RemovesExactly (w w' : Fabric) (s : DataSource) : Prop where
  relations : ∀ r, r ∈ w'.relations ↔ r ∈ w.relations ∧ r.ofSource s = false
  servers : ∀ v, v ∈ w'.servers ↔ v ∈ w.servers ∧ v.ofSource s = false
  registry : ∀ row, ¬ (row.tenantId = s.tenantId ∧ row.sourceName = s.name) →
    (row ∈ w'.registry ↔ row ∈ w.registry)
  schemas : ∀ sc, sc ∈ w'.schemas ↔ sc ∈ w.schemas ∧ sc.sourceId ≠ some s.id
  tables : ∀ c, c ∈ w'.tables ↔ c ∈ w.tables ∧
    ∀ sc ∈ w.schemas, sc.id = c.schemaId → sc.sourceId ≠ some s.id
  sources : ∀ ds, ds ∈ w'.sources ↔ ds ∈ w.sources ∧ ds.id ≠ s.id
  references : ∀ r, r ∈ w'.references ↔ r ∈ w.references ∧ r.sourceId ≠ some s.id

/-- The catalog names the landing tables of the source, no other relation of the schema, and the
source has nothing else in the hub. -/
structure ByCatalog (w : Fabric) (s : DataSource) : Prop where
  tenant : tenantIdRe s.tenantId = true
  quotable : ∀ c ∈ catalogTables w s.id, quotable c.physicalName = true
  replicas : ∀ schema table, .replica s.tenantId s.name schema table ∉ w.relations
  servers : ∀ v ∈ w.servers, v.ofSource s = false
  landed : ∀ table, .landing s.tenantId s.name table ∈ w.relations → ∃ c ∈ catalogTables w s.id,
    namedTable s.tenantId c.physicalName = (tenantBase s.tenantId, landingTable s.name table)
  only : ∀ c ∈ catalogTables w s.id, ∀ r ∈ w.relations,
    r.location = some (namedTable s.tenantId c.physicalName) →
      ∃ table, r = .landing s.tenantId s.name table
  foreign : ∀ c ∈ catalogTables w s.id, ∀ v ∈ w.servers,
    namedTable s.tenantId c.physicalName ∉ v.foreignTables
  unused : ∀ table, .landing s.tenantId s.name table ∈ w.relations → ∀ r ∈ w.relations,
    (tenantBase s.tenantId, landingTable s.name table) ∉ r.uses

/-- The servers registered for the source and the one of its legacy name are its servers, no view
rests on their tables, and the source has nothing else in the hub. -/
structure ByRegistry (w : Fabric) (s : DataSource) : Prop where
  tenant : tenantIdRe s.tenantId = true
  name : sourceNameRe s.name = true
  relations : ∀ r ∈ w.relations, r.ofSource s = false
  servers : ∀ v ∈ w.servers, reached w s.tenantId s.name v = v.ofSource s
  unused : ∀ v ∈ w.servers, v.ofSource s = true → ∀ r ∈ w.relations, r.isView = true →
    ∀ l ∈ r.uses, l ∉ v.foreignTables

structure Unstored (w : Fabric) (s : DataSource) : Prop where
  relations : ∀ r ∈ w.relations, r.ofSource s = false
  servers : ∀ v ∈ w.servers, v.ofSource s = false

def Unreferenced (w : Fabric) (s : DataSource) : Prop := ∀ r ∈ w.references, r.sourceId ≠ some s.id

def Removable (w : Fabric) (s : DataSource) : Prop :=
  Unreferenced w s ∧
    if s.syncType = .SYNC then ByCatalog w s
    else if s.syncType = .VIRTUAL ∧ s.type = "postgres" then ByRegistry w s
    else Unstored w s

section Removal

variable {w w' : Fabric} {s : DataSource}

theorem ofSource_iff {r : Relation} : r.ofSource s = true ↔
    (∃ schema table, r = .replica s.tenantId s.name schema table) ∨
      ∃ table, r = .landing s.tenantId s.name table := by
  cases r <;> simp [Relation.ofSource]

theorem ofSource_replica (s : DataSource) (schema table : String) :
    (Relation.replica s.tenantId s.name schema table).ofSource s = true := by
  simp [Relation.ofSource]

theorem ofSource_landing (s : DataSource) (table : String) :
    (Relation.landing s.tenantId s.name table).ofSource s = true := by
  simp [Relation.ofSource]

theorem isView_of_ofSource {r : Relation} (h : r.ofSource s = true) : r.isView = false := by
  cases r with
  | own schema name view uses => cases h
  | replica tenantId source schema table => rfl
  | landing tenantId source table => rfl

theorem deregister_ok_iff : deregister w s.id = .ok w' ↔ Unreferenced w s ∧ w' = purge w s.id := by
  unfold deregister Unreferenced
  split
  · rename_i r hfound
    have hrefers : decide (r.sourceId = some s.id) = true :=
      List.find?_some (p := fun r : SourceReference => decide (r.sourceId = some s.id)) hfound
    exact iff_of_false nofun fun h => h.1 r (List.mem_of_find?_eq_some hfound) (of_decide_eq_true hrefers)
  · rename_i hnone
    have hfree : ∀ r ∈ w.references, r.sourceId ≠ some s.id := fun r hr =>
      of_decide_eq_false (Bool.eq_false_iff.mpr (List.find?_eq_none.mp hnone r hr))
    exact ⟨fun h => ⟨hfree, (Except.ok.inj h).symm⟩, fun h => congrArg Except.ok h.2.symm⟩

theorem removesExactly_purge (hfree : Unreferenced w s) {relations : List Relation} {servers : List ForeignServer}
    {registry : List RegistryRow} (hregistry : ∀ row : RegistryRow,
      ¬ (row.tenantId = s.tenantId ∧ row.sourceName = s.name) → (row ∈ registry ↔ row ∈ w.registry)) :
    RemovesExactly w (purge { w with relations, servers, registry } s.id) s ↔
      (∀ r, r ∈ relations ↔ r ∈ w.relations ∧ r.ofSource s = false) ∧
      ∀ v, v ∈ servers ↔ v ∈ w.servers ∧ v.ofSource s = false := by
  refine ⟨fun h => ⟨h.relations, h.servers⟩,
    fun h => ⟨h.1, h.2, hregistry, fun sc => ?_, fun c => ?_, fun ds => ?_, fun r => ?_⟩⟩
  · exact List.mem_filter.trans (and_congr_right fun _ => decide_eq_true_iff)
  · refine List.mem_filter.trans (and_congr_right fun _ => ?_)
    rw [Bool.not_eq_true', List.any_eq_false]
    refine forall₂_congr fun sc _ => ?_
    rw [Bool.and_eq_true, decide_eq_true_eq, decide_eq_true_eq, not_and]
  · exact List.mem_filter.trans (and_congr_right fun _ => decide_eq_true_iff)
  · exact ⟨fun hr => ⟨hr, hfree r hr⟩, And.left⟩

theorem dropCatalogTables_ok (h : dropCatalogTables w s.id s.tenantId = .ok w') :
    tenantIdRe s.tenantId = true ∧ ∃ relations,
      ((catalogTables w s.id).map CatalogTable.physicalName).foldlM
        (dropNamed w.servers s.tenantId) w.relations = .ok relations ∧ w' = { w with relations } := by
  unfold dropCatalogTables at h
  obtain ⟨tenantId, htenant, hrest⟩ := bind_ok h
  obtain ⟨ht, rfl⟩ := assertTenantId_ok_iff.mp htenant
  obtain ⟨relations, hrelations, heq⟩ := bind_ok hrest
  exact ⟨ht, relations, hrelations, (Except.ok.inj heq).symm⟩

theorem exact_of_byCatalog (hfree : Unreferenced w s) (h : ByCatalog w s) :
    ∃ w', dropCatalogTables w s.id s.tenantId = .ok w' ∧ RemovesExactly w (purge w' s.id) s := by
  have hnames : ∀ name ∈ (catalogTables w s.id).map CatalogTable.physicalName,
      ∃ c ∈ catalogTables w s.id, c.physicalName = name := fun name hname => List.mem_map.mp hname
  have hdrops : ((catalogTables w s.id).map CatalogTable.physicalName).foldlM
      (dropNamed w.servers s.tenantId) w.relations =
        .ok (without s.tenantId ((catalogTables w s.id).map CatalogTable.physicalName) w.relations) := by
    refine dropNamed_clear (fun name hname => ?_) (fun name hname => ?_) fun name hname r hr hl => ?_
    · obtain ⟨c, hc, rfl⟩ := hnames name hname
      exact h.quotable c hc
    · obtain ⟨c, hc, rfl⟩ := hnames name hname
      exact h.foreign c hc
    · obtain ⟨c, hc, rfl⟩ := hnames name hname
      obtain ⟨table, rfl⟩ := h.only c hc r hr hl
      refine ⟨rfl, fun r' hr' huses => h.unused table hr r' hr' ?_⟩
      exact (Option.some.inj hl).symm ▸ huses
  let left := without s.tenantId ((catalogTables w s.id).map CatalogTable.physicalName) w.relations
  refine ⟨{ w with relations := left }, ?_, (removesExactly_purge hfree fun _ _ => Iff.rfl).mpr ⟨fun r => ?_, fun v => ?_⟩⟩
  · unfold dropCatalogTables
    rw [assertTenantId_ok_iff.mpr ⟨h.tenant, rfl⟩, ok_bind, hdrops, ok_bind]
  · rw [mem_without]
    refine and_congr_right fun hr => ⟨fun hnone => ?_, fun hother name hname hl => ?_⟩
    · rw [Bool.eq_false_iff]
      intro hof
      rcases ofSource_iff.mp hof with ⟨schema, table, rfl⟩ | ⟨table, rfl⟩
      · exact h.replicas schema table hr
      · obtain ⟨c, hc, hl⟩ := h.landed table hr
        exact hnone c.physicalName (List.mem_map_of_mem hc) (congrArg some hl.symm)
    · obtain ⟨c, hc, rfl⟩ := hnames name hname
      obtain ⟨table, rfl⟩ := h.only c hc r hr hl
      exact absurd (ofSource_landing s table) (Bool.eq_false_iff.mp hother)
  · exact ⟨fun hv => ⟨hv, h.servers v hv⟩, And.left⟩

theorem byCatalog_of_exact (hfree : Unreferenced w s) (hdrops : dropCatalogTables w s.id s.tenantId = .ok w')
    (h : RemovesExactly w (purge w' s.id) s) : ByCatalog w s := by
  obtain ⟨htenant, left, hleft, rfl⟩ := dropCatalogTables_ok hdrops
  obtain ⟨hrelations, hservers⟩ := (removesExactly_purge hfree fun _ _ => Iff.rfl).mp h
  obtain ⟨heq, hnames⟩ := dropNamed_ok hleft
  have hgoes : ∀ r, r.ofSource s = true → r ∉ left := fun r hof hmem =>
    Bool.noConfusion (((hrelations r).mp hmem).2.symm.trans hof)
  have hgone : ∀ c ∈ catalogTables w s.id, ∀ r ∈ w.relations,
      r.location = some (namedTable s.tenantId c.physicalName) → r.ofSource s = true := by
    intro c hc r hr hl
    by_contra hother
    have hstays := (hrelations r).mpr ⟨hr, Bool.eq_false_iff.mpr hother⟩
    rw [heq, mem_without] at hstays
    exact hstays.2 _ (List.mem_map_of_mem hc) hl
  have hreplica : ∀ schema table, .replica s.tenantId s.name schema table ∉ w.relations := by
    intro schema table hr
    refine hgoes _ (ofSource_replica s schema table) ?_
    rw [heq, mem_without]
    exact ⟨hr, fun name _ => replica_elsewhere htenant _ _ _ _⟩
  have hnamed : ∀ table, .landing s.tenantId s.name table ∈ w.relations → ∃ c ∈ catalogTables w s.id,
      namedTable s.tenantId c.physicalName = (tenantBase s.tenantId, landingTable s.name table) := by
    intro table hr
    by_contra hnone
    refine hgoes _ (ofSource_landing s table) ?_
    rw [heq, mem_without]
    refine ⟨hr, fun name hname hl => hnone ?_⟩
    obtain ⟨c, hc, rfl⟩ := List.mem_map.mp hname
    exact ⟨c, hc, (Option.some.inj hl).symm⟩
  refine ⟨htenant, fun c hc => (hnames _ (List.mem_map_of_mem hc)).1, hreplica,
    fun v hv => ((hservers v).mp hv).2, hnamed, fun c hc r hr hl => ?_,
    fun c hc => (hnames _ (List.mem_map_of_mem hc)).2.1, fun table hr r hr' huses => ?_⟩
  · rcases ofSource_iff.mp (hgone c hc r hr hl) with ⟨schema, table, rfl⟩ | hlanding
    · exact absurd hr (hreplica schema table)
    · exact hlanding
  · obtain ⟨c, hc, hl⟩ := hnamed table hr
    have hfalls : r ∉ left :=
      (hnames _ (List.mem_map_of_mem hc)).2.2 _ hr (congrArg some hl.symm) r hr' (hl ▸ huses)
    -- only what the tenant made rests on a table, and that stays
    have hown : r.ofSource s = false := by
      cases r with
      | own schema name view uses => rfl
      | replica tenantId source schema table => cases huses
      | landing tenantId source table => cases huses
    exact hfalls ((hrelations r).mpr ⟨hr', hown⟩)

theorem exact_iff_byRegistry (hfree : Unreferenced w s) :
    (∃ w', removeRemoteSource w s.tenantId s.name = .ok w' ∧ RemovesExactly w (purge w' s.id) s) ↔
      ByRegistry w s := by
  have hregistry : ∀ row : RegistryRow, ¬ (row.tenantId = s.tenantId ∧ row.sourceName = s.name) →
      (row ∈ w.registry.filter (fun row => !(row.tenantId = s.tenantId && row.sourceName = s.name)) ↔
        row ∈ w.registry) := by
    intro row hother
    rw [List.mem_filter]
    refine and_iff_left ?_
    rwa [Bool.not_eq_true', Bool.eq_false_iff, Ne, Bool.and_eq_true, decide_eq_true_eq, decide_eq_true_eq]
  constructor
  · rintro ⟨w', hremove, h⟩
    have hvalid : tenantIdRe s.tenantId = true ∧ sourceNameRe s.name = true := by
      unfold removeRemoteSource at hremove
      split_ifs at hremove with ht hn
      all_goals simp_all
    obtain ⟨left, hok, hfell⟩ := removeRemoteSource_ok w hvalid.1 hvalid.2
    obtain rfl := Except.ok.inj (hremove.symm.trans hok)
    obtain ⟨hrelations, hservers⟩ := (removesExactly_purge hfree hregistry).mp h
    have hreached : ∀ v ∈ w.servers, reached w s.tenantId s.name v = v.ofSource s := by
      intro v hv
      have hv' := hservers v
      rw [List.mem_filter, and_iff_right hv, and_iff_right hv, Bool.not_eq_true'] at hv'
      cases hof : v.ofSource s with
      | false => exact hv'.mpr hof
      | true => exact Bool.not_eq_false _ ▸ fun hnot => Bool.noConfusion ((hv'.mp hnot).symm.trans hof)
    refine ⟨hvalid.1, hvalid.2, fun r hr => ?_, hreached, fun v hv hof r hr hview l hl hforeign => ?_⟩
    · rw [Bool.eq_false_iff]
      intro hof
      have hstays := hfell.tables r hr (isView_of_ofSource hof)
      exact Bool.noConfusion (((hrelations r).mp hstays).2.symm.trans hof)
    · have hfalls := hfell.views r hr hview l hl ⟨v, hv, (hreached v hv).trans hof, hforeign⟩
      refine hfalls ((hrelations r).mpr ⟨hr, Bool.eq_false_iff.mpr fun hown => ?_⟩)
      exact Bool.noConfusion ((isView_of_ofSource hown).symm.trans hview)
  · intro h
    obtain ⟨left, hok, hfell⟩ := removeRemoteSource_ok w h.tenant h.name
    refine ⟨_, hok, (removesExactly_purge hfree hregistry).mpr ⟨fun r => ?_, fun v => ?_⟩⟩
    · have hsame : left = w.relations := by
        refine hfell.unused fun r hr hview l hl ⟨v, hv, hreached, hforeign⟩ => ?_
        exact h.unused v hv ((h.servers v hv).symm.trans hreached) r hr hview l hl hforeign
      rw [hsame]
      exact ⟨fun hr => ⟨hr, h.relations r hr⟩, And.left⟩
    · rw [List.mem_filter]
      refine and_congr_right fun hv => ?_
      rw [h.servers v hv, Bool.not_eq_true']

theorem exact_iff_unstored (hfree : Unreferenced w s) : RemovesExactly w (purge w s.id) s ↔ Unstored w s := by
  refine (removesExactly_purge hfree fun _ _ => Iff.rfl).trans ⟨fun h => ⟨fun r hr => ?_, fun v hv => ?_⟩, fun h => ?_⟩
  · exact ((h.1 r).mp hr).2
  · exact ((h.2 v).mp hv).2
  · exact ⟨fun r => ⟨fun hr => ⟨hr, h.relations r hr⟩, And.left⟩,
      fun v => ⟨fun hv => ⟨hv, h.servers v hv⟩, And.left⟩⟩

theorem dropStored_references (h : dropStored w s s.tenantId = .ok w') : w'.references = w.references := by
  unfold dropStored at h
  split_ifs at h with hvirtual hsync
  · by_cases hvalid : tenantIdRe s.tenantId = true ∧ sourceNameRe s.name = true
    · obtain ⟨left, hok, _⟩ := removeRemoteSource_ok w hvalid.1 hvalid.2
      rw [← Except.ok.inj (h.symm.trans hok).symm]
    · unfold removeRemoteSource at h
      split_ifs at h with ht hn
      all_goals simp_all
  · obtain ⟨_, left, _, rfl⟩ := dropCatalogTables_ok h
    rfl
  · rw [← Except.ok.inj h]

/-- Removing a source removes exactly its own data when what the removal reaches in the hub is
what the source has put there, and no row refers to the source. -/
theorem removeSource_iff
    (hs : w.sources.find? (fun ds => ds.id = s.id && ds.tenantId = s.tenantId) = some s) :
    (∃ w', removeSource w s.id s.tenantId = .ok w' ∧ RemovesExactly w w' s) ↔ Removable w s := by
  have hresult : (∃ w', removeSource w s.id s.tenantId = .ok w' ∧ RemovesExactly w w' s) ↔
      Unreferenced w s ∧ ∃ w', dropStored w s s.tenantId = .ok w' ∧ RemovesExactly w (purge w' s.id) s := by
    unfold removeSource
    rw [hs]
    constructor
    · rintro ⟨w', hok, h⟩
      obtain ⟨mid, hmid, hlast⟩ := bind_ok hok
      obtain ⟨hfree, rfl⟩ := deregister_ok_iff.mp hlast
      unfold Unreferenced at hfree
      rw [dropStored_references hmid] at hfree
      exact ⟨hfree, mid, hmid, h⟩
    · rintro ⟨hfree, mid, hmid, h⟩
      refine ⟨purge mid s.id, ?_, h⟩
      dsimp only
      rw [hmid, ok_bind]
      refine deregister_ok_iff.mpr ⟨?_, rfl⟩
      unfold Unreferenced
      rwa [dropStored_references hmid]
  rw [hresult]
  refine and_congr_right fun hfree => ?_
  unfold dropStored
  by_cases hsync : s.syncType = .SYNC
  · have hvirtual : ¬ (s.syncType = .VIRTUAL ∧ s.type = "postgres") := by simp [hsync]
    rw [if_neg hvirtual, if_pos hsync, if_pos hsync]
    exact ⟨fun ⟨w', hdrops, h⟩ => byCatalog_of_exact hfree hdrops h, exact_of_byCatalog hfree⟩
  · rw [if_neg hsync, if_neg hsync]
    by_cases hvirtual : s.syncType = .VIRTUAL ∧ s.type = "postgres"
    · rw [if_pos hvirtual, if_pos hvirtual]
      exact exact_iff_byRegistry hfree
    · rw [if_neg hvirtual, if_neg hvirtual, ← exact_iff_unstored hfree]
      exact ⟨fun ⟨w', hok, h⟩ => Except.ok.inj hok ▸ h, fun h => ⟨w, rfl, h⟩⟩

end Removal

def warehouse : DataSource := ⟨"s1", "acme", "warehouse", "postgres", .VIRTUAL⟩

def crm : DataSource := ⟨"s2", "acme", "crm", "postgres", .SYNC⟩

/-- The CRM has a table `orders`, as the tenant has in its own schema. -/
def acmeHub : Fabric where
  sources := [warehouse, crm]
  schemas := [⟨"c1", some "s1", "public"⟩, ⟨"c2", some "s2", "public"⟩]
  tables := [⟨"c1", "stock"⟩, ⟨"c2", "orders"⟩]
  relations := [.own "tenant_acme" "orders" false [], .replica "acme" "crm" "public" "orders",
    .landing "acme" "crm" "orders"]
  servers := [⟨"server_acme__warehouse", "acme", "warehouse", ["stock"]⟩]
  registry := [⟨"server_acme__warehouse", "acme", "warehouse"⟩]
  references := []

theorem removeSource_iff_warehouse :
    (∃ w', removeSource acmeHub warehouse.id warehouse.tenantId = .ok w' ∧
      RemovesExactly acmeHub w' warehouse) ↔ Removable acmeHub warehouse :=
  removeSource_iff (by decide)

/-- Removing the CRM drops the tenant's own table and keeps the replica. -/
theorem crm_removal_not_exact :
    ¬ ∃ w', removeSource acmeHub crm.id crm.tenantId = .ok w' ∧ RemovesExactly acmeHub w' crm := by
  rintro ⟨w', hok, h⟩
  have hown : (removeSource acmeHub crm.id crm.tenantId).toOption.all
      (fun w => decide (.own "tenant_acme" "orders" false [] ∉ w.relations)) = true := by decide
  rw [hok] at hown
  exact of_decide_eq_true hown ((h.relations _).mpr ⟨List.mem_cons_self, rfl⟩)

end DataFabric.SourceRemoval
