import DataFabric.CdcCapture
import DataFabric.HubReplicas
import DataFabric.Restores
import DataFabric.SeparatedNames

set_option autoImplicit false

/-!
# The names that progress and copies are kept under

Six encoders make one text of a schema and a table. Which pairs they tell apart is said by
the parts.
-/
namespace DataFabric.ProgressKeys
open CharText CdcCapture HubReplicas ReplicaTables Restores SeparatedNames

/-- A replication job or a sync, out of an engine; with `consumers` the changes for Elasticsearch go through Kafka. -/
inductive Copy
  | replication (job : Job) (kind : DestKind) (multiSchema : Bool) (engine : CaptureEngine) (consumers : Bool)
  | sync (tenantId : String) (engine : CaptureEngine)

structure DerivedNames where
  watermarkKey : List String
  positionKey : List String
  checkpointKey : List String
  pgLog : String
  pgFn : String
  pgTrg : String
  myLog : String
  /-- the outbox and the trigger in Oracle -/
  oracle : Option (String × String)
  /-- the Elasticsearch index of a replication into it -/
  index : Option String
  /-- the index that the consumer of the changes writes -/
  consumerIndex : Option String
  /-- the hub's schema and table of a sync -/
  hub : Option (String × String)

def oracleNames (engine : CaptureEngine) (n : Names) : Option (String × String) :=
  match engine with
  | .oracle => some (upperCase n.myLog, upperCase (n.base ++ "_cdc"))
  | .postgres | .mysql => none

def withNames (engine : CaptureEngine) (schema table : String) (watermarkKey positionKey checkpointKey : List String)
    (index consumerIndex : Option String) (hub : Option (String × String)) : DerivedNames :=
  let n := names schema table
  { watermarkKey, positionKey, checkpointKey, pgLog := n.pgLog, pgFn := n.pgFn, pgTrg := n.pgTrg, myLog := n.myLog,
    oracle := oracleNames engine n, index, consumerIndex, hub }

/-- `j.dest_schema || 'public'` -/
def consumerSchema (job : Job) : String :=
  match job.destSchema with
  | none | some "" => "public"
  | some dest => dest

def derived (c : Copy) (schema table : String) : DerivedNames :=
  match c with
  | .replication job kind multiSchema engine consumers =>
    let dest := targetSchema job multiSchema schema
    withNames engine schema table [wmKey kind dest table] [posKey kind dest table] [dest, table]
      (if kind = .es then some (esIndex dest table) else none)
      (if kind = .es ∧ job.strategy = .CDC ∧ consumers = true then some (esIndex (consumerSchema job) table) else none) none
  | .sync tenantId engine =>
    let hubSchema := hubSchemaFor tenantId schema
    withNames engine schema table [hubSchema, table] [hubSchema, table ++ "#log"] [hubSchema, table] none none
      (some (hubSchema, table))

structure AllDiffer (a b : DerivedNames) : Prop where
  watermarkKey : a.watermarkKey ≠ b.watermarkKey
  positionKey : a.positionKey ≠ b.positionKey
  checkpointKey : a.checkpointKey ≠ b.checkpointKey
  pgLog : a.pgLog ≠ b.pgLog
  pgFn : a.pgFn ≠ b.pgFn
  pgTrg : a.pgTrg ≠ b.pgTrg
  myLog : a.myLog ≠ b.myLog
  oracleLog : a.oracle.map Prod.fst = b.oracle.map Prod.fst → a.oracle = none
  oracleTrg : a.oracle.map Prod.snd = b.oracle.map Prod.snd → a.oracle = none
  index : a.index = b.index → a.index = none
  consumerIndex : a.consumerIndex = b.consumerIndex → a.consumerIndex = none
  hub : a.hub = b.hub → a.hub = none

/-- A replication that is not of several schemas covers one. -/
def Covers (c : Copy) (s₁ s₂ : String) : Prop :=
  match c with
  | .replication _ _ multiSchema _ _ => multiSchema = false → s₁ = s₂
  | .sync .. => True

def Copy.engine : Copy → CaptureEngine
  | .replication _ _ _ engine _ => engine
  | .sync _ engine => engine

/-- How a text is read in an index name, before the leading underscores go. -/
def indexRead (s : String) : List Char :=
  (s.toList.flatMap lowerChar).flatMap fun c =>
    if c.isLower || c.isDigit || c == '_' then [c] else if c.toNat < 0x10000 then ['_'] else ['_', '_']

def leadless (cs : List Char) : List Char := cs.dropWhile (· == '_')

def SameIndex (s₁ t₁ s₂ t₂ : List Char) : Prop :=
  match leadless s₁, leadless s₂ with
  | [], [] => leadless t₁ = leadless t₂
  | [], d :: ds => leadless t₁ = d :: ds ++ '_' :: t₂
  | c :: cs, [] => leadless t₂ = c :: cs ++ '_' :: t₁
  | c :: cs, d :: ds => Glued '_' (c :: cs) t₁ (d :: ds) t₂

/-- The condition on two tables, by what they are copied by. -/
def ToldApart (c : Copy) (s₁ t₁ s₂ t₂ : String) : Prop :=
  ¬ Glued '_' (safe s₁).toList (safe t₁).toList (safe s₂).toList (safe t₂).toList ∧
  (c.engine = .oracle → ¬ Glued '_' (upperCase (safe s₁)).toList (upperCase (safe t₁)).toList
    (upperCase (safe s₂)).toList (upperCase (safe t₂)).toList) ∧
  match c with
  | .sync .. => t₁ ≠ t₂ ∨ keepOnly isWord s₁ ≠ keepOnly isWord s₂
  | .replication job kind multiSchema _ consumers =>
    let d₁ := targetSchema job multiSchema s₁
    let d₂ := targetSchema job multiSchema s₂
    match kind with
    | .pg | .snowflake => t₁ ≠ t₂
    | .mysql | .mongo | .oracle => t₁ ≠ t₂ ∧ ¬ Glued '.' d₁.toList t₁.toList d₂.toList t₂.toList
    | .es => ¬ SameIndex (indexRead d₁) (indexRead t₁) (indexRead d₂) (indexRead t₂) ∧
      (job.strategy = .CDC ∧ consumers = true →
        let d := indexRead (consumerSchema job)
        ¬ SameIndex d (indexRead t₁) d (indexRead t₂))

section

variable {s₁ t₁ s₂ t₂ : String}

theorem join_toList (sep s t : String) : (s ++ sep ++ t).toList = s.toList ++ sep.toList ++ t.toList := by
  rw [String.toList_append, String.toList_append]

theorem base_eq_iff : (names s₁ t₁).base = (names s₂ t₂).base ↔
    Glued '_' (safe s₁).toList (safe t₁).toList (safe s₂).toList (safe t₂).toList := by
  have whole (s t : String) : (names s t).base.toList = (safe s).toList ++ '_' :: (safe t).toList := by
    change (safe s ++ "_" ++ safe t).toList = _
    rw [join_toList, List.append_assoc]
    rfl
  rw [glued_iff, ← whole, ← whole, String.toList_inj]

theorem upperCase_append (s t : String) : upperCase (s ++ t) = upperCase s ++ upperCase t := by
  unfold upperCase
  rw [String.toList_append, List.flatMap_append, String.ofList_append]

theorem upper_base_eq_iff : upperCase (names s₁ t₁).base = upperCase (names s₂ t₂).base ↔
    Glued '_' (upperCase (safe s₁)).toList (upperCase (safe t₁)).toList (upperCase (safe s₂)).toList
      (upperCase (safe t₂)).toList := by
  have whole (s t : String) :
      (upperCase (names s t).base).toList = (upperCase (safe s)).toList ++ '_' :: (upperCase (safe t)).toList := by
    change (upperCase (safe s ++ "_" ++ safe t)).toList = _
    rw [upperCase_append, upperCase_append, join_toList, List.append_assoc]
    rfl
  rw [glued_iff, ← whole, ← whole, String.toList_inj]

theorem oracleLog_eq_iff : upperCase (names s₁ t₁).myLog = upperCase (names s₂ t₂).myLog ↔
    upperCase (names s₁ t₁).base = upperCase (names s₂ t₂).base := by
  have whole (s t : String) : upperCase (names s t).myLog =
      upperCase "fabric_cdc_" ++ upperCase (names s t).base ++ upperCase "_chg" := by
    rw [← upperCase_append, ← upperCase_append]
    rfl
  rw [whole, whole, String.append_left_inj, String.append_right_inj]

theorem oracleTrg_eq_iff : upperCase ((names s₁ t₁).base ++ "_cdc") = upperCase ((names s₂ t₂).base ++ "_cdc") ↔
    upperCase (names s₁ t₁).base = upperCase (names s₂ t₂).base := by
  rw [upperCase_append, upperCase_append, String.append_left_inj]

theorem oracleNames_differ_iff {engine : CaptureEngine} :
    ((oracleNames engine (names s₁ t₁)).map Prod.fst = (oracleNames engine (names s₂ t₂)).map Prod.fst →
      oracleNames engine (names s₁ t₁) = none) ∧
    ((oracleNames engine (names s₁ t₁)).map Prod.snd = (oracleNames engine (names s₂ t₂)).map Prod.snd →
      oracleNames engine (names s₁ t₁) = none) ↔
      (engine = .oracle → upperCase (names s₁ t₁).base ≠ upperCase (names s₂ t₂).base) := by
  cases engine with
  | postgres => exact iff_of_true ⟨fun _ => rfl, fun _ => rfl⟩ nofun
  | mysql => exact iff_of_true ⟨fun _ => rfl, fun _ => rfl⟩ nofun
  | oracle =>
    unfold oracleNames
    simp only [Option.map_some, Option.some.injEq, oracleLog_eq_iff, oracleTrg_eq_iff, reduceCtorEq, imp_false, and_self,
      forall_const, ne_eq]

theorem dotted_eq_iff : s₁ ++ "." ++ t₁ = s₂ ++ "." ++ t₂ ↔ Glued '.' s₁.toList t₁.toList s₂.toList t₂.toList := by
  have whole (s t : String) : (s ++ "." ++ t).toList = s.toList ++ '.' :: t.toList := by
    rw [join_toList, List.append_assoc]
    rfl
  rw [glued_iff, ← whole, ← whole, String.toList_inj]

theorem leadless_append (cs ds : List Char) :
    leadless (cs ++ '_' :: ds) = if leadless cs = [] then leadless ds else leadless cs ++ '_' :: ds := by
  unfold leadless
  rw [List.dropWhile_append]
  simp only [List.isEmpty_iff]
  split_ifs
  · simp
  · rfl

theorem esIndex_toList (s t : String) : (esIndex s t).toList = leadless (indexRead s ++ '_' :: indexRead t) := by
  unfold esIndex indexRead leadless
  rw [String.toList_ofList, join_toList, List.flatMap_append, List.flatMap_append, List.flatMap_append,
    List.flatMap_append, List.append_assoc]
  rfl

theorem esIndex_eq_iff : esIndex s₁ t₁ = esIndex s₂ t₂ ↔
    SameIndex (indexRead s₁) (indexRead t₁) (indexRead s₂) (indexRead t₂) := by
  rw [← String.toList_inj, esIndex_toList, esIndex_toList, leadless_append, leadless_append]
  unfold SameIndex
  cases leadless (indexRead s₁) with
  | nil =>
    cases leadless (indexRead s₂) with
    | nil => simp
    | cons d ds => simp
  | cons c cs =>
    cases leadless (indexRead s₂) with
    | nil => simp [eq_comm]
    | cons d ds => simp [glued_iff]

theorem hubSchemaFor_eq_iff {tenantId : String} :
    hubSchemaFor tenantId s₁ = hubSchemaFor tenantId s₂ ↔ keepOnly isWord s₁ = keepOnly isWord s₂ :=
  String.append_right_inj _

theorem names_differ_iff {engine : CaptureEngine} {w₁ p₁ c₁ w₂ p₂ c₂ : List String} {i₁ k₁ i₂ k₂ : Option String}
    {h₁ h₂ : Option (String × String)} :
    AllDiffer (withNames engine s₁ t₁ w₁ p₁ c₁ i₁ k₁ h₁) (withNames engine s₂ t₂ w₂ p₂ c₂ i₂ k₂ h₂) ↔
      ¬ Glued '_' (safe s₁).toList (safe t₁).toList (safe s₂).toList (safe t₂).toList ∧
        (engine = .oracle → ¬ Glued '_' (upperCase (safe s₁)).toList (upperCase (safe t₁)).toList
          (upperCase (safe s₂)).toList (upperCase (safe t₂)).toList) ∧
        w₁ ≠ w₂ ∧ p₁ ≠ p₂ ∧ c₁ ≠ c₂ ∧ (i₁ = i₂ → i₁ = none) ∧ (k₁ = k₂ → k₁ = none) ∧ (h₁ = h₂ → h₁ = none) := by
  rw [← base_eq_iff, ← upper_base_eq_iff]
  constructor
  · intro apart
    exact ⟨fun same => apart.pgTrg (congrArg (· ++ "_cdc") same),
      oracleNames_differ_iff.mp ⟨apart.oracleLog, apart.oracleTrg⟩, apart.watermarkKey, apart.positionKey,
      apart.checkpointKey, apart.index, apart.consumerIndex, apart.hub⟩
  · rintro ⟨base, upper, watermark, position, checkpoint, index, consumerIndex, hub⟩
    have oracle := oracleNames_differ_iff.mpr upper
    refine ⟨watermark, position, checkpoint, ?_, ?_, ?_, ?_, oracle.1, oracle.2, index, consumerIndex, hub⟩
    · exact fun same => base ((String.append_left_inj _).mp same)
    · exact fun same => base ((String.append_left_inj _).mp same)
    · exact fun same => base ((String.append_left_inj _).mp same)
    · intro same
      have tail := (String.append_left_inj "_chg").mp same
      exact base ((String.append_right_inj "fabric_cdc_").mp tail)

end

section

variable {s₁ t₁ s₂ t₂ : String}

theorem target_apart (job : Job) {multiSchema : Bool} (covered : multiSchema = false → s₁ = s₂)
    (distinct : (s₁, t₁) ≠ (s₂, t₂)) :
    [targetSchema job multiSchema s₁, t₁] ≠ [targetSchema job multiSchema s₂, t₂] := by
  intro same
  obtain ⟨schema, table⟩ : targetSchema job multiSchema s₁ = targetSchema job multiSchema s₂ ∧ t₁ = t₂ := by
    simpa using same
  apply distinct
  cases multiSchema with
  | false => rw [covered rfl, table]
  | true =>
    have kept (s : String) : targetSchema job true s = s := by
      unfold targetSchema
      cases job.destSchema <;> rfl
    rw [kept, kept] at schema
    rw [schema, table]

/-- All names that a copy derives for two of its tables differ if and only if the condition tells
the tables apart. -/
theorem derived_differ_iff {c : Copy} (covered : Covers c s₁ s₂) (distinct : (s₁, t₁) ≠ (s₂, t₂)) :
    AllDiffer (derived c s₁ t₁) (derived c s₂ t₂) ↔ ToldApart c s₁ t₁ s₂ t₂ := by
  cases c with
  | sync tenantId engine =>
    rw [derived, derived, names_differ_iff, ToldApart]
    apply and_congr_right
    intro _
    apply and_congr_right
    intro _
    have log : t₁ ++ "#log" = t₂ ++ "#log" ↔ t₁ = t₂ := String.append_left_inj _
    simp [log, hubSchemaFor_eq_iff, imp_iff_not_or, or_comm]
  | replication job kind multiSchema engine consumers =>
    rw [derived, derived, names_differ_iff, ToldApart]
    apply and_congr_right
    intro _
    apply and_congr_right
    intro _
    have checkpoint := target_apart job covered distinct
    dsimp only
    generalize targetSchema job multiSchema s₁ = d₁ at checkpoint ⊢
    generalize targetSchema job multiSchema s₂ = d₂ at checkpoint ⊢
    have position (p x y : String) : p ++ x = p ++ y ↔ x = y := String.append_right_inj _
    cases kind with
    | pg => simp [wmKey, posKey, position, checkpoint]
    | snowflake => simp [wmKey, posKey, position, checkpoint]
    | mysql => simp [wmKey, posKey, position, checkpoint, dotted_eq_iff, and_comm]
    | mongo => simp [wmKey, posKey, position, checkpoint, dotted_eq_iff, and_comm]
    | oracle =>
      have prefixed (d t : String) : wmKey .oracle d t = "ORACLE:" ++ (d ++ "." ++ t) := by
        simp only [wmKey, String.append_assoc]
      simp [prefixed, posKey, position, checkpoint, dotted_eq_iff, and_comm]
    | es =>
      by_cases consumed : job.strategy = .CDC ∧ consumers = true
      · simp [wmKey, posKey, position, checkpoint, esIndex_eq_iff, consumed]
      · have unread : ¬(DestKind.es = .es ∧ job.strategy = .CDC ∧ consumers = true) := fun h => consumed h.2
        rw [if_neg unread, if_neg unread]
        simp only [wmKey, posKey, ne_eq, List.cons.injEq, and_true, position, esIndex_eq_iff, checkpoint, not_false_eq_true,
          reduceIte, Option.some.injEq, reduceCtorEq, imp_false, implies_true, and_self, true_and, consumed,
          IsEmpty.forall_iff]

end

def mirror (strategy : Strategy) : Job := ⟨strategy, none, false⟩

theorem orders_invoices_differ : AllDiffer (derived (.replication (mirror .CDC) .pg true .oracle true) "sales" "orders")
    (derived (.replication (mirror .CDC) .pg true .oracle true) "archive" "invoices") :=
  (derived_differ_iff (by simp [Covers]) (by decide)).mpr ⟨by rw [glued_iff]; decide, fun _ => by rw [glued_iff]; decide, by decide⟩

/-- Tables of one name in two schemas share a watermark. -/
theorem orders_share_watermark : ¬ ∀ (c : Copy) (s₁ t₁ s₂ t₂ : String), Covers c s₁ s₂ → (s₁, t₁) ≠ (s₂, t₂) →
    AllDiffer (derived c s₁ t₁) (derived c s₂ t₂) := by
  intro always
  have apart := always (.replication (mirror .INCREMENTAL) .pg true .postgres false) "sales" "orders" "archive" "orders"
    (by simp [Covers]) (by decide)
  exact apart.watermarkKey (by decide)

end DataFabric.ProgressKeys
