import Mathlib.Algebra.Order.BigOperators.Group.List
import Mathlib.Algebra.Order.Group.Nat
import Mathlib.Data.List.ProdSigma
import DataFabric.ExceptRules
import DataFabric.ManifestIssues

set_option autoImplicit false

/-!
# Grants of a table

`security.grants` is translated twice, into `GRANT` statements for PostgreSQL and into the rules
that decide on every engine without privileges of its own.
-/
namespace DataFabric.TableGrants
open CharText TenantIdentifiers ManifestIssues ExceptRules

inductive Privilege
  | SELECT | INSERT | UPDATE | DELETE
  deriving DecidableEq, Repr

def Privilege.name : Privilege → String
  | SELECT => "SELECT"
  | INSERT => "INSERT"
  | UPDATE => "UPDATE"
  | DELETE => "DELETE"

structure Grant where
  role : Option String
  roles : Option (List String)
  privileges : List String

def privilegeNames : List String :=
  ["SELECT", "INSERT", "UPDATE", "DELETE", "TRUNCATE", "REFERENCES", "TRIGGER", "ALL",
    "ALL PRIVILEGES", "USAGE"]

def validatePrivilege (p path : String) : List ManifestIssue :=
  if upperCase p ∈ privilegeNames then []
  else [⟨"INVALID_GRANT", path, s!"privilege \"{HubReplicas.printable p 20}\" not allowed"⟩]

def validateGrant (g : Grant) (path : String) : List ManifestIssue :=
  (match g.role with
    | none => []
    | some r => role r (path ++ ".role")) ++
  (g.roles.getD []).zipIdx.flatMap (fun (r, j) => role r s!"{path}.roles[{j}]") ++
  if g.privileges = [] then
    [⟨"INVALID_GRANT", path ++ ".privileges", "privileges must be a non-empty array"⟩]
  else g.privileges.zipIdx.flatMap fun (p, j) => validatePrivilege p s!"{path}.privileges[{j}]"

def validateGrants (grants : List Grant) (path : String) : List ManifestIssue :=
  grants.zipIdx.flatMap fun (g, i) => validateGrant g s!"{path}.grants[{i}]"

structure GrantRule where
  role : Option String
  privileges : List String

structure Decision where
  allowed : Bool
  governed : Bool

def Unrestricted (r : String) : Prop := r = "ADMIN" ∨ r = "SYSTEM"

instance (r : String) : Decidable (Unrestricted r) := inferInstanceAs (Decidable (_ ∨ _))

def roleKey (role : Option String) : String := upperCase (role.getD "")

def GrantRule.allows (g : GrantRule) (r : String) (privilege : Privilege) : Bool :=
  roleKey g.role = r && (g.privileges.map upperCase).contains privilege.name

def GrantService.decide (grants : List GrantRule) (role : Option String) (privilege : Privilege) :
    Decision :=
  if grants.isEmpty then ⟨true, false⟩
  else if Unrestricted (roleKey role) then ⟨true, true⟩
  else ⟨grants.any (·.allows (roleKey role) privilege), true⟩

def storedGrants (grants : List Grant) : List GrantRule :=
  grants.map fun g => ⟨g.role, g.privileges⟩

inductive Grantee
  | PUBLIC
  | role (name : String)
  deriving DecidableEq, Repr

inductive Statement
  | createRole (name : String)
  | grant (privileges : List String) (to_ : List Grantee)
  deriving DecidableEq, Repr

/-- `/^(postgres|fabric_admin|authenticator|web_anon|pg_.*|citus.*)$/i` -/
def reservedRole (r : String) : Bool :=
  matchesAnyName ["postgres", "fabric_admin", "authenticator", "web_anon"] ["pg_", "citus"] r

def roleRef (role : String) : Except FabricError Grantee :=
  if upperCase role = "PUBLIC" then .ok .PUBLIC
  else do
    let r ← assertIdent (.str role) "role"
    if reservedRole r then
      .error (.invalidRequest "RESERVED_ROLE" s!"Role \"{r}\" cannot be used in a manifest")
    else .ok (.role r)

def createRoleSql (role : String) : Except FabricError Statement :=
  (roleRef role).map fun
    | .PUBLIC => .createRole "PUBLIC"
    | .role r => .createRole r

def grantPrivilege (p : String) : Except FabricError String :=
  if upperCase p ∈ privilegeNames then .ok (upperCase p)
  else .error (.invalidRequest "INVALID_GRANT"
    s!"Unsupported privilege \"{HubReplicas.printable p 20}\"")

def Grant.roleList (g : Grant) : List String :=
  g.roles.getD (match g.role with
    | none => []
    | some r => if r = "" then [] else [r])

/-- The names a statement grants to, as the entry writes them. -/
def Grant.grantees (g : Grant) : List String :=
  if g.role = some "PUBLIC" then ["PUBLIC"] else g.roleList

def compileGrant (g : Grant) : Except FabricError (List Statement) := do
  let created := if g.role = some "PUBLIC" then g.roles.getD [] else g.roleList
  let roles ← (created.filter fun r => upperCase r ≠ "PUBLIC").mapM createRoleSql
  let grantees ← g.grantees.mapM roleRef
  if grantees = [] then .error (.invalidRequest "INVALID_GRANT" "grant needs a role")
  else do
    let privileges ← g.privileges.mapM grantPrivilege
    .ok (roles ++ [.grant privileges grantees])

def compileGrants (grants : List Grant) : Except FabricError (List Statement) :=
  (grants.mapM compileGrant).map List.flatten

def tablePrivileges : List String :=
  ["SELECT", "INSERT", "UPDATE", "DELETE", "TRUNCATE", "REFERENCES", "TRIGGER"]

/-- `ALL` stands alone in a statement, and `USAGE` is no privilege of a table. -/
def expandPrivileges (privileges : List String) : Option (List String) :=
  if privileges = ["ALL"] ∨ privileges = ["ALL PRIVILEGES"] then some tablePrivileges
  else if privileges ≠ [] ∧ ∀ p ∈ privileges, p ∈ tablePrivileges then some privileges
  else none

abbrev Acl := List (Grantee × String)

def execute (acl : Acl) : Statement → Option Acl
  | .createRole _ => some acl
  | .grant privileges grantees =>
    (expandPrivileges privileges).map fun given => acl ++ grantees.product given

/-- The privileges on the table after its statements ran, none when one is refused. -/
def postgresGrants (grants : List Grant) : Option Acl :=
  match compileGrants grants with
  | .error _ => none
  | .ok statements => statements.foldlM execute []

/-- The role holds the privilege itself or through `PUBLIC`. -/
def Acl.gives (acl : Acl) (role : Option String) (privilege : Privilege) : Prop :=
  (Grantee.PUBLIC, privilege.name) ∈ acl ∨
    ∃ name session, (Grantee.role name, privilege.name) ∈ acl ∧ role = some session ∧
      upperCase name = upperCase session

namespace Grant

def Lists (g : Grant) (p : Privilege) : Prop := p.name ∈ g.privileges.map upperCase

def Covers (g : Grant) (p : Privilege) : Prop :=
  g.Lists p ∨ "ALL" ∈ g.privileges.map upperCase ∨ "ALL PRIVILEGES" ∈ g.privileges.map upperCase

end Grant

/-- The `role` of the entries that list a privilege are, up to case, the roles granted it. -/
@[mk_iff] structure Aligned (grants : List Grant) : Prop where
  restricted : ∀ g ∈ grants, ∀ p, g.Covers p → ∀ n ∈ g.grantees, upperCase n ≠ "PUBLIC"
  granted : ∀ g ∈ grants, ∀ p, g.Lists p → ∃ r, g.role = some r ∧
    (Unrestricted (upperCase r) ∨
      ∃ g' ∈ grants, g'.Covers p ∧ ∃ n ∈ g'.grantees, upperCase n = upperCase r)
  stored : ∀ g ∈ grants, ∀ p, g.Covers p → ∀ n ∈ g.grantees, Unrestricted (upperCase n) ∨
    ∃ g' ∈ grants, g'.Lists p ∧ ∃ r, g'.role = some r ∧ upperCase r = upperCase n

theorem mem_execute {acl acl' : Acl} {statement : Statement} (h : execute acl statement = some acl')
    (e : Grantee × String) :
    e ∈ acl' ↔ e ∈ acl ∨ ∃ privileges grantees given, statement = .grant privileges grantees ∧
      expandPrivileges privileges = some given ∧ e.1 ∈ grantees ∧ e.2 ∈ given := by
  cases statement with
  | createRole name =>
    cases h
    simp
  | grant privileges grantees =>
    obtain ⟨given, hgiven, rfl⟩ := Option.map_eq_some_iff.mp h
    obtain ⟨grantee, p⟩ := e
    rw [List.mem_append, List.pair_mem_product]
    constructor
    · intro hmem
      exact hmem.imp_right fun hnew => ⟨_, _, given, rfl, hgiven, hnew⟩
    · rintro (hold | ⟨_, _, given', hst, hgiven', hnew⟩)
      · exact .inl hold
      · cases hst
        cases hgiven.symm.trans hgiven'
        exact .inr hnew

theorem mem_executeAll {statements : List Statement} {acl acl' : Acl}
    (h : statements.foldlM execute acl = some acl') (e : Grantee × String) :
    e ∈ acl' ↔ e ∈ acl ∨ ∃ privileges grantees given, .grant privileges grantees ∈ statements ∧
      expandPrivileges privileges = some given ∧ e.1 ∈ grantees ∧ e.2 ∈ given := by
  induction statements generalizing acl with
  | nil =>
    cases h
    simp
  | cons statement statements ih =>
    rw [List.foldlM_cons] at h
    obtain ⟨acl₁, hfirst, hrest⟩ := Option.bind_eq_some_iff.mp h
    rw [ih hrest, mem_execute hfirst, or_assoc]
    refine or_congr_right ?_
    constructor
    · rintro (⟨_, _, given, rfl, hnew⟩ | ⟨_, _, given, hmem, hnew⟩)
      · exact ⟨_, _, given, List.mem_cons_self, hnew⟩
      · exact ⟨_, _, given, List.mem_cons_of_mem _ hmem, hnew⟩
    · rintro ⟨_, _, given, hmem, hnew⟩
      obtain rfl | hmem := List.mem_cons.mp hmem
      · exact .inl ⟨_, _, given, rfl, hnew⟩
      · exact .inr ⟨_, _, given, hmem, hnew⟩

theorem executeAll_expands {statements : List Statement} {acl acl' : Acl}
    (h : statements.foldlM execute acl = some acl') {ps : List String} {grantees : List Grantee}
    (hmem : .grant ps grantees ∈ statements) : ∃ given, expandPrivileges ps = some given := by
  induction statements generalizing acl with
  | nil => cases hmem
  | cons statement statements ih =>
    rw [List.foldlM_cons] at h
    obtain ⟨acl₁, hfirst, hrest⟩ := Option.bind_eq_some_iff.mp h
    obtain rfl | hmem := List.mem_cons.mp hmem
    · obtain ⟨given, hgiven, -⟩ := Option.map_eq_some_iff.mp hfirst
      exact ⟨given, hgiven⟩
    · exact ih hrest hmem

theorem roleRef_public {role : String} (h : roleRef role = .ok .PUBLIC) :
    upperCase role = "PUBLIC" := by
  unfold roleRef at h
  split at h
  · assumption
  · obtain ⟨r, -, h⟩ := bind_ok h
    split at h <;> cases h

theorem roleRef_role {role name : String} (h : roleRef role = .ok (.role name)) : name = role := by
  unfold roleRef at h
  split at h
  · cases h
  · obtain ⟨r, hr, h⟩ := bind_ok h
    unfold assertIdent at hr
    split at h
    · cases h
    · cases h
      dsimp only at hr
      split at hr
      · exact (Except.ok.inj hr).symm
      · cases hr

theorem roleRef_of_public {role : String} (h : upperCase role = "PUBLIC") :
    roleRef role = .ok .PUBLIC := if_pos h

theorem roleRef_cases {role : String} {grantee : Grantee} (h : roleRef role = .ok grantee) :
    (grantee = .PUBLIC ∧ upperCase role = "PUBLIC") ∨ grantee = .role role := by
  cases grantee with
  | PUBLIC => exact .inl ⟨rfl, roleRef_public h⟩
  | role name => exact .inr (by rw [roleRef_role h])

theorem mapM_upper {privileges ps : List String} (h : privileges.mapM grantPrivilege = .ok ps) :
    ps = privileges.map upperCase := by
  induction privileges generalizing ps with
  | nil =>
    rw [List.mapM_nil] at h
    cases h
    rfl
  | cons p rest ih =>
    rw [List.mapM_cons] at h
    obtain ⟨q, hq, h⟩ := bind_ok h
    obtain ⟨qs, hqs, h⟩ := bind_ok h
    cases h
    unfold grantPrivilege at hq
    split at hq
    · cases hq
      rw [ih hqs, List.map_cons]
    · cases hq

theorem createRole_only {role : String} {statement : Statement}
    (h : createRoleSql role = .ok statement) (ps : List String) (to_ : List Grantee) :
    statement ≠ .grant ps to_ := by
  rintro rfl
  obtain ⟨grantee, -, h⟩ := map_ok h
  cases grantee <;> cases h

theorem mem_compileGrant {g : Grant} {statements : List Statement}
    (h : compileGrant g = .ok statements) (ps : List String) (grantees : List Grantee) :
    .grant ps grantees ∈ statements ↔
      ps = g.privileges.map upperCase ∧ g.grantees.mapM roleRef = .ok grantees := by
  obtain ⟨roles, hroles, h⟩ := bind_ok h
  obtain ⟨gs, hgs, h⟩ := bind_ok h
  split at h
  · cases h
  obtain ⟨privileges, hprivileges, h⟩ := bind_ok h
  cases h
  have hcreated : .grant ps grantees ∉ roles := by
    intro hmem
    obtain ⟨r, -, hr⟩ := (mem_mapM_ok hroles _).mp hmem
    exact createRole_only hr ps grantees rfl
  rw [List.mem_append, List.mem_singleton, Statement.grant.injEq, mapM_upper hprivileges, hgs]
  simp [hcreated, eq_comm]

theorem compileGrants_cases {grants : List Grant} {statements : List Statement}
    (h : compileGrants grants = .ok statements) {ps : List String} {grantees : List Grantee}
    (hmem : .grant ps grantees ∈ statements) :
    ∃ g ∈ grants, ps = g.privileges.map upperCase ∧ g.grantees.mapM roleRef = .ok grantees := by
  obtain ⟨parts, hparts, rfl⟩ := map_ok h
  obtain ⟨part, hpart, hmem⟩ := List.mem_flatten.mp hmem
  obtain ⟨g, hg, hcompile⟩ := (mem_mapM_ok hparts part).mp hpart
  exact ⟨g, hg, (mem_compileGrant hcompile ps grantees).mp hmem⟩

theorem compileGrants_grant {grants : List Grant} {statements : List Statement}
    (h : compileGrants grants = .ok statements) {g : Grant} (hg : g ∈ grants) :
    ∃ grantees, g.grantees.mapM roleRef = .ok grantees ∧
      .grant (g.privileges.map upperCase) grantees ∈ statements := by
  obtain ⟨parts, hparts, rfl⟩ := map_ok h
  obtain ⟨part, hcompile, hpart⟩ := mapM_ok_of_mem hparts hg
  obtain ⟨grantees, hrefs⟩ : ∃ grantees, g.grantees.mapM roleRef = .ok grantees := by
    obtain ⟨roles, -, hrest⟩ := bind_ok hcompile
    obtain ⟨grantees, hrefs, -⟩ := bind_ok hrest
    exact ⟨grantees, hrefs⟩
  have hmem := (mem_compileGrant hcompile _ grantees).mpr ⟨rfl, hrefs⟩
  exact ⟨grantees, hrefs, List.mem_flatten.mpr ⟨part, hpart, hmem⟩⟩

theorem mem_expandPrivileges {ps given : List String} (h : expandPrivileges ps = some given)
    (p : Privilege) :
    p.name ∈ given ↔ p.name ∈ ps ∨ "ALL" ∈ ps ∨ "ALL PRIVILEGES" ∈ ps := by
  unfold expandPrivileges at h
  split at h
  · cases h
    rename_i hall
    obtain rfl | rfl := hall <;> cases p <;> decide
  · split at h
    · cases h
      rename_i hps
      have hall : "ALL" ∉ ps := fun hmem => absurd (hps.2 _ hmem) (by decide)
      have halls : "ALL PRIVILEGES" ∉ ps := fun hmem => absurd (hps.2 _ hmem) (by decide)
      simp [hall, halls]
    · cases h

def Grant.Reaches (g : Grant) (role : Option String) : Prop :=
  ∃ n ∈ g.grantees, upperCase n = "PUBLIC" ∨ ∃ session, role = some session ∧
    upperCase n = upperCase session

theorem mem_postgresGrants {grants : List Grant} {acl : Acl} (h : postgresGrants grants = some acl)
    (grantee : Grantee) (p : Privilege) :
    (grantee, p.name) ∈ acl ↔
      ∃ g ∈ grants, g.Covers p ∧ ∃ n ∈ g.grantees, roleRef n = .ok grantee := by
  unfold postgresGrants at h
  split at h
  · cases h
  rename_i statements hstatements
  have hmem := mem_executeAll h (grantee, p.name)
  rw [hmem]
  constructor
  · rintro (hnil | ⟨ps, grantees, given, hst, hgiven, hgrantee, hp⟩)
    · cases hnil
    · obtain ⟨g, hg, rfl, hrefs⟩ := compileGrants_cases hstatements hst
      exact ⟨g, hg, (mem_expandPrivileges hgiven p).mp hp, (mem_mapM_ok hrefs grantee).mp hgrantee⟩
  · rintro ⟨g, hg, hcovers, n, hn, href⟩
    obtain ⟨grantees, hrefs, hst⟩ := compileGrants_grant hstatements hg
    obtain ⟨given, hgiven⟩ := executeAll_expands h hst
    have hgrantee := (mem_mapM_ok hrefs grantee).mpr ⟨n, hn, href⟩
    exact .inr ⟨_, grantees, given, hst, hgiven, hgrantee, (mem_expandPrivileges hgiven p).mpr hcovers⟩

theorem roleRef_of_mem {grants : List Grant} {acl : Acl} (h : postgresGrants grants = some acl)
    {g : Grant} (hg : g ∈ grants) {n : String} (hn : n ∈ g.grantees) :
    ∃ grantee, roleRef n = .ok grantee := by
  unfold postgresGrants at h
  split at h
  · cases h
  rename_i statements hstatements
  obtain ⟨grantees, hrefs, -⟩ := compileGrants_grant hstatements hg
  obtain ⟨grantee, href, -⟩ := mapM_ok_of_mem hrefs hn
  exact ⟨grantee, href⟩

theorem gives_iff {grants : List Grant} {acl : Acl} (h : postgresGrants grants = some acl)
    (role : Option String) (p : Privilege) :
    acl.gives role p ↔ ∃ g ∈ grants, g.Covers p ∧ g.Reaches role := by
  unfold Acl.gives
  rw [mem_postgresGrants h]
  constructor
  · rintro (⟨g, hg, hcovers, n, hn, href⟩ | ⟨name, session, hmem, hrole, hname⟩)
    · exact ⟨g, hg, hcovers, n, hn, .inl (roleRef_public href)⟩
    · obtain ⟨g, hg, hcovers, n, hn, href⟩ := (mem_postgresGrants h _ p).mp hmem
      obtain rfl := roleRef_role href
      exact ⟨g, hg, hcovers, name, hn, .inr ⟨session, hrole, hname⟩⟩
  · rintro ⟨g, hg, hcovers, n, hn, hreach⟩
    obtain ⟨grantee, href⟩ := roleRef_of_mem h hg hn
    obtain ⟨rfl, hpublic⟩ | rfl := roleRef_cases href
    · exact .inl ⟨g, hg, hcovers, n, hn, href⟩
    · obtain hpublic | ⟨session, hrole, hname⟩ := hreach
      · cases (roleRef_of_public hpublic).symm.trans href
      · exact .inr ⟨n, session, (mem_postgresGrants h _ p).mpr ⟨g, hg, hcovers, n, hn, href⟩,
          hrole, hname⟩

theorem decide_iff {grants : List Grant} (hne : grants ≠ []) {role : Option String}
    (hrole : ¬Unrestricted (roleKey role)) (p : Privilege) :
    (GrantService.decide (storedGrants grants) role p).allowed = true ↔
      ∃ g ∈ grants, roleKey g.role = roleKey role ∧ g.Lists p := by
  have hstored : (storedGrants grants).isEmpty = false := by
    cases grants with
    | nil => exact absurd rfl hne
    | cons g gs => rfl
  unfold GrantService.decide
  rw [hstored, if_neg Bool.false_ne_true, if_neg hrole]
  simp [storedGrants, GrantRule.allows, Grant.Lists]

theorem upperChar_ne_nil (c : Char) : upperChar c ≠ [] := by
  unfold upperChar
  cases h : asciiUppers.lookup c.toNat with
  | none => exact List.cons_ne_nil _ _
  | some cs =>
    obtain ⟨before, after, hsplit, -⟩ := List.lookup_eq_some_iff.mp h
    have hmem : (c.toNat, cs) ∈ asciiUppers := by
      rw [hsplit]
      exact List.mem_append_right _ List.mem_cons_self
    exact (by decide : ∀ entry ∈ asciiUppers, entry.2 ≠ []) _ hmem

theorem upperCase_ne_empty {s : String} (h : s ≠ "") : upperCase s ≠ "" := by
  intro hempty
  have hchars : s.toList.flatMap upperChar = [] := by
    have := congrArg String.toList hempty
    rwa [upperCase, String.toList_ofList] at this
  rw [List.flatMap_eq_nil_iff] at hchars
  cases hs : s.toList with
  | nil => exact h (String.toList_inj.mp hs)
  | cons c cs => exact upperChar_ne_nil c (hchars c (hs ▸ List.mem_cons_self))

theorem upperCase_replicate (n : ℕ) :
    upperCase (String.ofList (List.replicate n 'X')) = String.ofList (List.replicate n 'X') := by
  have hchars : (List.replicate n 'X').flatMap upperChar = List.replicate n 'X' := by
    induction n with
    | zero => rfl
    | succ n ih => rw [List.replicate_succ, List.flatMap_cons, ih]; rfl
  rw [upperCase, String.toList_ofList, hchars]

theorem exists_fresh (names : List String) : ∃ s, upperCase s ∉ names := by
  let k := (names.map String.length).sum + 1
  refine ⟨String.ofList (List.replicate k 'X'), fun hmem => ?_⟩
  rw [upperCase_replicate] at hmem
  have hle : (String.ofList (List.replicate k 'X')).length ≤ (names.map String.length).sum :=
    List.le_sum_of_mem (List.mem_map_of_mem hmem)
  rw [String.length_ofList, List.length_replicate] at hle
  omega

theorem validateGrants_mem {grants : List Grant} {path : String} (h : validateGrants grants path = [])
    {g : Grant} (hg : g ∈ grants) : ∃ path', validateGrant g path' = [] := by
  obtain ⟨i, hi⟩ := List.mem_iff_getElem?.mp hg
  have hmem : (g, i) ∈ grants.zipIdx := List.mem_zipIdx_iff_getElem?.mpr hi
  exact ⟨_, List.flatMap_eq_nil_iff.mp h (g, i) hmem⟩

theorem accepted_role {g : Grant} {path : String} (h : validateGrant g path = []) {r : String}
    (hr : g.role = some r) : r ≠ "" := by
  have hrole := (List.append_eq_nil_iff.mp (List.append_eq_nil_iff.mp h).1).1
  rw [hr] at hrole
  exact role_ne_empty hrole

theorem accepted_grantee {g : Grant} {path : String} (h : validateGrant g path = []) {n : String}
    (hn : n ∈ g.grantees) : n ≠ "" := by
  have hroles := (List.append_eq_nil_iff.mp (List.append_eq_nil_iff.mp h).1).2
  unfold Grant.grantees Grant.roleList at hn
  split at hn
  · rintro rfl
    simp at hn
  cases hlist : g.roles with
  | none =>
    rw [hlist] at hn
    cases hrole : g.role with
    | none => simp [hrole] at hn
    | some r =>
      have hne := accepted_role h hrole
      rw [hrole] at hn
      simp only [Option.getD_none, if_neg hne, List.mem_singleton] at hn
      rwa [hn]
  | some rs =>
    rw [hlist, Option.getD_some] at hn hroles
    obtain ⟨i, hi⟩ := List.mem_iff_getElem?.mp hn
    exact role_ne_empty (List.flatMap_eq_nil_iff.mp hroles (n, i) (List.mem_zipIdx_iff_getElem?.mpr hi))

section
variable {grants : List Grant} {acl : Acl} {path : String}
variable (hne : grants ≠ []) (hvalid : validateGrants grants path = [])
  (hacl : postgresGrants grants = some acl)

def SameDecisions (grants : List Grant) (acl : Acl) : Prop :=
  ∀ role privilege, ¬Unrestricted (roleKey role) →
    ((GrantService.decide (storedGrants grants) role privilege).allowed = true ↔
      acl.gives role privilege)

include hne hvalid hacl

theorem same_of_aligned (h : Aligned grants) : SameDecisions grants acl := by
  intro role p hrole
  rw [decide_iff hne hrole, gives_iff hacl]
  constructor
  · rintro ⟨g, hg, hkey, hlists⟩
    obtain ⟨r, hr, hunrestricted | ⟨g', hg', hcovers, n, hn, hname⟩⟩ := h.granted g hg p hlists
    · rw [← hkey, roleKey, hr] at hrole
      exact absurd hunrestricted hrole
    · obtain ⟨path', hvalid'⟩ := validateGrants_mem hvalid hg
      have hkey' : upperCase r = roleKey role := by rw [← hkey, roleKey, hr, Option.getD_some]
      cases role with
      | none => exact absurd hkey' (upperCase_ne_empty (accepted_role hvalid' hr))
      | some session => exact ⟨g', hg', hcovers, n, hn, .inr ⟨session, rfl, hname.trans hkey'⟩⟩
  · rintro ⟨g, hg, hcovers, n, hn, hpublic | ⟨session, rfl, hname⟩⟩
    · exact absurd hpublic (h.restricted g hg p hcovers n hn)
    · obtain hunrestricted | ⟨g', hg', hlists, r, hr, hstored⟩ := h.stored g hg p hcovers n hn
      · rw [hname] at hunrestricted
        exact absurd hunrestricted hrole
      · refine ⟨g', hg', ?_, hlists⟩
        rw [roleKey, hr, Option.getD_some, hstored, hname]
        rfl

theorem aligned_of_same (h : SameDecisions grants acl) : Aligned grants := by
  have hsame : ∀ role p, ¬Unrestricted (roleKey role) →
      ((∃ g ∈ grants, roleKey g.role = roleKey role ∧ g.Lists p) ↔
        ∃ g ∈ grants, g.Covers p ∧ g.Reaches role) := by
    intro role p hrole
    rw [← decide_iff hne hrole, ← gives_iff hacl]
    exact h role p hrole
  -- a role nobody names would be let in by `PUBLIC` on one side only
  have hpublic : ∀ g ∈ grants, ∀ p, g.Covers p → ∀ n ∈ g.grantees, upperCase n ≠ "PUBLIC" := by
    intro g hg p hcovers n hn heq
    obtain ⟨s, hs⟩ := exists_fresh ("ADMIN" :: "SYSTEM" :: grants.map fun g => roleKey g.role)
    simp only [List.mem_cons, List.mem_map, not_or, not_exists, not_and] at hs
    obtain ⟨g', hg', hkey, -⟩ :=
      (hsame (some s) p (not_or.mpr ⟨hs.1, hs.2.1⟩)).mpr ⟨g, hg, hcovers, n, hn, .inl heq⟩
    exact hs.2.2 g' hg' hkey
  refine ⟨hpublic, ?_, ?_⟩
  · intro g hg p hlists
    by_cases hrole : Unrestricted (roleKey g.role)
    · cases hr : g.role with
      | none => rw [hr] at hrole; exact absurd hrole (by decide)
      | some r => rw [hr] at hrole; exact ⟨r, rfl, .inl hrole⟩
    · obtain ⟨g', hg', hcovers, n, hn, heq | ⟨r, hr, hname⟩⟩ :=
        (hsame g.role p hrole).mp ⟨g, hg, rfl, hlists⟩
      · exact absurd heq (hpublic g' hg' p hcovers n hn)
      · exact ⟨r, hr, .inr ⟨g', hg', hcovers, n, hn, hname⟩⟩
  · intro g hg p hcovers n hn
    by_cases hrole : Unrestricted (upperCase n)
    · exact .inl hrole
    · obtain ⟨path', hvalid'⟩ := validateGrants_mem hvalid hg
      obtain ⟨g', hg', hkey, hlists⟩ :=
        (hsame (some n) p hrole).mpr ⟨g, hg, hcovers, n, hn, .inr ⟨n, rfl, rfl⟩⟩
      cases hr : g'.role with
      | none =>
        rw [hr] at hkey
        exact absurd hkey.symm (upperCase_ne_empty (accepted_grantee hvalid' hn))
      | some r =>
        rw [hr] at hkey
        exact .inr ⟨g', hg', hlists, r, hr, hkey⟩

/-- The two engines decide alike for the lists whose entries name one role each, never everyone,
and list what they grant, as far as other entries do not make up for it. -/
theorem sameDecisions_iff : SameDecisions grants acl ↔ Aligned grants :=
  ⟨aligned_of_same hne hvalid hacl, same_of_aligned hne hvalid hacl⟩

end

def analystReads : Grant := ⟨some "analyst", none, ["select"]⟩

def analystsRead : Grant := ⟨none, some ["analyst"], ["SELECT"]⟩

/-- The declared role is locked out, and a session without a role is let in. -/
theorem role_list_differs :
    validateGrants [analystsRead] "security" = [] ∧
      postgresGrants [analystsRead] = some [(.role "analyst", "SELECT")] ∧
      (GrantService.decide (storedGrants [analystsRead]) (some "analyst") .SELECT).allowed = false ∧
      (GrantService.decide (storedGrants [analystsRead]) none .SELECT).allowed = true ∧
      ¬SameDecisions [analystsRead] [(.role "analyst", "SELECT")] := by
  refine ⟨by decide, by decide, by decide, by decide, fun h => ?_⟩
  have hallowed := (h (some "analyst") .SELECT (by decide)).mpr
    (.inr ⟨"analyst", "analyst", List.mem_cons_self, rfl, rfl⟩)
  exact absurd hallowed (by decide)

theorem aligned_analystReads : Aligned [analystReads] := by
  have hgrantees : analystReads.grantees = ["analyst"] := rfl
  have hcovers : ∀ p, analystReads.Covers p → analystReads.Lists p := by
    rintro p (h | h | h)
    · exact h
    · exact absurd h (by decide)
    · exact absurd h (by decide)
  simp only [aligned_iff, List.mem_singleton, forall_eq, exists_eq_left, hgrantees]
  refine ⟨fun _ _ => by decide, fun p h => ⟨"analyst", rfl, .inr ⟨.inl h, rfl⟩⟩, fun p h => ?_⟩
  exact .inr ⟨hcovers p h, "analyst", rfl, rfl⟩

theorem single_role_same : SameDecisions [analystReads] [(.role "analyst", "SELECT")] :=
  (@sameDecisions_iff [analystReads] _ "security" (by decide) (by decide) (by decide)).mpr
    aligned_analystReads

end DataFabric.TableGrants
