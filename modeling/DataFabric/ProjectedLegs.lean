import DataFabric.AggregateQueries
import DataFabric.JoinedAggregates
import DataFabric.JoinedRecords
import DataFabric.RowIdentity

set_option autoImplicit false

/-!
# The columns a leg is asked for

A join across sources asks each leg for the columns that the query mentions. The rows that come
back are read by last names as well, and a last name may have answered with a column that the query
does not mention.
-/
namespace DataFabric.ProjectedLegs
open CharText JsValues OrderedRecords FederatedJoins JoinReordering Aggregates SetOperations AggregateQueries
  JoinedAggregates JoinPipelines JoinedRecords

/-- An element of a select list; a name that is missing is empty. -/
inductive SelectEntry
  | text (s : String)
  | object (aggregate column aliasName : String) (distinct window expression : Bool)
  | other
  deriving DecidableEq, Repr

/-- An element of WHERE or HAVING; `free` if it has an expression or a search. -/
structure Condition where
  column : String
  operator : String
  value : JsValue
  free : Bool
  deriving DecidableEq

structure Query where
  fromAlias : String
  joins : List Leg
  select : List SelectEntry
  conditions : List Condition
  groupBy : List GroupBy
  having : List Condition
  window : Window
  distinct : Bool
  aliased : (fromAlias :: joins.map Leg.aliasName).Nodup

namespace SelectEntry

def item : SelectEntry → SelectItem
  | .text s => .text s
  | .object aggregate column aliasName distinct _ _ =>
    if aggregate = "" then .object else .spec aggregate (some column) (some aliasName) distinct
  | .other => .object

def name : SelectEntry → String
  | .text s => s
  | .object _ column _ _ _ _ => column
  | .other => ""

def aliasName : SelectEntry → String
  | .object _ _ a _ _ _ => a
  | _ => ""

/-- The columns of an element; `none` for one that may read any column. -/
def references : SelectEntry → List (Option String)
  | .text s => [some s]
  | .object aggregate column _ _ window expression =>
    if aggregate ≠ "" then if column ≠ "" ∧ column ≠ "*" then [some column] else []
    else if column ≠ "" ∧ window = false ∧ expression = false then [some column]
    else [none]
  | .other => [none]

end SelectEntry

def splitPath (path : String) : Option (String × String) :=
  if '.' ∈ path.toList then
    some (String.ofList (path.toList.takeWhile (· ≠ '.')), String.ofList (path.toList.dropWhile (· ≠ '.')).tail)
  else none

def addRef (aliases : List String) (path : Option String) : Option (String × String) :=
  (path.bind splitPath).filter fun ref => ref.1 ∈ aliases

namespace Query

variable (q : Query)

def legAliases : List String := q.fromAlias :: q.joins.map Leg.aliasName

def selectAliases : List String := (q.select.map SelectEntry.aliasName).filter (· ≠ "")

def addColRef (col : String) : List (Option String) :=
  if '.' ∉ col.toList ∧ col ∈ q.selectAliases then [] else [some col]

def conditionRef (w : Condition) : List (Option String) :=
  if w.column ≠ "" then q.addColRef w.column else if w.free then [none] else []

def references : List (Option String) :=
  q.select.flatMap SelectEntry.references ++ q.joins.flatMap (fun lm => [some lm.on.left, some lm.on.right]) ++
    q.conditions.flatMap q.conditionRef ++ q.window.orderBy.flatMap (fun o => q.addColRef o.column) ++
      q.groupBy.flatMap (fun g => q.addColRef (gName g)) ++ q.having.flatMap q.conditionRef

def refs : List (Option (String × String)) := q.references.map (addRef q.legAliases)

def needed (a : String) : List String :=
  q.refs.filterMap fun ref => ref.bind fun r => if r.1 = a then some r.2 else none

/-- The columns of each leg, `none` for all; no projection at all if a reference cannot be tied to a leg. -/
def joinLegProjections : Option LegColumns :=
  if q.select = [] ∨ none ∈ q.refs then none
  else some fun a => if "*" ∈ q.needed a then none else some ((q.needed a).map baseColumn).eraseDups

/-- The `select` of a fetch; an empty list asks for all columns. -/
def selectFor : LegColumns := fun a => (q.joinLegProjections.bind fun proj => proj a).filter (· ≠ [])

end Query

abbrev Matcher := Bool → JsValue → JsValue → Bool

def Condition.holds (c : LooseComparison) (like : Matcher) (row : SourceRow) (w : Condition) : Bool :=
  if w.column = "" then true
  else
    let actual := readRow row w.column
    let code := operatorCode w.operator
    if code = "IN" then
      match w.value with
      | .arr vs => vs.any (sameKey actual)
      | _ => false
    else if code ∈ ["LIKE", "ILIKE"] then like (code = "ILIKE") w.value actual
    else evalOn c actual w.operator w.value

def Condition.predicate (h : Condition) : Predicate := ⟨h.column, h.operator, h.value⟩

/-- One property of the projected row, found by its name or by its last name. -/
def pickColumn (row out : SourceRow) (s : String) : SourceRow :=
  match row.get? s with
  | some v => out.assign s v
  | none =>
    match row.entries.find? fun e => e.1 = baseColumn s ∨ baseColumn e.1 = baseColumn s with
    | some e => if e.1 = "" then out else out.assign s e.2
    | none => out

def specs (select : List SelectEntry) : List String := (select.map SelectEntry.name).filter (· ≠ "")

def applyProjection (rows : List SourceRow) (select : List SelectEntry) : List SourceRow :=
  if select = [] ∨ .text "*" ∈ select ∨ specs select = [] then rows
  else rows.map fun row => (specs select).foldl (pickColumn row) Record.empty

structure Evaluation where
  engine : Engine
  like : Matcher

namespace Query

variable (q : Query) (v : Evaluation) (x : Context)

def plan : Option AggregatePlan := parseAggregates (q.select.map SelectEntry.item) q.groupBy

def passes (row : SourceRow) : Bool := q.conditions.all (Condition.holds x.comparison v.like row)

def combine (joined : List SourceRow) : List SourceRow :=
  match q.plan with
  | some plan => aggregateRaw v.engine.parseFloat joined plan
  | none =>
    let rows := applyProjection joined q.select
    if q.distinct then RowIdentity.distinctRows rows else rows

def result (P : Projection) (select : LegColumns) : List SourceRow :=
  let legs := x.arranged q.fromAlias q.joins
  let joined := (x.executeLegs P select legs.1 legs.2).filter (q.passes v x)
  applyHaving v.engine (applyOrderLimit v.engine.language q.window (q.combine v joined))
    (q.having.map Condition.predicate)

def names : List String :=
  match q.plan with
  | some plan => plan.groupCols.map gName ++ plan.aggregates.filterMap fun a => a.column.filter (· ≠ "")
  | none => specs q.select

def columns : LegColumns :=
  let legs := x.arranged q.fromAlias q.joins
  x.legColumns q.selectFor legs.1 legs.2

def kept (key : String) : Bool := q.legAliases.any fun a =>
  (afterPrefix (a ++ ".") key).any fun col => (q.columns x a).all fun cols => col ∈ cols

/-- The columns in the way have no dot in their names, and a name that a joined row lacks is not answered by
a property that its leg is not asked for. -/
structure HoldsWhen : Prop where
  plain : ∀ a ∈ q.legAliases, q.columns x a ≠ none → ∀ r ∈ x.contents a, ∀ k, r.get? k ≠ none → '.' ∈ k.toList →
    some (columnPath a k) ∉ q.references ∧ ∀ b ∈ q.legAliases, b ≠ a → ¬ OwnedBy b (columnPath a k)
  nearest : ∀ row, (let legs := x.arranged q.fromAlias q.joins; x.Combined legs.1 legs.2 row) →
    q.passes v x row = true → ∀ name ∈ q.names, row.get? name = none →
      ∀ e, row.entries.find? (fun e => baseColumn e.1 = baseColumn name) = some e → q.kept x e.1 = true

section

variable {q : Query} {x : Context}

theorem columns_some {a : String} {cols : List String} (h : q.columns x a = some cols) :
    q.selectFor a = some cols := by
  unfold columns Context.legColumns at h
  split at h
  · cases h
  · exact h

theorem selectFor_some {a : String} {cols : List String} (h : q.selectFor a = some cols) :
    none ∉ q.refs ∧ cols = ((q.needed a).map baseColumn).eraseDups ∧ cols ≠ [] := by
  unfold selectFor at h
  have ⟨hproj, hcols⟩ := Option.filter_eq_some_iff.mp h
  unfold joinLegProjections at hproj
  by_cases hbail : q.select = [] ∨ none ∈ q.refs
  · rw [if_pos hbail] at hproj
    cases hproj
  · rw [if_neg hbail, Option.bind_some] at hproj
    change (if "*" ∈ q.needed a then none else _) = some cols at hproj
    by_cases hstar : "*" ∈ q.needed a
    · rw [if_pos hstar] at hproj
      cases hproj
    · rw [if_neg hstar] at hproj
      exact ⟨fun hnone => hbail (.inr hnone), (Option.some.inj hproj).symm, of_decide_eq_true hcols⟩

theorem mem_needed {a col : String} : col ∈ q.needed a ↔ some (a, col) ∈ q.refs := by
  unfold needed
  rw [List.mem_filterMap]
  constructor
  · intro ⟨ref, href, hcol⟩
    have ⟨r, hr, hif⟩ := Option.bind_eq_some_iff.mp hcol
    split at hif
    · next ha =>
      have hpair : r = (a, col) := Prod.ext ha (Option.some.inj hif)
      rwa [hr, hpair] at href
    · cases hif
  · intro href
    exact ⟨_, href, by simp⟩

theorem dropWhile_dot {cs : List Char} (h : '.' ∈ cs) :
    cs.dropWhile (· ≠ '.') = '.' :: (cs.dropWhile (· ≠ '.')).tail := by
  induction cs with
  | nil => cases h
  | cons c cs ih =>
    by_cases hc : c = '.'
    · subst hc
      rfl
    · have hrest : '.' ∈ cs := (List.mem_cons.mp h).resolve_left fun heq => hc heq.symm
      have htest : decide (c ≠ '.') = true := decide_eq_true hc
      rw [List.dropWhile_cons, if_pos htest]
      exact ih hrest

theorem splitPath_iff {path a col : String} :
    splitPath path = some (a, col) ↔ '.' ∉ a.toList ∧ path = columnPath a col := by
  have hpath : path = columnPath a col ↔ path.toList = a.toList ++ '.' :: col.toList := by
    rw [← String.toList_inj]
    simp [columnPath]
  rw [hpath]
  unfold splitPath
  constructor
  · intro h
    split at h
    · next hdot =>
      rcases Prod.mk.inj (Option.some.inj h) with ⟨ha, hcol⟩
      rw [← ha, ← hcol, String.toList_ofList, String.toList_ofList, ← dropWhile_dot hdot,
        List.takeWhile_append_dropWhile]
      refine ⟨fun hmem => ?_, rfl⟩
      simpa using List.all_eq_true.mp List.all_takeWhile _ hmem
    · cases h
  · rintro ⟨ha, hlist⟩
    have hbefore : ∀ c ∈ a.toList, decide (c ≠ '.') = true := fun c hc =>
      decide_eq_true fun heq => ha (heq ▸ hc)
    rw [hlist, if_pos (by simp), List.takeWhile_append_of_pos hbefore, List.dropWhile_append_of_pos hbefore]
    simp

theorem addRef_iff {aliases : List String} {path : Option String} {a col : String} :
    addRef aliases path = some (a, col) ↔ a ∈ aliases ∧ '.' ∉ a.toList ∧ path = some (columnPath a col) := by
  unfold addRef
  rw [Option.filter_eq_some_iff, Option.bind_eq_some_iff]
  simp only [splitPath_iff]
  constructor
  · intro ⟨⟨p, hp, ha, hpath⟩, hknown⟩
    exact ⟨of_decide_eq_true hknown, ha, hpath ▸ hp⟩
  · intro ⟨hknown, ha, hp⟩
    exact ⟨⟨_, hp, ha, rfl⟩, decide_eq_true hknown⟩

theorem alias_plain {a : String} {cols : List String} (h : q.selectFor a = some cols) : '.' ∉ a.toList := by
  have ⟨_, hcols, hne⟩ := selectFor_some h
  have hneeded : q.needed a ≠ [] := by
    intro hnil
    rw [hnil] at hcols
    exact hne hcols
  have ⟨col, hcol⟩ := List.exists_mem_of_ne_nil _ hneeded
  have ⟨path, _, hpath⟩ := List.mem_map.mp (mem_needed.mp hcol)
  exact (addRef_iff.mp hpath).2.1

theorem columns_plain {a k : String} {cols : List String} (h : q.selectFor a = some cols) (hk : k ∈ cols) :
    '.' ∉ k.toList := by
  rw [(selectFor_some h).2.1, List.mem_eraseDups] at hk
  have ⟨path, _, hpath⟩ := List.mem_map.mp hk
  rw [← hpath]
  exact baseColumn_plain path

theorem kept_own {a k : String} (ha : a ∈ q.legAliases) (hk : ∀ cols, q.columns x a = some cols → k ∈ cols) :
    q.kept x (columnPath a k) = true := by
  unfold kept
  rw [List.any_eq_true]
  refine ⟨a, ha, ?_⟩
  unfold columnPath
  rw [afterPrefix_append]
  change (q.columns x a).all (fun cols => k ∈ cols) = true
  cases hcols : q.columns x a with
  | none => rfl
  | some cols => exact decide_eq_true (hk cols hcols)

variable {v : Evaluation} (h : q.HoldsWhen v x)

include h

theorem kept_iff {a k : String} {cols : List String} (ha : a ∈ q.legAliases) (hcols : q.columns x a = some cols)
    {r : SourceRow} (hr : r ∈ x.contents a) (hk : r.get? k ≠ none) :
    q.kept x (columnPath a k) = true ↔ k ∈ cols := by
  constructor
  · intro hkept
    have ⟨b, hb, hcol⟩ := List.any_eq_true.mp hkept
    cases hafter : afterPrefix (b ++ ".") (columnPath a k) with
    | none =>
      rw [hafter] at hcol
      cases hcol
    | some col =>
      have hpath : columnPath a k = columnPath b col := afterPrefix_eq hafter
      by_cases hsame : b = a
      · subst hsame
        rw [hafter, ← columnPath_injective b hpath, hcols] at hcol
        exact of_decide_eq_true hcol
      · exfalso
        have howned : OwnedBy b (columnPath a k) := hpath ▸ ownedBy_path b col
        by_cases hdot : '.' ∈ k.toList
        · exact (h.plain a ha (by rw [hcols]; exact Option.some_ne_none _) r hr k hk hdot).2 b hb hsame howned
        · have hlists : a.toList ++ '.' :: k.toList = b.toList ++ '.' :: col.toList := by
            have hlists := congrArg String.toList hpath
            simpa [columnPath] using hlists
          rcases SeparatedNames.glued_iff.mpr hlists with ⟨heq, _⟩ | ⟨m, _, hm⟩ | ⟨m, hm, _⟩
          · exact hsame (String.toList_inj.mp heq.symm)
          · exact hdot (hm ▸ by simp)
          · exact alias_plain (columns_some hcols) (hm ▸ by simp)
  · intro hmem
    refine kept_own ha fun cols' hcols' => ?_
    rw [hcols] at hcols'
    exact Option.some.inj hcols' ▸ hmem

theorem steady_of_reference {path : String} (hpath : some path ∈ q.references ∨ none ∈ q.refs) :
    x.Steady q.legAliases (q.kept x) path := by
  intro ⟨a, ha, r, hr, k, hkey, hk⟩
  rw [hkey]
  refine kept_own ha fun cols hcols => ?_
  have hselect := columns_some hcols
  have ⟨hknown, heq, _⟩ := selectFor_some hselect
  have href : some path ∈ q.references := hpath.resolve_right hknown
  have hplain : '.' ∉ k.toList := fun hdot =>
    (h.plain a ha (by rw [hcols]; exact Option.some_ne_none _) r hr k hk hdot).1 (hkey ▸ href)
  have hneeded : k ∈ q.needed a :=
    mem_needed.mpr (List.mem_map.mpr ⟨_, href, addRef_iff.mpr ⟨ha, alias_plain hselect, hkey ▸ rfl⟩⟩)
  rw [heq, List.mem_eraseDups]
  refine List.mem_map.mpr ⟨k, hneeded, ?_⟩
  have hbase := @baseColumn_path a k hplain
  calc
    baseColumn k = baseColumn (baseColumn (columnPath a k)) := by rw [hbase]
    _ = baseColumn (columnPath a k) := baseColumn_idem _
    _ = k := hbase

theorem leg_narrowed (P : Projection) {a : String} (ha : a ∈ q.legAliases) {r : SourceRow} (hr : r ∈ x.contents a) :
    Narrowed (q.kept x) (qualifyRecord a r) (qualifyRecord a (P.fetch (q.columns x a) r)) := by
  intro b
  cases hcols : q.columns x a with
  | none =>
    have hkept : ∀ e ∈ (qualifyRecord a r).entries, q.kept x e.1 = true := by
      intro e he
      have ⟨d, _, hd⟩ := List.mem_map.mp he
      rw [← hd]
      refine kept_own ha fun cols hsome => ?_
      rw [hcols] at hsome
      cases hsome
    unfold Record.restrict
    rw [Record.mk.injEq]
    refine List.filter_congr fun e he => ?_
    change _ = (q.kept x e.1 && _)
    rw [hkept e he, Bool.true_and]
  | some cols =>
    have hplain : ∀ k ∈ cols, '.' ∉ k.toList := fun k hk => columns_plain (columns_some hcols) hk
    have hget : ∀ k, (qualifyRecord a (P.fetch (some cols) r)).get? (columnPath a k) =
        if k ∈ cols then r.get? k else none := by
      intro k
      rw [get?_qualifyRecord, qualify_path]
      exact P.columns cols r k
    apply Record.eq_of_single
    · intro key
      rw [Record.get?_restrict, Record.get?_restrict]
      by_cases howned : OwnedBy a key
      · have ⟨k, hkey⟩ := ownedBy_iff.mp howned
        rw [hkey, hget, get?_qualifyRecord, qualify_path]
        cases hk : r.get? k with
        | none => simp
        | some value =>
          have hiff := @kept_iff _ _ _ h _ k _ ha hcols _ hr (by rw [hk]; exact Option.some_ne_none _)
          by_cases hmem : k ∈ cols
          · simp [hmem, hiff.mpr hmem]
          · have hnot : q.kept x (columnPath a k) = false := by
              rw [Bool.eq_false_iff]
              exact fun hkept => hmem (hiff.mp hkept)
            simp [hmem, hnot]
      · have hnone : ∀ r', (qualifyRecord a r').get? key = none := by
          intro r'
          rw [get?_qualifyRecord]
          by_contra hne
          exact howned (qualify_owned hne)
        rw [hnone, hnone, ite_self, ite_self]
    · -- the columns that are asked for have no dot, so the last name is the column
      have honly : ∀ key, ((qualifyRecord a (P.fetch (some cols) r)).restrict (baseColumn · = b)).get? key ≠ none →
          key = columnPath a b := by
        intro key hkey
        rw [Record.get?_restrict] at hkey
        by_cases hbase : baseColumn key = b
        · rw [if_pos (decide_eq_true hbase)] at hkey
          rw [get?_qualifyRecord] at hkey
          have ⟨k, hk⟩ := ownedBy_iff.mp (qualify_owned hkey)
          rw [← get?_qualifyRecord, hk, hget] at hkey
          by_cases hmem : k ∈ cols
          · rw [hk, baseColumn_path (hplain k hmem)] at hbase
            rw [hk, hbase]
          · rw [if_neg hmem] at hkey
            exact absurd rfl hkey
        · rw [if_neg (by simp [hbase])] at hkey
          exact absurd rfl hkey
      intro k k' hk hk'
      rw [honly k hk, honly k' hk']

variable {driving : String} {legs : List Leg} (has : driving :: legs.map Leg.aliasName ⊆ q.legAliases)
  {full proj : SourceRow} (hfull : x.Combined driving legs full) (hproj : Narrowed (q.kept x) full proj)

include has hfull

omit h in
theorem get?_dotless {key : String} (hkey : '.' ∉ key.toList) : full.get? key = none := by
  by_contra hne
  have ⟨a, _, howned⟩ := Context.over_combined has hfull key hne
  exact hkey (ownedBy_dot howned)

include hproj

theorem get?_reference {path : String}
    (hpath : '.' ∉ path.toList ∨ some path ∈ q.references ∨ none ∈ q.refs) :
    proj.get? path = full.get? path := by
  rcases hpath with hdot | href
  · rw [hproj.get?, get?_dotless has hfull hdot, ite_self]
  · exact (steady_of_reference h href).get? (fun _ => hfull.present has) hproj

theorem readRow_reference {path : String}
    (hpath : '.' ∉ path.toList ∨ some path ∈ q.references ∨ none ∈ q.refs) :
    readRow proj path = readRow full path := by
  unfold readRow column
  rw [get?_reference h has hfull hproj hpath, get?_reference h has hfull hproj (.inl (baseColumn_plain path))]

theorem readCol_reference {name : String}
    (hpath : '.' ∉ name.toList ∨ some name ∈ q.references ∨ none ∈ q.refs)
    (hnear : full.get? name = none → ∀ e, full.entries.find? (fun e => baseColumn e.1 = baseColumn name) = some e →
      q.kept x e.1 = true) : readCol proj name = readCol full name := by
  unfold readCol
  rw [get?_reference h has hfull hproj hpath, get?_reference h has hfull hproj (.inl (baseColumn_plain name))]
  cases hname : full.get? name with
  | some value => rfl
  | none => rw [get?_dotless has hfull (baseColumn_plain name), hproj.find? (hnear hname)]

theorem pickColumn_reference (out : SourceRow) {s : String}
    (hpath : '.' ∉ s.toList ∨ some s ∈ q.references ∨ none ∈ q.refs)
    (hnear : full.get? s = none → ∀ e, full.entries.find? (fun e => baseColumn e.1 = baseColumn s) = some e →
      q.kept x e.1 = true) : pickColumn proj out s = pickColumn full out s := by
  have hsame : ∀ row : SourceRow, (row.entries.find? fun e => e.1 = baseColumn s ∨ baseColumn e.1 = baseColumn s) =
      row.entries.find? fun e => baseColumn e.1 = baseColumn s := by
    intro row
    congr 1
    funext e
    rw [decide_eq_decide]
    refine or_iff_right_of_imp fun heq => ?_
    rw [heq, baseColumn_idem]
  unfold pickColumn
  rw [hsame, hsame, get?_reference h has hfull hproj hpath]
  cases hname : full.get? s with
  | some value => rfl
  | none => rw [hproj.find? (hnear hname)]

end

section

variable (q : Query) (x : Context)

theorem arranged_perm : ((x.arranged q.fromAlias q.joins).1 :: (x.arranged q.fromAlias q.joins).2.map Leg.aliasName).Perm
    q.legAliases := by
  unfold Context.arranged legAliases
  cases x.bestIdx q.fromAlias q.joins with
  | zero => exact List.Perm.refl _
  | succ k =>
    dsimp only
    cases hchosen : q.joins[k]? with
    | none => exact List.Perm.refl _
    | some chosen =>
      have ⟨hk, hget⟩ := List.getElem?_eq_some_iff.mp hchosen
      dsimp only
      rw [List.map_set]
      have hk' : k < (q.joins.map Leg.aliasName).length := by rwa [List.length_map]
      have hget' : (q.joins.map Leg.aliasName)[k] = chosen.aliasName := by rw [List.getElem_map, hget]
      have hrest := (List.getElem_cons_eraseIdx_perm hk')
      rw [hget'] at hrest
      have hset := List.set_perm_cons_eraseIdx hk' q.fromAlias
      exact (hset.cons _).trans ((List.Perm.swap _ _ _).trans (hrest.cons _))

theorem arranged_on {lm : Leg} (hlm : lm ∈ (x.arranged q.fromAlias q.joins).2) :
    some lm.on.left ∈ q.references ∧ some lm.on.right ∈ q.references := by
  have hon : ∀ m ∈ q.joins, some m.on.left ∈ q.references ∧ some m.on.right ∈ q.references := by
    intro m hm
    unfold references
    simp only [List.mem_append, List.mem_flatMap]
    exact ⟨.inl (.inl (.inl (.inl (.inr ⟨m, hm, List.mem_cons_self⟩)))),
      .inl (.inl (.inl (.inl (.inr ⟨m, hm, List.mem_cons_of_mem _ List.mem_cons_self⟩))))⟩
  unfold Context.arranged at hlm
  cases hidx : x.bestIdx q.fromAlias q.joins with
  | zero =>
    rw [hidx] at hlm
    exact hon lm hlm
  | succ k =>
    rw [hidx] at hlm
    dsimp only at hlm
    cases hchosen : q.joins[k]? with
    | none =>
      rw [hchosen] at hlm
      exact hon lm hlm
    | some chosen =>
      rw [hchosen] at hlm
      rcases List.mem_or_eq_of_mem_set hlm with hold | hnew
      · exact hon lm hold
      · rw [hnew]
        exact (hon chosen (List.mem_of_getElem? hchosen)).symm

end

section

variable {q : Query}

theorem reference_addColRef {col : String} (h : ∀ ref ∈ q.addColRef col, ref ∈ q.references) :
    '.' ∉ col.toList ∨ some col ∈ q.references := by
  unfold addColRef at h
  split at h
  · next hskip => exact .inl hskip.1
  · exact .inr (h _ List.mem_cons_self)

theorem reference_condition {w : Condition} (hw : w ∈ q.conditions) (hcolumn : w.column ≠ "") :
    '.' ∉ w.column.toList ∨ some w.column ∈ q.references := by
  refine reference_addColRef fun ref href => ?_
  unfold references
  simp only [List.mem_append, List.mem_flatMap]
  refine .inl (.inl (.inl (.inr ⟨w, hw, ?_⟩)))
  unfold conditionRef
  rwa [if_pos hcolumn]

theorem reference_groupCols {plan : AggregatePlan} (hplan : q.plan = some plan) {g : GroupBy} (hg : g ∈ plan.groupCols) :
    '.' ∉ (gName g).toList ∨ some (gName g) ∈ q.references := by
  rcases ((mem_parseAggregates hplan).1 g).mp hg with hgroup | ⟨path, _, heq⟩
  · refine reference_addColRef fun ref href => ?_
    unfold references
    simp only [List.mem_append, List.mem_flatMap]
    exact .inl (.inr ⟨g, hgroup, href⟩)
  · rw [heq]
    exact .inl (baseColumn_plain path)

theorem aggregate_dotless {plan : AggregatePlan} (hplan : q.plan = some plan) {a : AggregateSpec}
    (ha : a ∈ plan.aggregates) {name : String} (hname : a.column = some name) : '.' ∉ name.toList := by
  rw [(mem_parseAggregates hplan).2] at ha
  have ⟨b, _, hb⟩ := List.mem_map.mp ha
  rw [← hb] at hname
  have ⟨path, _, hpath⟩ := Option.map_eq_some_iff.mp hname
  rw [← hpath]
  exact baseColumn_plain path

theorem item_of_plan_none (hplan : q.plan = none) {e : SelectEntry} (he : e ∈ q.select) :
    e.item.aggregated = none := by
  unfold plan parseAggregates at hplan
  have hne : q.select.map SelectEntry.item ≠ [] := fun hnil => by
    rw [List.map_eq_nil_iff.mp hnil] at he
    cases he
  rw [if_neg hne] at hplan
  split at hplan
  · next hnone => exact List.filterMap_eq_nil_iff.mp hnone.1 _ (List.mem_map_of_mem he)
  · cases hplan

theorem unknown_of_reference {path : Option String} (hpath : path ∈ q.references)
    (hunknown : addRef q.legAliases path = none) : none ∈ q.refs := List.mem_map.mpr ⟨path, hpath, hunknown⟩

theorem reference_entry (hplan : q.plan = none) {e : SelectEntry} (he : e ∈ q.select) :
    (e.name ≠ "" ∧ some e.name ∈ q.references) ∨ none ∈ q.refs := by
  have hmem : ∀ ref ∈ e.references, ref ∈ q.references := by
    intro ref href
    unfold references
    simp only [List.mem_append, List.mem_flatMap]
    exact .inl (.inl (.inl (.inl (.inl ⟨e, he, href⟩))))
  have hitem := item_of_plan_none hplan he
  cases e with
  | text s =>
    by_cases hs : s = ""
    · refine .inr (unknown_of_reference (hmem (some s) List.mem_cons_self) ?_)
      rw [hs]
      rfl
    · exact .inl ⟨hs, hmem _ List.mem_cons_self⟩
  | other => exact .inr (unknown_of_reference (hmem none List.mem_cons_self) rfl)
  | object aggregate column aliasName distinct window expression =>
    have haggregate : aggregate = "" := by
      by_contra hne
      simp [SelectEntry.item, SelectItem.aggregated, hne] at hitem
    by_cases hcolumn : column ≠ "" ∧ window = false ∧ expression = false
    · refine .inl ⟨hcolumn.1, hmem (some column) ?_⟩
      simp [SelectEntry.references, haggregate, hcolumn]
    · refine .inr (unknown_of_reference (hmem none ?_) rfl)
      simp only [SelectEntry.references, haggregate, ne_eq, not_true_eq_false, if_false]
      rw [if_neg hcolumn]
      exact List.mem_cons_self

end

theorem forall₂_pairs {α β : Type*} {R : α → β → Prop} {xs : List α} {ys : List β} (h : List.Forall₂ R xs ys) :
    ∃ zs : List (α × β), zs.map Prod.fst = xs ∧ zs.map Prod.snd = ys ∧ ∀ z ∈ zs, R z.1 z.2 := by
  induction h with
  | nil => exact ⟨[], rfl, rfl, fun z hz => absurd hz List.not_mem_nil⟩
  | @cons a b xs ys hab _ ih =>
    have ⟨zs, hfst, hsnd, hall⟩ := ih
    refine ⟨(a, b) :: zs, by rw [List.map_cons, hfst], by rw [List.map_cons, hsnd], fun z hz => ?_⟩
    rcases List.mem_cons.mp hz with rfl | hrest
    · exact hab
    · exact hall z hrest

section

variable {q : Query} {x : Context} {v : Evaluation}

/-- A joined row that the conditions let through, and what is left of it. -/
structure Left (q : Query) (v : Evaluation) (x : Context) (z : SourceRow × SourceRow) : Prop where
  combined : x.Combined (x.arranged q.fromAlias q.joins).1 (x.arranged q.fromAlias q.joins).2 z.1
  passed : q.passes v x z.1 = true
  narrowed : Narrowed (q.kept x) z.1 z.2

theorem passes_narrowed (h : q.HoldsWhen v x) {full proj : SourceRow}
    (hfull : x.Combined (x.arranged q.fromAlias q.joins).1 (x.arranged q.fromAlias q.joins).2 full)
    (hproj : Narrowed (q.kept x) full proj) : q.passes v x proj = q.passes v x full := by
  have has := (q.arranged_perm x).subset
  have hholds : ∀ w ∈ q.conditions,
      Condition.holds x.comparison v.like proj w = Condition.holds x.comparison v.like full w := by
    intro w hw
    unfold Condition.holds
    by_cases hcolumn : w.column = ""
    · rw [if_pos hcolumn, if_pos hcolumn]
    · rw [if_neg hcolumn, if_neg hcolumn,
        readRow_reference h has hfull hproj ((reference_condition hw hcolumn).imp_right .inl)]
  unfold passes
  rw [Bool.eq_iff_iff, List.all_eq_true, List.all_eq_true]
  exact forall₂_congr fun w hw => by rw [hholds w hw]

theorem combine_narrowed (h : q.HoldsWhen v x) (hproj : none ∉ q.refs) (hselect : q.select ≠ [])
    {zs : List (SourceRow × SourceRow)} (hzs : ∀ z ∈ zs, q.Left v x z) :
    q.combine v (zs.map Prod.snd) = q.combine v (zs.map Prod.fst) := by
  have has := (q.arranged_perm x).subset
  have hnear : ∀ name ∈ q.names, ∀ z ∈ zs, z.1.get? name = none →
      ∀ e, z.1.entries.find? (fun e => baseColumn e.1 = baseColumn name) = some e → q.kept x e.1 = true :=
    fun name hname z hz => h.nearest z.1 (hzs z hz).combined (hzs z hz).passed name hname
  unfold combine
  cases hplan : q.plan with
  | some plan =>
    have hnames : q.names = plan.groupCols.map gName ++
        plan.aggregates.filterMap fun a => a.column.filter (· ≠ "") := by
      unfold names
      rw [hplan]
    rw [hnames] at hnear
    refine aggregateRaw_congr _ (fun g hg z hz => ?_) fun a ha name hname hne z hz => ?_
    · refine readCol_reference h has (hzs z hz).combined (hzs z hz).narrowed
        ((reference_groupCols hplan hg).imp_right .inl) (hnear _ ?_ z hz)
      exact List.mem_append_left _ (List.mem_map_of_mem hg)
    · refine readCol_reference h has (hzs z hz).combined (hzs z hz).narrowed
        (.inl (aggregate_dotless hplan ha hname)) (hnear _ ?_ z hz)
      refine List.mem_append_right _ (List.mem_filterMap.mpr ⟨a, ha, ?_⟩)
      rw [hname]
      exact Option.filter_eq_some_iff.mpr ⟨rfl, decide_eq_true hne⟩
  | none =>
    have hnames : q.names = specs q.select := by
      unfold names
      rw [hplan]
    rw [hnames] at hnear
    have hentry : ∀ e ∈ q.select, e.name ≠ "" ∧ some e.name ∈ q.references := fun e he =>
      (reference_entry hplan he).resolve_right hproj
    have hproject : ¬ (q.select = [] ∨ .text "*" ∈ q.select ∨ specs q.select = []) := by
      rintro (hnil | hstar | hspecs)
      · exact hselect hnil
      · exact hproj (unknown_of_reference (hentry _ hstar).2 rfl)
      · have ⟨e, he⟩ := List.exists_mem_of_ne_nil _ hselect
        have hmem : e.name ∈ specs q.select :=
          List.mem_filter.mpr ⟨List.mem_map_of_mem he, decide_eq_true (hentry e he).1⟩
        rw [hspecs] at hmem
        cases hmem
    have hrows : applyProjection (zs.map Prod.snd) q.select = applyProjection (zs.map Prod.fst) q.select := by
      unfold applyProjection
      rw [if_neg hproject, if_neg hproject, List.map_map, List.map_map]
      refine List.map_congr_left fun z hz => ?_
      refine List.foldl_ext _ _ _ fun out s hs => ?_
      have ⟨e, he, hname⟩ := List.mem_map.mp (List.mem_filter.mp hs).1
      refine pickColumn_reference h has (hzs z hz).combined (hzs z hz).narrowed out ?_ (hnear s hs z hz)
      exact .inr (.inl (hname ▸ (hentry e he).2))
    dsimp only
    rw [hrows]

end

end Query

def inRowOrder : Projection where
  project cols r := r.restrict fun k => k ∈ cols
  columns cols r k := by
    rw [Record.get?_restrict]
    simp only [decide_eq_true_eq]

/-- `SELECT MIN(i.amount) FROM orders o JOIN items i ON o.id = i.order` -/
def leastItem (column : String) : Query where
  fromAlias := "o"
  joins := [⟨"i", "INNER", ⟨"o.id", "i.order"⟩, "EQ"⟩]
  select := [.object "MIN" column "least" false false false]
  conditions := []
  groupBy := []
  having := []
  window := {}
  distinct := false
  aliased := by decide

def plainEvaluation : Evaluation := ⟨plainEngine, fun _ _ _ => false⟩

/-- One order with an amount of its own, and one item of it. -/
def orderAndItem : Context where
  settings := sqlSettings
  comparison := sameTyped
  cap := 1000
  cards := fun _ => some 1
  contents a :=
    if a = "o" then [⟨[("id", .num 1), ("amount", .num 10)], by decide⟩]
    else [⟨[("order", .num 1), ("amount", .num 3), ("price", .num 5)], by decide⟩]

theorem orderAndItem_columns {a : String} {r : SourceRow} (hr : r ∈ orderAndItem.contents a) {k : String}
    (hk : r.get? k ≠ none) : k ∈ ["id", "amount", "order", "price"] ∧ (a = "o" → k ≠ "price") := by
  have ⟨value, hvalue⟩ := Option.ne_none_iff_exists'.mp hk
  have hentry := (Record.get?_eq_some_iff _ _ _).mp hvalue
  change r ∈ if a = "o" then _ else _ at hr
  by_cases ha : a = "o"
  · rw [if_pos ha, List.mem_singleton] at hr
    rw [hr] at hentry
    have hkey := @List.mem_map_of_mem _ _ _ _ Prod.fst hentry
    simp only [List.map_cons, List.map_nil, List.mem_cons, List.not_mem_nil, or_false] at hkey
    rcases hkey with rfl | rfl <;> simp
  · rw [if_neg ha, List.mem_singleton] at hr
    rw [hr] at hentry
    have hkey := @List.mem_map_of_mem _ _ _ _ Prod.fst hentry
    simp only [List.map_cons, List.map_nil, List.mem_cons, List.not_mem_nil, or_false] at hkey
    rcases hkey with rfl | rfl | rfl <;> simp [ha]

theorem price_holds : (leastItem "i.price").HoldsWhen plainEvaluation orderAndItem where
  plain a _ _ r hr k hk hdot := by
    have hplain : ∀ c ∈ ["id", "amount", "order", "price"], '.' ∉ c.toList := by decide
    exact absurd hdot (hplain k (orderAndItem_columns hr hk).1)
  nearest row hrow _ name hname _ e he := by
    have hprice : name = "price" := by
      have hnames : (leastItem "i.price").names = ["price"] := by decide +kernel
      rw [hnames] at hname
      exact List.mem_singleton.mp hname
    have hbase : baseColumn e.1 = "price" := by
      have hfound := List.find?_some he
      rw [of_decide_eq_true hfound, hprice]
      decide
    have hheld : row.get? e.1 ≠ none := by
      rw [Record.get?_of_mem (List.mem_of_find?_eq_some he)]
      exact Option.some_ne_none _
    have ⟨a, ha, r, hr, k, hkey, hk⟩ := hrow.present ((leastItem "i.price").arranged_perm orderAndItem).subset hheld
    have ⟨hcolumn, hother⟩ := orderAndItem_columns hr hk
    have hplain : ∀ c ∈ ["id", "amount", "order", "price"], '.' ∉ c.toList := by decide
    rw [hkey, baseColumn_path (hplain k hcolumn)] at hbase
    have ha' : a = "i" := by
      rcases List.mem_cons.mp ha with rfl | hi
      · exact absurd hbase (hother rfl)
      · exact List.mem_singleton.mp hi
    rw [hkey, ha', hbase]
    decide +kernel

end DataFabric.ProjectedLegs
