import DataFabric.Aggregates

set_option autoImplicit false

/-!
# Aggregates over a join

The select list and GROUP BY of a query over qualified columns, as the plan names the
columns and as they are read in a joined row.
-/
namespace DataFabric.JoinedAggregates
open CharText JsValues OrderedRecords FederatedJoins Aggregates

/-- An element of a select list; an object without an aggregate is passed over. -/
inductive SelectItem
  | spec (aggregate : String) (column aliasName : Option String) (distinct : Bool)
  | object
  | text (s : String)
  deriving DecidableEq, Repr

/-- What an element aggregates; the name of the function is in upper case. -/
structure Aggregated where
  func : String
  distinct : Bool
  path : Option String
  aliasName : Option String
  deriving DecidableEq, Repr

def afterWord (w : String) (cs : List Char) : Option (List Char) :=
  if w.toList.isPrefixOf (cs.map Char.toLower) then some (cs.drop w.toList.length) else none

def isColumnChar (c : Char) : Bool := isWord c || c == '.' || c == '*'

def distinctPart (cs : List Char) : Bool × List Char :=
  match afterWord "distinct" cs with
  | none => (false, cs)
  | some rest =>
    let column := rest.dropWhile isSpace
    if column ≠ rest ∧ column.head?.any isColumnChar then (true, column) else (false, cs)

def aliasPart (cs : List Char) : Option (Option String) :=
  if cs = [] then some none
  else do
    let rest ← afterWord "as" cs
    let name := rest.dropWhile isSpace
    if name = rest ∨ name.takeWhile isWord = [] ∨ (name.dropWhile isWord).dropWhile isSpace ≠ [] then none
    else some (some (String.ofList (name.takeWhile isWord)))

def callPart (func : String) (cs : List Char) : Option Aggregated :=
  match cs.dropWhile isSpace with
  | '(' :: inside =>
    let (distinct, column) := distinctPart (inside.dropWhile isSpace)
    let path := String.ofList (column.takeWhile isColumnChar)
    match (column.dropWhile isColumnChar).dropWhile isSpace with
    | ')' :: rest =>
      if path = "" then none
      else (aliasPart (rest.dropWhile isSpace)).map fun aliasName =>
        ⟨func, distinct, if path = "*" then none else some path, aliasName⟩
    | _ => none
  | _ => none

/-- `/^\s*(count|sum|min|max|avg)\s*\(\s*(distinct\s+)?([\w.*]+)\s*\)\s*(?:as\s+([\w]+))?\s*$/i` -/
def callOf (s : String) : Option Aggregated :=
  [("count", "COUNT"), ("sum", "SUM"), ("min", "MIN"), ("max", "MAX"), ("avg", "AVG")].findSome? fun name =>
    (afterWord name.1 (s.toList.dropWhile isSpace)).bind (callPart name.2)

def present (s : Option String) : Option String := s.filter (· ≠ "")

namespace SelectItem

def aggregated : SelectItem → Option Aggregated
  | .spec aggregate column aliasName distinct =>
    if aggregate = "" then none
    else
      let func := upperCase aggregate
      some ⟨func, distinct || func = "COUNT_DISTINCT", (present column).filter (· ≠ "*"), present aliasName⟩
  | .object => none
  | .text s => callOf s

def grouping : SelectItem → Option String
  | .text s => if (callOf s).isSome || s = "*" then none else some s
  | _ => none

end SelectItem

namespace Aggregated

variable (a : Aggregated)

def column : Option String := a.path.map baseColumn

def defaultAlias : String := asciiLower a.func ++ "_" ++ (present a.column).getD "all"

def output : String := a.aliasName.getD a.defaultAlias

def aggFunc : AggFunc :=
  if a.distinct then .countDistinct
  else match a.func with
    | "COUNT" => .count
    | "SUM" => .sum
    | "MIN" => .min
    | "MAX" => .max
    | "AVG" => .avg
    | name => .other name

def spec : AggregateSpec := ⟨a.aggFunc, a.column, a.output⟩

end Aggregated

/-- The plan of a query, `none` if it is not an aggregate query. -/
def parseAggregates (select : List SelectItem) (groupBy : List GroupBy) : Option AggregatePlan :=
  if select = [] then if groupBy = [] then none else some ⟨groupBy, []⟩
  else if select.filterMap SelectItem.aggregated = [] ∧ groupBy = [] then none
  else
    let columns := (select.filterMap SelectItem.grouping).map fun path => GroupBy.field (baseColumn path)
    some ⟨(groupBy ++ columns).eraseDups, (select.filterMap SelectItem.aggregated).map Aggregated.spec⟩

theorem mem_parseAggregates {select : List SelectItem} {groupBy : List GroupBy} {plan : AggregatePlan}
    (h : parseAggregates select groupBy = some plan) :
    (∀ g, g ∈ plan.groupCols ↔
      g ∈ groupBy ∨ ∃ path ∈ select.filterMap SelectItem.grouping, g = .field (baseColumn path)) ∧
    plan.aggregates = (select.filterMap SelectItem.aggregated).map Aggregated.spec := by
  unfold parseAggregates at h
  by_cases hselect : select = []
  · rw [if_pos hselect] at h
    by_cases hgroup : groupBy = []
    · rw [if_pos hgroup] at h
      cases h
    · rw [if_neg hgroup] at h
      rw [← Option.some.inj h, hselect]
      simp
  · rw [if_neg hselect] at h
    by_cases hnone : select.filterMap SelectItem.aggregated = [] ∧ groupBy = []
    · rw [if_pos hnone] at h
      cases h
    · rw [if_neg hnone] at h
      rw [← Option.some.inj h]
      refine ⟨fun g => ?_, rfl⟩
      rw [List.mem_eraseDups, List.mem_append, List.mem_map]
      simp only [eq_comm]

theorem stepOne_congr {parseFloat : String → Option ℚ} {row row' : SourceRow} {a : AggregateSpec}
    (h : ∀ name, a.column = some name → name ≠ "" → readCol row name = readCol row' name) (st : GroupState) :
    stepOne parseFloat row st a = stepOne parseFloat row' st a := by
  unfold stepOne
  cases hcolumn : a.column with
  | none => rfl
  | some name =>
    dsimp only
    by_cases hname : name = ""
    · simp only [if_pos hname]
    · simp only [if_neg hname, h name hcolumn hname]

theorem foldl_stepOne_congr {parseFloat : String → Option ℚ} {row row' : SourceRow} {aggs : List AggregateSpec}
    (h : ∀ a ∈ aggs, ∀ name, a.column = some name → name ≠ "" → readCol row name = readCol row' name)
    (st : GroupState) :
    aggs.foldl (stepOne parseFloat row) st = aggs.foldl (stepOne parseFloat row') st := by
  induction aggs generalizing st with
  | nil => rfl
  | cons a aggs ih =>
    rw [List.foldl_cons, List.foldl_cons, stepOne_congr (h a List.mem_cons_self),
      ih fun b hb => h b (List.mem_cons_of_mem _ hb)]

theorem aggregateRaw_congr {γ : Type*} (parseFloat : String → Option ℚ) {plan : AggregatePlan} {xs : List γ}
    {f g : γ → SourceRow}
    (hgroup : ∀ c ∈ plan.groupCols, ∀ x ∈ xs, readCol (f x) (gName c) = readCol (g x) (gName c))
    (haggregates : ∀ a ∈ plan.aggregates, ∀ name, a.column = some name → name ≠ "" → ∀ x ∈ xs,
      readCol (f x) name = readCol (g x) name) :
    aggregateRaw parseFloat (xs.map f) plan = aggregateRaw parseFloat (xs.map g) plan := by
  have hkey : ∀ x ∈ xs, rawKey plan (f x) = rawKey plan (g x) := by
    intro x hx
    refine List.map_congr_left fun c hc => ?_
    rw [hgroup c hc x hx]
  unfold aggregateRaw
  refine congrArg (fun groups => List.map _ (Record.entries groups)) (groupFold_congr hkey ?_ ?_)
  · intro x hx
    rw [hkey x hx]
  · intro x hx group
    rw [foldl_stepOne_congr fun a ha name hname hne => haggregates a ha name hname hne x hx]

structure JoinedRecord where
  row : SourceRow
  qualified : ∀ e ∈ row.entries, '.' ∈ e.1.toList

structure Query where
  select : List SelectItem
  groupBy : List GroupBy
  groupQualified : ∀ g ∈ groupBy, '.' ∈ (gName g).toList
  plainQualified : ∀ path ∈ select.filterMap SelectItem.grouping, '.' ∈ path.toList
  aggregatedQualified : ∀ a ∈ select.filterMap SelectItem.aggregated, ∀ path, a.path = some path → '.' ∈ path.toList
  plan : AggregatePlan
  planned : parseAggregates select groupBy = some plan

/-- A column as the query names it, as the plan reads it, and the column of the result. -/
structure NamedColumn where
  path : String
  read : String
  output : String
  deriving DecidableEq, Repr

namespace Query

variable (q : Query)

def plain : List String := q.select.filterMap SelectItem.grouping

def aggregates : List Aggregated := q.select.filterMap SelectItem.aggregated

def columns : List NamedColumn :=
  q.groupBy.map (fun g => ⟨gName g, gName g, gName g⟩) ++
    q.plain.map (fun path => ⟨path, baseColumn path, baseColumn path⟩) ++
      q.aggregates.filterMap fun a => a.path.map fun path => ⟨path, baseColumn path, a.output⟩

/-- Every column is read as the one that is named, and columns of different names have different results. -/
structure Attributed (rows : List JoinedRecord) : Prop where
  reads : ∀ c ∈ q.columns, ∀ r ∈ rows, readCol r.row c.read = column r.row c.path
  distinct : ∀ c ∈ q.columns, ∀ d ∈ q.columns, c.path ≠ d.path → c.output ≠ d.output

theorem plan_eq : (∀ g, g ∈ q.plan.groupCols ↔
      g ∈ q.groupBy ∨ ∃ path ∈ q.plain, g = .field (baseColumn path)) ∧
    q.plan.aggregates = q.aggregates.map Aggregated.spec := mem_parseAggregates q.planned

theorem plan_reads (x : String) :
    (∃ c ∈ q.columns, c.read = x) ↔
      (∃ g ∈ q.plan.groupCols, gName g = x) ∨ ∃ a ∈ q.plan.aggregates, a.column = some x := by
  have ⟨hgroup, haggregates⟩ := q.plan_eq
  rw [haggregates]
  unfold columns
  simp only [hgroup, List.mem_append, List.mem_map, List.mem_filterMap, Option.map_eq_some_iff]
  constructor
  · rintro ⟨c, (⟨g, hg, rfl⟩ | ⟨path, hpath, rfl⟩) | ⟨a, ha, path, hpath, rfl⟩, rfl⟩
    · exact .inl ⟨g, .inl hg, rfl⟩
    · exact .inl ⟨_, .inr ⟨path, hpath, rfl⟩, rfl⟩
    · refine .inr ⟨a.spec, ⟨a, ha, rfl⟩, ?_⟩
      change a.path.map baseColumn = _
      rw [hpath]
      rfl
  · rintro (⟨g, hg | ⟨path, hpath, rfl⟩, rfl⟩ | ⟨_, ⟨a, ha, rfl⟩, hcolumn⟩)
    · exact ⟨_, .inl (.inl ⟨g, hg, rfl⟩), rfl⟩
    · exact ⟨_, .inl (.inr ⟨path, hpath, rfl⟩), rfl⟩
    · have ⟨path, hpath, hbase⟩ := Option.map_eq_some_iff.mp hcolumn
      exact ⟨_, .inr ⟨a, ha, path, hpath, rfl⟩, hbase⟩

end Query

def firstNamed (row : SourceRow) (name : String) : JsValue :=
  ((row.entries.find? fun e => baseColumn e.1 = name).map Prod.snd).getD .undefined

theorem get?_plain (r : JoinedRecord) (path : String) : r.row.get? (baseColumn path) = none := by
  cases hget : r.row.get? (baseColumn path) with
  | none => rfl
  | some v =>
    have hmem := (Record.get?_eq_some_iff _ _ _).mp hget
    exact absurd (r.qualified _ hmem) (baseColumn_plain path)

theorem readCol_qualified (r : JoinedRecord) (path : String) :
    readCol r.row path = (r.row.get? path).getD (firstNamed r.row (baseColumn path)) := by
  unfold readCol
  rw [get?_plain]
  cases r.row.get? path <;> rfl

theorem readCol_plain (r : JoinedRecord) (path : String) :
    readCol r.row (baseColumn path) = firstNamed r.row (baseColumn path) := by
  rw [readCol_qualified, get?_plain, baseColumn_idem]
  rfl

namespace Query

variable (q : Query)

/-- The last names tell the columns apart and so do the names of the aggregates. -/
structure HoldsWhen (rows : List JoinedRecord) : Prop where
  grouped : ∀ g ∈ q.groupBy, ∀ r ∈ rows, r.row.get? (gName g) = none →
    firstNamed r.row (baseColumn (gName g)) = .undefined
  plain : ∀ path ∈ q.plain, ∀ r ∈ rows, firstNamed r.row (baseColumn path) = column r.row path
  aggregated : ∀ a ∈ q.aggregates, ∀ path, a.path = some path → ∀ r ∈ rows,
    firstNamed r.row (baseColumn path) = column r.row path
  lastNames : ∀ path ∈ q.plain, ∀ other ∈ q.plain, baseColumn path = baseColumn other → path = other
  outputs : ∀ a ∈ q.aggregates, ∀ path, a.path = some path →
    (∀ g ∈ q.groupBy, a.output = gName g → path = gName g) ∧
      (∀ other ∈ q.plain, a.output = baseColumn other → path = other) ∧
        ∀ b ∈ q.aggregates, ∀ other, b.path = some other → a.output = b.output → path = other

variable {q : Query} {rows : List JoinedRecord}

theorem mem_columns {c : NamedColumn} : c ∈ q.columns ↔
    (∃ g ∈ q.groupBy, c = ⟨gName g, gName g, gName g⟩) ∨
      (∃ path ∈ q.plain, c = ⟨path, baseColumn path, baseColumn path⟩) ∨
        ∃ a ∈ q.aggregates, ∃ path, a.path = some path ∧ c = ⟨path, baseColumn path, a.output⟩ := by
  unfold columns
  simp only [List.mem_append, List.mem_map, List.mem_filterMap, Option.map_eq_some_iff, or_assoc, @eq_comm _ c]

theorem reads_iff : (∀ c ∈ q.columns, ∀ r ∈ rows, readCol r.row c.read = column r.row c.path) ↔
    (∀ g ∈ q.groupBy, ∀ r ∈ rows, r.row.get? (gName g) = none →
      firstNamed r.row (baseColumn (gName g)) = .undefined) ∧
    (∀ path ∈ q.plain, ∀ r ∈ rows, firstNamed r.row (baseColumn path) = column r.row path) ∧
    ∀ a ∈ q.aggregates, ∀ path, a.path = some path → ∀ r ∈ rows,
      firstNamed r.row (baseColumn path) = column r.row path := by
  have hgroup : ∀ (g : GroupBy) (r : JoinedRecord), readCol r.row (gName g) = column r.row (gName g) ↔
      (r.row.get? (gName g) = none → firstNamed r.row (baseColumn (gName g)) = .undefined) := by
    intro g r
    rw [readCol_qualified, column]
    cases r.row.get? (gName g) <;> simp
  constructor
  · intro h
    refine ⟨?_, ?_, ?_⟩
    · intro g hg r hr
      exact (hgroup g r).mp (h _ (mem_columns.mpr (.inl ⟨g, hg, rfl⟩)) r hr)
    · intro path hpath r hr
      have hread := h _ (mem_columns.mpr (.inr (.inl ⟨path, hpath, rfl⟩))) r hr
      rwa [readCol_plain] at hread
    · intro a ha path hpath r hr
      have hread := h _ (mem_columns.mpr (.inr (.inr ⟨a, ha, path, hpath, rfl⟩))) r hr
      rwa [readCol_plain] at hread
  · intro ⟨hgrouped, hplain, haggregated⟩ c hc r hr
    rcases mem_columns.mp hc with ⟨g, hg, rfl⟩ | ⟨path, hpath, rfl⟩ | ⟨a, ha, path, hpath, rfl⟩
    · exact (hgroup g r).mpr (hgrouped g hg r hr)
    · dsimp only
      rw [readCol_plain]
      exact hplain path hpath r hr
    · dsimp only
      rw [readCol_plain]
      exact haggregated a ha path hpath r hr

theorem distinct_iff : (∀ c ∈ q.columns, ∀ d ∈ q.columns, c.path ≠ d.path → c.output ≠ d.output) ↔
    (∀ path ∈ q.plain, ∀ other ∈ q.plain, baseColumn path = baseColumn other → path = other) ∧
    ∀ a ∈ q.aggregates, ∀ path, a.path = some path →
      (∀ g ∈ q.groupBy, a.output = gName g → path = gName g) ∧
        (∀ other ∈ q.plain, a.output = baseColumn other → path = other) ∧
          ∀ b ∈ q.aggregates, ∀ other, b.path = some other → a.output = b.output → path = other := by
  constructor
  · intro h
    have hsame : ∀ c ∈ q.columns, ∀ d ∈ q.columns, c.output = d.output → c.path = d.path := fun c hc d hd heq =>
      by_contra fun hne => h c hc d hd hne heq
    refine ⟨fun path hpath other hother heq => ?_, fun a ha path hpath => ⟨fun g hg heq => ?_,
      fun other hother heq => ?_, fun b hb other hother heq => ?_⟩⟩
    · exact hsame _ (mem_columns.mpr (.inr (.inl ⟨path, hpath, rfl⟩))) _
        (mem_columns.mpr (.inr (.inl ⟨other, hother, rfl⟩))) heq
    all_goals have haggregate := mem_columns.mpr (.inr (.inr ⟨a, ha, path, hpath, rfl⟩))
    · exact hsame _ haggregate _ (mem_columns.mpr (.inl ⟨g, hg, rfl⟩)) heq
    · exact hsame _ haggregate _ (mem_columns.mpr (.inr (.inl ⟨other, hother, rfl⟩))) heq
    · exact hsame _ haggregate _ (mem_columns.mpr (.inr (.inr ⟨b, hb, other, hother, rfl⟩))) heq
  · intro ⟨hlast, houtputs⟩ c hc d hd hne heq
    refine hne ?_
    -- a grouping column has a dot in its name, a plain one has none
    have hdot : ∀ g ∈ q.groupBy, ∀ path, gName g ≠ baseColumn path := fun g hg path hname =>
      baseColumn_plain path (hname ▸ q.groupQualified g hg)
    rcases mem_columns.mp hc with ⟨g, hg, rfl⟩ | ⟨path, hpath, rfl⟩ | ⟨a, ha, path, hpath, rfl⟩ <;>
      rcases mem_columns.mp hd with ⟨g', hg', rfl⟩ | ⟨other, hother, rfl⟩ | ⟨b, hb, other, hother, rfl⟩
    · exact heq
    · exact absurd heq (hdot g hg other)
    · exact ((houtputs b hb other hother).1 g hg heq.symm).symm
    · exact absurd heq.symm (hdot g' hg' path)
    · exact hlast path hpath other hother heq
    · exact ((houtputs b hb other hother).2.1 path hpath heq.symm).symm
    · exact (houtputs a ha path hpath).1 g' hg' heq
    · exact (houtputs a ha path hpath).2.1 other hother heq
    · exact (houtputs a ha path hpath).2.2 b hb other hother heq

/-- The columns are attributed exactly if no other property of a row answers to a last name first. -/
theorem attributed_iff (q : Query) (rows : List JoinedRecord) : q.Attributed rows ↔ q.HoldsWhen rows := by
  constructor
  · intro ⟨hreads, hdistinct⟩
    have ⟨hgrouped, hplain, haggregated⟩ := reads_iff.mp hreads
    have ⟨hlast, houtputs⟩ := distinct_iff.mp hdistinct
    exact ⟨hgrouped, hplain, haggregated, hlast, houtputs⟩
  · intro h
    exact ⟨reads_iff.mpr ⟨h.grouped, h.plain, h.aggregated⟩, distinct_iff.mpr ⟨h.lastNames, h.outputs⟩⟩

theorem aggregateRaw_named (parseFloat : String → Option ℚ) (h : q.Attributed rows)
    {named : JoinedRecord → SourceRow}
    (hnamed : ∀ c ∈ q.columns, ∀ r ∈ rows, (named r).get? c.read = some (column r.row c.path)) :
    aggregateRaw parseFloat (rows.map JoinedRecord.row) q.plan = aggregateRaw parseFloat (rows.map named) q.plan := by
  have hread : ∀ name, (∃ c ∈ q.columns, c.read = name) → ∀ r ∈ rows,
      readCol r.row name = readCol (named r) name := by
    intro name ⟨c, hc, hname⟩ r hr
    rw [← hname, h.reads c hc r hr, readCol, hnamed c hc r hr]
  refine aggregateRaw_congr parseFloat ?_ ?_
  · exact fun g hg => hread (gName g) ((q.plan_reads _).mpr (.inl ⟨g, hg, rfl⟩))
  · exact fun a ha name hname _ => hread name ((q.plan_reads _).mpr (.inr ⟨a, ha, hname⟩))

end Query

/-- An order's amount beside the amount of one of its items. -/
def orderItem : JoinedRecord where
  row := ⟨[("o.amount", .num 10), ("i.amount", .num 1)], by decide⟩
  qualified := by decide

def itemAmounts : Query where
  select := [.text "min(i.amount)"]
  groupBy := []
  groupQualified := by simp
  plainQualified := by decide
  aggregatedQualified := by decide
  plan := ⟨[], [⟨.min, some "amount", "min_amount"⟩]⟩
  planned := by decide

/-- The least amount of an item is the amount of the order. -/
example : aggregateRaw (fun _ => none) [orderItem.row] itemAmounts.plan =
    [⟨[("min_amount", .num 10)], by decide⟩] := by
  decide

theorem amounts_mistaken : ¬ ∀ (q : Query) (rows : List JoinedRecord), q.Attributed rows := by
  intro h
  have hread := (h itemAmounts [orderItem]).reads ⟨"i.amount", "amount", "min_amount"⟩ (by decide) orderItem
    List.mem_cons_self
  revert hread
  decide

end DataFabric.JoinedAggregates
