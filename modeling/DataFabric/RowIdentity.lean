import DataFabric.SpilledPartitions
import Mathlib.Data.List.Pairwise

set_option autoImplicit false

/-!
# The identity of a row

Set operations and DISTINCT compare rows by their JSON text, so two rows with the same values are one only if
they list their columns in one order.
-/
namespace DataFabric.RowIdentity
open CharText JsValues JsonTexts OrderedRecords FederatedJoins SetOperations SpilledPartitions

inductive SelectItem
  | name (s : String)
  | func (func aliasName : String)
  | column (column aliasName : String)
  | other
  deriving DecidableEq

def property (row : SourceRow) (key : String) : JsValue := (row.get? key).getD .undefined

def firstDefined (row : SourceRow) (first second : String) : JsValue :=
  if property row first ≠ .undefined then property row first else property row second

def orName (a b : String) : String := if a = "" then b else a

def projectItem (row : SourceRow) (projected : SourceRow) : SelectItem → SourceRow
  | .name s =>
    if baseColumn s = "" then projected
    else projected.assign (baseColumn s) (firstDefined row (baseColumn s) (baseColumn s))
  | .func f aliasName =>
    projected.assign (orName aliasName (asciiLower f)) (firstDefined row (orName aliasName (asciiLower f)) (asciiLower f))
  | .column c aliasName =>
    if baseColumn c = "" then projected
    else projected.assign (orName aliasName (baseColumn c)) (firstDefined row (orName aliasName (baseColumn c)) (baseColumn c))
  | .other => projected

def names (select : List SelectItem) : Bool := select ≠ [] && !select.contains (.name "*")

def projectRowToAlias (row : SourceRow) (select : List SelectItem) : SourceRow :=
  if names select then select.foldl (projectItem row) Record.empty else row

structure Leg where
  select : List SelectItem
  rows : List SourceRow

def Leg.projected (leg : Leg) : List SourceRow := leg.rows.map fun row => projectRowToAlias row leg.select

def setOperation (op : SetOp) (n : ℕ) (spill : Bool) (first : Leg) (rest : List Leg) : List String :=
  evaluate op n spill first.projected (rest.map Leg.projected)

def distinctRows (rows : List SourceRow) : List SourceRow :=
  (rows.foldl
    (fun (acc : List String × List SourceRow) r =>
      if rowText r ∈ acc.1 then acc else (acc.1 ++ [rowText r], acc.2 ++ [r])) ([], [])).2

/-- The value of a column, none for one that JSON leaves out. -/
def fieldText (r : SourceRow) (k : String) : Option (List Char) := (r.get? k).bind stringify

/-- The same columns with the same values, in whatever order. -/
def SameRow (r s : SourceRow) : Prop := ∀ k, fieldText r k = fieldText s k

def ownKeys (r : SourceRow) : List String := (ownOrder (fieldTexts r.entries)).map Prod.fst

def Shows (t : String) (r : SourceRow) : Prop := ∃ s, rowText s = t ∧ SameRow s r

def Has (rows : List SourceRow) (r : SourceRow) : Prop := ∃ s ∈ rows, SameRow s r

def BelongsRow (op : SetOp) (first : List SourceRow) (rest : List (List SourceRow)) (r : SourceRow) : Prop :=
  match op with
  | .union => ∃ leg ∈ first :: rest, Has leg r
  | .intersect => ∀ leg ∈ first :: rest, Has leg r
  | .except => Has first r ∧ ∀ leg ∈ rest, ¬ Has leg r

structure OrderFree (op : SetOp) (first : List SourceRow) (rest : List (List SourceRow)) (result : List String) : Prop where
  once : ∀ t ∈ result, ∀ u ∈ result, ∀ r, Shows t r → Shows u r → t = u
  rows : ∀ r, (∃ t ∈ result, Shows t r) ↔ BelongsRow op first rest r

def HasAs (leg : List SourceRow) (r : SourceRow) (keys : List String) : Prop :=
  ∃ s ∈ leg, SameRow s r ∧ ownKeys s = keys

def OneOrder (rows : List SourceRow) : Prop := ∀ r ∈ rows, ∀ s ∈ rows, SameRow r s → ownKeys r = ownKeys s

def OrdersAgree (op : SetOp) (first : List SourceRow) (rest : List (List SourceRow)) : Prop :=
  match op with
  | .union => OneOrder (first ++ rest.flatten)
  | .intersect => ∀ r, (∀ leg ∈ first :: rest, Has leg r) → ∃! keys, ∀ leg ∈ first :: rest, HasAs leg r keys
  | .except =>
    (∀ r ∈ first, (∃ leg ∈ rest, Has leg r) → ∃ leg ∈ rest, HasAs leg r (ownKeys r)) ∧
      ∀ r ∈ first, ∀ s ∈ first, SameRow r s → (∀ leg ∈ rest, ¬ Has leg r) → ownKeys r = ownKeys s

variable {r s u : SourceRow}

theorem mem_fieldTexts {fields : List (String × JsValue)} {k : String} {t : List Char} :
    (k, t) ∈ fieldTexts fields ↔ ∃ v, (k, v) ∈ fields ∧ stringify v = some t := by
  induction fields with
  | nil => simp [fieldTexts]
  | cons field fields ih =>
    obtain ⟨l, w⟩ := field
    cases written : stringify w with
    | none =>
      simp only [fieldTexts, written, ih, List.mem_cons, Prod.mk.injEq]
      grind
    | some x =>
      simp only [fieldTexts, written, ih, List.mem_cons, Prod.mk.injEq]
      grind

theorem fieldText_iff {k : String} {t : List Char} : fieldText r k = some t ↔ (k, t) ∈ ownOrder (fieldTexts r.entries) := by
  rw [ownOrder_mem, mem_fieldTexts, fieldText, Option.bind_eq_some_iff]
  simp only [Record.get?_eq_some_iff]

theorem sameRow_of_text (same : rowText r = rowText s) : SameRow r s := by
  have closed : ∀ x : SourceRow, ∀ p ∈ fieldTexts x.entries, Closed p.2 :=
    fun x p inside => (fieldTexts_tidy x.entries p inside).closed
  have pairs := objectText_injective (closed r) (closed s) (String.ofList_injective same)
  intro k
  apply Option.ext
  intro t
  rw [fieldText_iff, fieldText_iff, pairs]

theorem pairs_of_keys (r : SourceRow) :
    ownOrder (fieldTexts r.entries) = (ownKeys r).map fun k => (k, (fieldText r k).getD []) := by
  rw [ownKeys, List.map_map]
  symm
  refine (List.map_congr_left fun p inside => ?_).trans (List.map_id _)
  have found : fieldText r p.1 = some p.2 := fieldText_iff.mpr inside
  rw [Function.comp_apply, found]
  rfl

theorem rowText_iff : rowText r = rowText s ↔ SameRow r s ∧ ownKeys r = ownKeys s := by
  have text : ∀ x y : SourceRow, ownOrder (fieldTexts x.entries) = ownOrder (fieldTexts y.entries) → rowText x = rowText y := by
    intro x y pairs
    rw [rowText, rowText, objectText, objectText, pairs]
  constructor
  · intro same
    have closed : ∀ x : SourceRow, ∀ p ∈ fieldTexts x.entries, Closed p.2 :=
      fun x p inside => (fieldTexts_tidy x.entries p inside).closed
    have pairs := objectText_injective (closed r) (closed s) (String.ofList_injective same)
    exact ⟨sameRow_of_text same, by rw [ownKeys, pairs, ownKeys]⟩
  · rintro ⟨same, keys⟩
    apply text
    rw [pairs_of_keys, pairs_of_keys, keys]
    exact List.map_congr_left fun k _ => by rw [same k]

theorem SameRow.symm (same : SameRow r s) : SameRow s r := fun k => (same k).symm

theorem SameRow.trans (first : SameRow r s) (second : SameRow s u) : SameRow r u := fun k => (first k).trans (second k)

theorem shows_iff : Shows (rowText s) r ↔ SameRow s r := by
  constructor
  · rintro ⟨s', text, same⟩
    exact (sameRow_of_text text).symm.trans same
  · intro same
    exact ⟨s, rfl, same⟩

variable {op : SetOp} {first : List SourceRow} {rest : List (List SourceRow)} {result : List String}

theorem union_iff (members : ∀ t, t ∈ result ↔ ∃ leg ∈ first :: rest, ∃ s ∈ leg, rowText s = t) :
    OrderFree .union first rest result ↔ OrdersAgree .union first rest := by
  have listed : ∀ r, r ∈ first ++ rest.flatten ↔ ∃ leg ∈ first :: rest, r ∈ leg := by simp
  constructor
  · intro free r inAll s inAll' same
    obtain ⟨leg, inLegs, inLeg⟩ := (listed r).mp inAll
    obtain ⟨leg', inLegs', inLeg'⟩ := (listed s).mp inAll'
    have one := free.once (rowText r) ((members _).mpr ⟨leg, inLegs, r, inLeg, rfl⟩) (rowText s)
      ((members _).mpr ⟨leg', inLegs', s, inLeg', rfl⟩) s (shows_iff.mpr same) (shows_iff.mpr fun k => rfl)
    exact (rowText_iff.mp one).2
  · intro agree
    constructor
    · intro t inResult u inResult' r shows shows'
      obtain ⟨leg, inLegs, a, inLeg, rfl⟩ := (members t).mp inResult
      obtain ⟨leg', inLegs', b, inLeg', rfl⟩ := (members u).mp inResult'
      have same := (shows_iff.mp shows).trans (shows_iff.mp shows').symm
      exact rowText_iff.mpr ⟨same, agree a ((listed a).mpr ⟨leg, inLegs, inLeg⟩) b ((listed b).mpr ⟨leg', inLegs', inLeg'⟩) same⟩
    · intro r
      constructor
      · rintro ⟨t, inResult, shows⟩
        obtain ⟨leg, inLegs, s, inLeg, rfl⟩ := (members t).mp inResult
        exact ⟨leg, inLegs, s, inLeg, shows_iff.mp shows⟩
      · rintro ⟨leg, inLegs, s, inLeg, same⟩
        exact ⟨rowText s, (members _).mpr ⟨leg, inLegs, s, inLeg, rfl⟩, shows_iff.mpr same⟩

theorem intersect_iff (members : ∀ t, t ∈ result ↔ ∀ leg ∈ first :: rest, ∃ s ∈ leg, rowText s = t) :
    OrderFree .intersect first rest result ↔ OrdersAgree .intersect first rest := by
  have common : ∀ s r, SameRow s r → (rowText s ∈ result ↔ ∀ leg ∈ first :: rest, HasAs leg r (ownKeys s)) := by
    intro s r same
    rw [members]
    constructor
    · intro all leg inLegs
      obtain ⟨x, inLeg, text⟩ := all leg inLegs
      have both := rowText_iff.mp text
      exact ⟨x, inLeg, both.1.trans same, both.2⟩
    · intro all leg inLegs
      obtain ⟨x, inLeg, own, keys⟩ := all leg inLegs
      exact ⟨x, inLeg, rowText_iff.mpr ⟨own.trans same.symm, keys⟩⟩
  constructor
  · intro free r inAll
    obtain ⟨t, inResult, s, rfl, same⟩ := (free.rows r).mpr inAll
    refine ⟨ownKeys s, (common s r same).mp inResult, fun keys all => ?_⟩
    obtain ⟨x, _, own, rfl⟩ := all first List.mem_cons_self
    have one := free.once _ ((common x r own).mpr all) _ inResult r (shows_iff.mpr own) (shows_iff.mpr same)
    exact (rowText_iff.mp one).2
  · intro agree
    have has : ∀ t ∈ result, ∀ r, Shows t r → ∀ leg ∈ first :: rest, Has leg r := by
      rintro t inResult r ⟨s, rfl, same⟩ leg inLegs
      obtain ⟨x, inLeg, own, _⟩ := (common s r same).mp inResult leg inLegs
      exact ⟨x, inLeg, own⟩
    constructor
    · intro t inResult u inResult' r shows shows'
      have inAll := has t inResult r shows
      obtain ⟨a, rfl, same⟩ := shows
      obtain ⟨b, rfl, same'⟩ := shows'
      have keys := (agree r inAll).unique ((common a r same).mp inResult) ((common b r same').mp inResult')
      exact rowText_iff.mpr ⟨same.trans same'.symm, keys⟩
    · intro r
      constructor
      · rintro ⟨t, inResult, shows⟩
        exact has t inResult r shows
      · intro inAll
        obtain ⟨keys, all, _⟩ := agree r inAll
        obtain ⟨x, _, own, rfl⟩ := all first List.mem_cons_self
        exact ⟨rowText x, (common x r own).mpr all, shows_iff.mpr own⟩

theorem except_iff (members : ∀ t, t ∈ result ↔ (∃ s ∈ first, rowText s = t) ∧ ∀ leg ∈ rest, ∀ s ∈ leg, rowText s ≠ t) :
    OrderFree .except first rest result ↔ OrdersAgree .except first rest := by
  have kept : ∀ r ∈ first, (∀ leg ∈ rest, ¬ Has leg r) → rowText r ∈ result := by
    intro r inFirst apart
    rw [members]
    exact ⟨⟨r, inFirst, rfl⟩, fun leg inRest s inLeg text => apart leg inRest ⟨s, inLeg, sameRow_of_text text⟩⟩
  constructor
  · intro free
    constructor
    · rintro r inFirst ⟨leg, inRest, has⟩
      by_contra none
      have inResult : rowText r ∈ result := by
        rw [members]
        refine ⟨⟨r, inFirst, rfl⟩, fun leg inRest s inLeg text => none ⟨leg, inRest, s, inLeg, ?_⟩⟩
        exact rowText_iff.mp text
      have belongs := (free.rows r).mp ⟨rowText r, inResult, shows_iff.mpr fun k => rfl⟩
      exact belongs.2 leg inRest has
    · intro r inFirst s inFirst' same apart
      have apart' : ∀ leg ∈ rest, ¬ Has leg s := by
        rintro leg inRest ⟨x, inLeg, own⟩
        exact apart leg inRest ⟨x, inLeg, own.trans same.symm⟩
      have one := free.once _ (kept r inFirst apart) _ (kept s inFirst' apart') s (shows_iff.mpr same)
        (shows_iff.mpr fun k => rfl)
      exact (rowText_iff.mp one).2
  · rintro ⟨removed, orders⟩
    have apart : ∀ a ∈ first, rowText a ∈ result → ∀ leg ∈ rest, ¬ Has leg a := by
      intro a inFirst inResult leg inRest has
      obtain ⟨leg', inRest', s, inLeg, same, keys⟩ := removed a inFirst ⟨leg, inRest, has⟩
      exact ((members _).mp inResult).2 leg' inRest' s inLeg (rowText_iff.mpr ⟨same, keys⟩)
    constructor
    · intro t inResult u inResult' r shows shows'
      obtain ⟨a, inFirst, rfl⟩ := ((members t).mp inResult).1
      obtain ⟨b, inFirst', rfl⟩ := ((members u).mp inResult').1
      have same := (shows_iff.mp shows).trans (shows_iff.mp shows').symm
      exact rowText_iff.mpr ⟨same, orders a inFirst b inFirst' same (apart a inFirst inResult)⟩
    · intro r
      constructor
      · rintro ⟨t, inResult, shows⟩
        obtain ⟨a, inFirst, rfl⟩ := ((members t).mp inResult).1
        have same := shows_iff.mp shows
        refine ⟨⟨a, inFirst, same⟩, ?_⟩
        rintro leg inRest ⟨x, inLeg, own⟩
        exact apart a inFirst inResult leg inRest ⟨x, inLeg, own.trans same.symm⟩
      · rintro ⟨⟨a, inFirst, same⟩, none⟩
        refine ⟨rowText a, kept a inFirst ?_, shows_iff.mpr same⟩
        rintro leg inRest ⟨x, inLeg, own⟩
        exact none leg inRest ⟨x, inLeg, own.trans same⟩

theorem orderFree_iff (op : SetOp) (n : ℕ) (spill : Bool) (first : List SourceRow) (rest : List (List SourceRow))
    (positive : 0 < n) : OrderFree op first rest (evaluate op n spill first rest) ↔ OrdersAgree op first rest := by
  have members : ∀ t, t ∈ evaluate op n spill first rest ↔
      Belongs op (first.map rowText) (rest.map fun leg => leg.map rowText) t := by
    intro t
    rw [evaluate_eq, mem_partitioned positive]
  cases op with
  | union =>
    apply union_iff
    intro t
    rw [members]
    simp [Belongs]
  | intersect =>
    apply intersect_iff
    intro t
    rw [members]
    simp [Belongs]
  | except =>
    apply except_iff
    intro t
    rw [members]
    simp [Belongs]

structure DistinctFree (rows result : List SourceRow) : Prop where
  once : result.Pairwise fun r s => ¬ SameRow r s
  rows : ∀ r, Has result r ↔ Has rows r

structure Seen (rows : List SourceRow) (acc : List String × List SourceRow) : Prop where
  texts : acc.1 = acc.2.map rowText
  nodup : acc.1.Nodup
  members : ∀ t, t ∈ acc.1 ↔ t ∈ rows.map rowText
  inside : ∀ r ∈ acc.2, r ∈ rows

theorem seen_step {rows : List SourceRow} {acc : List String × List SourceRow} (seen : Seen rows acc) (r : SourceRow) :
    Seen (rows ++ [r]) (if rowText r ∈ acc.1 then acc else (acc.1 ++ [rowText r], acc.2 ++ [r])) := by
  by_cases old : rowText r ∈ acc.1
  · rw [if_pos old]
    refine ⟨seen.texts, seen.nodup, fun t => ?_, fun s inside => List.mem_append_left _ (seen.inside s inside)⟩
    rw [List.map_append, List.mem_append, ← seen.members, List.map_singleton, List.mem_singleton]
    constructor
    · exact .inl
    · rintro (before | rfl)
      · exact before
      · exact old
  · rw [if_neg old]
    refine ⟨by rw [List.map_append, ← seen.texts, List.map_singleton], ?_, fun t => ?_, fun s inside => ?_⟩
    · rw [← List.concat_eq_append]
      exact List.Nodup.concat old seen.nodup
    · rw [List.map_append, List.mem_append, List.mem_append, seen.members, List.map_singleton]
    · rw [List.mem_append] at inside ⊢
      exact inside.imp_left (seen.inside s)

theorem seen_all (rows : List SourceRow) :
    Seen rows (rows.foldl
      (fun (acc : List String × List SourceRow) r =>
        if rowText r ∈ acc.1 then acc else (acc.1 ++ [rowText r], acc.2 ++ [r])) ([], [])) := by
  induction rows using List.reverseRecOn with
  | nil => exact ⟨rfl, List.nodup_nil, by simp, by simp⟩
  | append_singleton rows r ih =>
    rw [List.foldl_append]
    exact seen_step ih r

theorem distinct_iff (rows : List SourceRow) : DistinctFree rows (distinctRows rows) ↔ OneOrder rows := by
  have seen := seen_all rows
  have texts : ∀ r ∈ rows, ∃ s ∈ distinctRows rows, rowText s = rowText r := by
    intro r inside
    have member := (seen.members (rowText r)).mpr (List.mem_map_of_mem inside)
    rw [seen.texts] at member
    exact List.mem_map.mp member
  have apart : (distinctRows rows).Pairwise fun r s => rowText r ≠ rowText s := by
    have nodup := seen.nodup
    rw [seen.texts] at nodup
    exact List.pairwise_map.mp nodup
  have one : ∀ a ∈ distinctRows rows, ∀ b ∈ distinctRows rows, rowText a = rowText b → a = b := by
    have nodup := seen.nodup
    rw [seen.texts] at nodup
    intro a inside b inside' same
    exact List.inj_on_of_nodup_map nodup inside inside' same
  constructor
  · intro free r inside s inside' same
    obtain ⟨a, inResult, left⟩ := texts r inside
    obtain ⟨b, inResult', right⟩ := texts s inside'
    by_cases equal : a = b
    · subst equal
      exact (rowText_iff.mp (left.symm.trans right)).2
    · have both := (sameRow_of_text left).trans (same.trans (sameRow_of_text right).symm)
      have symmetric : Std.Symm fun r s => ¬ SameRow r s := ⟨fun r s differ back => differ back.symm⟩
      exact absurd both (free.once.forall inResult inResult' equal)
  · intro orders
    constructor
    · refine apart.imp_of_mem fun {a b} inside inside' differ same => ?_
      exact differ (rowText_iff.mpr ⟨same, orders a (seen.inside a inside) b (seen.inside b inside') same⟩)
    · intro r
      constructor
      · rintro ⟨s, inResult, same⟩
        exact ⟨s, seen.inside s inResult, same⟩
      · rintro ⟨s, inside, same⟩
        obtain ⟨a, inResult, text⟩ := texts s inside
        exact ⟨a, inResult, (sameRow_of_text text).trans same⟩

/-- Set operations and DISTINCT see through the order of the columns exactly as far as the rows agree in it. -/
theorem identity_iff (op : SetOp) (n : ℕ) (spill : Bool) (first : Leg) (rest : List Leg) (rows : List SourceRow)
    (positive : 0 < n) :
    (OrderFree op first.projected (rest.map Leg.projected) (setOperation op n spill first rest) ↔
      OrdersAgree op first.projected (rest.map Leg.projected)) ∧
    (DistinctFree rows (distinctRows rows) ↔ OneOrder rows) :=
  ⟨orderFree_iff op n spill _ _ positive, distinct_iff rows⟩

def ann : SourceRow := ⟨[("id", .num 1), ("name", .str "ann")], by decide⟩

/-- One partition. -/
theorem ann_identity : 0 < 1 ∧
    (OrderFree .union (Leg.projected ⟨[], [ann]⟩) ([⟨[], [ann]⟩].map Leg.projected)
      (setOperation .union 1 false ⟨[], [ann]⟩ [⟨[], [ann]⟩]) ↔
        OrdersAgree .union (Leg.projected ⟨[], [ann]⟩) ([⟨[], [ann]⟩].map Leg.projected)) ∧
    (DistinctFree [ann] (distinctRows [ann]) ↔ OneOrder [ann]) :=
  ⟨by decide, identity_iff .union 1 false ⟨[], [ann]⟩ [⟨[], [ann]⟩] [ann] (by decide)⟩

def annReordered : SourceRow := ⟨[("name", .str "ann"), ("id", .num 1)], by decide⟩

theorem ann_same : SameRow annReordered ann := by
  intro k
  unfold fieldText Record.get? ann annReordered
  by_cases id : k = "id"
  · subst id
    decide
  · by_cases name : k = "name"
    · subst name
      decide
    · have first : (k == "id") = false := beq_eq_false_iff_ne.mpr id
      have second : (k == "name") = false := beq_eq_false_iff_ne.mpr name
      rw [List.lookup_cons, List.lookup_cons, List.lookup_cons, List.lookup_cons, first, second]

/-- A union of two engines' rows has the row twice, and so has DISTINCT. -/
theorem ann_twice :
    ¬ OrderFree .union (Leg.projected ⟨[], [ann]⟩) ([⟨[], [annReordered]⟩].map Leg.projected)
      (setOperation .union 1 false ⟨[], [ann]⟩ [⟨[], [annReordered]⟩]) ∧
    ¬ DistinctFree [ann, annReordered] (distinctRows [ann, annReordered]) := by
  constructor
  · intro free
    have one := free.once (rowText ann) (by decide +kernel) (rowText annReordered) (by decide +kernel) ann
      ⟨ann, rfl, fun k => rfl⟩ ⟨annReordered, rfl, ann_same⟩
    exact absurd one (by decide +kernel)
  · intro free
    have both : distinctRows [ann, annReordered] = [ann, annReordered] := by decide +kernel
    have once := free.once
    rw [both] at once
    exact absurd ann_same.symm (List.rel_of_pairwise_cons once List.mem_cons_self)

end DataFabric.RowIdentity
