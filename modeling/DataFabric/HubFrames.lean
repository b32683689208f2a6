import DataFabric.HubCatalog
import DataFabric.TransitionRuns

set_option autoImplicit false

/-! # What a statement can do to the hub's tables, views and sequences -/
namespace DataFabric.HubFrames
open ColumnTypes Manifests HubCatalog TransitionRuns

variable {h : Hub} {S T n : String}

theorem at_iff {r : Relation} : r.at_ S n = true ↔ r.schema = S ∧ r.name = n := by
  simp [Relation.at_]

theorem table?_eq (h : Hub) (S n : String) :
    h.table? S n = h.relations.findSome? fun r => if r.at_ S n then r.body.table? else none := rfl

@[simp] theorem taken_addConstraints (cs : List Constraint) :
    (h.addConstraints cs).taken S n = h.taken S n := rfl

@[simp] theorem table?_addConstraints (cs : List Constraint) :
    (h.addConstraints cs).table? S n = h.table? S n := rfl

@[simp] theorem viewAt_addConstraints (cs : List Constraint) :
    (h.addConstraints cs).viewAt S n = h.viewAt S n := rfl

@[simp] theorem sequenceAt_addConstraints (cs : List Constraint) :
    (h.addConstraints cs).sequenceAt S n = h.sequenceAt S n := rfl

@[simp] theorem taken_addRelations (rs : List Relation) :
    (h.addRelations rs).taken S n = (h.taken S n || rs.any (·.at_ S n)) := by
  rw [Hub.taken, Hub.addRelations, List.any_append]
  rfl

@[simp] theorem viewAt_addRelations (rs : List Relation) :
    (h.addRelations rs).viewAt S n =
      (h.viewAt S n || rs.any fun r => r.at_ S n && r.body.isView) := by
  rw [Hub.viewAt, Hub.addRelations, List.any_append]
  rfl

@[simp] theorem sequenceAt_addRelations (rs : List Relation) :
    (h.addRelations rs).sequenceAt S n =
      (h.sequenceAt S n || rs.any fun r => r.at_ S n && r.body.isSequence) := by
  rw [Hub.sequenceAt, Hub.addRelations, List.any_append]
  rfl

@[simp] theorem table?_addRelations (rs : List Relation) :
    (h.addRelations rs).table? S n = (h.table? S n).or
      (rs.findSome? fun r => if r.at_ S n then r.body.table? else none) := by
  rw [table?_eq, Hub.addRelations, List.findSome?_append]
  rfl

@[simp] theorem findSome?_others (names : List String) :
    ((others T names).findSome? fun r => if r.at_ S n then r.body.table? else none) = none := by
  rw [List.findSome?_eq_none_iff]
  intro r hr
  obtain ⟨name, _, rfl⟩ := List.mem_map.mp hr
  split <;> rfl

theorem any_mapTable {p : Relation → Bool} {f : LiveTable → LiveTable}
    (hp : ∀ S T t, p ⟨S, T, .table (f t)⟩ = p ⟨S, T, .table t⟩) :
    (h.mapTable S T f).relations.any p = h.relations.any p := by
  rw [Hub.mapTable, List.any_map]
  refine congrArg h.relations.any (funext fun r => ?_)
  obtain ⟨S', T', body⟩ := r
  rw [Function.comp_apply]
  split
  · cases body with
    | table t => exact hp S' T' t
    | _ => rfl
  · rfl

@[simp] theorem taken_mapTable (S' T' : String) (f : LiveTable → LiveTable) :
    (h.mapTable S' T' f).taken S n = h.taken S n := any_mapTable fun _ _ _ => rfl

@[simp] theorem viewAt_mapTable (S' T' : String) (f : LiveTable → LiveTable) :
    (h.mapTable S' T' f).viewAt S n = h.viewAt S n := any_mapTable fun _ _ _ => rfl

@[simp] theorem sequenceAt_mapTable (S' T' : String) (f : LiveTable → LiveTable) :
    (h.mapTable S' T' f).sequenceAt S n = h.sequenceAt S n := any_mapTable fun _ _ _ => rfl

@[simp] theorem table?_mapTable (S' T' : String) (f : LiveTable → LiveTable) :
    (h.mapTable S' T' f).table? S n =
      if S = S' ∧ n = T' then (h.table? S n).map f else h.table? S n := by
  rw [table?_eq, Hub.mapTable, List.findSome?_map]
  split_ifs with hat
  · rw [table?_eq, List.map_findSome?]
    refine congrArg (h.relations.findSome? ·) (funext fun r => ?_)
    obtain ⟨rs, rn, body⟩ := r
    obtain ⟨rfl, rfl⟩ := hat
    by_cases hr : (⟨rs, rn, body⟩ : Relation).at_ S n
    · cases body <;> simp_all [Relation.at_, RelationBody.table?]
    · simp_all
  · refine congrArg (h.relations.findSome? ·) (funext fun r => ?_)
    obtain ⟨rs, rn, body⟩ := r
    by_cases hr : (⟨rs, rn, body⟩ : Relation).at_ S' T'
    · have hother (b : RelationBody) : (⟨rs, rn, b⟩ : Relation).at_ S n = false := by
        rw [at_iff] at hr
        rw [← Bool.not_eq_true, at_iff]
        rintro ⟨h₁, h₂⟩
        exact hat ⟨h₁ ▸ hr.1, h₂ ▸ hr.2⟩
      cases body <;> simp [hr, hother]
    · simp [hr]

/-! A new view takes the place of the views of its name and of nothing else. -/

theorem isView_iff {body : RelationBody} : body.isView = true →
    body.table? = none ∧ body.isSequence = false := by
  cases body <;> simp [RelationBody.isView, RelationBody.table?, RelationBody.isSequence]

theorem any_putView {p : Relation → Bool} {S' n' : String} {body : RelationBody}
    (hbody : p ⟨S', n', body⟩ = false) (hp : ∀ r, p r = true → r.at_ S' n' = true → r.body.isView = false) :
    (h.putView S' n' body).relations.any p = h.relations.any p := by
  rw [Hub.putView, List.any_append, List.any_filter]
  simp only [List.any_cons, List.any_nil, hbody, Bool.or_false]
  refine congrArg h.relations.any (funext fun r => ?_)
  cases hr : p r with
  | false => rw [Bool.and_false]
  | true =>
    cases hat : r.at_ S' n' with
    | false => simp
    | true => simp [hp r hr hat]

theorem at_other {S' n' : String} {r : Relation} (hne : ¬ (S' = S ∧ n' = n)) (h : r.at_ S n = true) :
    r.at_ S' n' = false := by
  rw [at_iff] at h
  rw [← Bool.not_eq_true, at_iff]
  rintro ⟨h₁, h₂⟩
  exact hne ⟨h₁.symm.trans h.1, h₂.symm.trans h.2⟩

theorem taken_putView (S' n' : String) (body : RelationBody) :
    (h.putView S' n' body).taken S n = (h.taken S n || (S' = S && n' = n)) := by
  by_cases hat : S' = S ∧ n' = n
  · obtain ⟨rfl, rfl⟩ := hat
    simp [Hub.taken, Hub.putView, Relation.at_]
  · have hfalse : (decide (S' = S) && decide (n' = n)) = false := by
      rw [← Bool.not_eq_true, Bool.and_eq_true, decide_eq_true_eq, decide_eq_true_eq]
      exact hat
    rw [Hub.taken, any_putView hfalse, hfalse, Bool.or_false]
    · rfl
    · intro r hr hat'
      rw [at_other hat hr] at hat'
      cases hat'

theorem viewAt_putView (S' n' : String) {body : RelationBody} (hbody : body.isView = true) :
    (h.putView S' n' body).viewAt S n = (h.viewAt S n || (S' = S && n' = n)) := by
  by_cases hat : S' = S ∧ n' = n
  · obtain ⟨rfl, rfl⟩ := hat
    simp [Hub.viewAt, Hub.putView, Relation.at_, hbody]
  · have hfalse : (decide (S' = S) && decide (n' = n)) = false := by
      rw [← Bool.not_eq_true, Bool.and_eq_true, decide_eq_true_eq, decide_eq_true_eq]
      exact hat
    rw [Hub.viewAt, any_putView (by simp [Relation.at_, hat]), hfalse, Bool.or_false]
    · rfl
    · intro r hr hat'
      rw [Bool.and_eq_true] at hr
      rw [at_other hat hr.1] at hat'
      cases hat'

theorem sequenceAt_putView (S' n' : String) {body : RelationBody} (hbody : body.isView = true) :
    (h.putView S' n' body).sequenceAt S n = h.sequenceAt S n := by
  refine any_putView (by simp [(isView_iff hbody).2]) fun r hr _ => ?_
  rw [Bool.and_eq_true] at hr
  rw [← Bool.not_eq_true]
  intro hview
  cases (isView_iff hview).2.symm.trans hr.2

theorem findSome?_filter {α β : Type*} {f : α → Option β} {q : α → Bool} {xs : List α}
    (h : ∀ x, q x = false → f x = none) : (xs.filter q).findSome? f = xs.findSome? f := by
  induction xs with
  | nil => rfl
  | cons x xs ih =>
    cases hq : q x with
    | false => rw [List.filter_cons_of_neg (by simp [hq]), List.findSome?_cons, h x hq, ih]
    | true => rw [List.filter_cons_of_pos hq, List.findSome?_cons, List.findSome?_cons, ih]

theorem table?_putView (S' n' : String) {body : RelationBody} (hbody : body.isView = true) :
    (h.putView S' n' body).table? S n = h.table? S n := by
  rw [table?_eq, Hub.putView, List.findSome?_append, findSome?_filter, List.findSome?_cons]
  · simp [(isView_iff hbody).1, table?_eq]
  · intro r hr
    have hview : r.body.isView = true := by simpa using (decide_eq_false_iff_not.mp hr |> not_not.mp).2
    rw [(isView_iff hview).1, ite_self]

/-- The relation a statement creates unless the name is taken. -/
def target : Statement → Option (String × String)
  | .createSequence S options => some (S, options.name)
  | .createTable S spec => some (S, spec.name)
  | .createBridge S bridge _ _ => some (S, bridge)
  | _ => none

def Makes : Statement → RelationBody → Prop
  | .createSequence _ options, body => body = .sequence options
  | .createTable _ spec, body => ∃ t, spec.create = some t ∧ body = .table t
  | .createBridge _ _ fromColumn toColumn, body => ∃ fromLive toLive, fromColumn.create = some fromLive ∧
      toColumn.create = some toLive ∧ body = .table ⟨[fromLive, toLive], [], false, [], []⟩
  | _, _ => False

def work : Statement → Option (String × String × (LiveTable → LiveTable))
  | .enableRowSecurity S T => some (S, T, fun t => { t with rowSecurity := true })
  | .createPolicy S T policy => some (S, T, fun t =>
      { t with policies := (t.policies.filter (·.name ≠ policy.name)) ++ [policy] })
  | .createTrigger S T trigger => some (S, T, fun t =>
      { t with triggers := (t.triggers.filter (·.name ≠ trigger.name)) ++ [trigger] })
  | .addColumn S T spec => spec.create.map fun column => (S, T, (·.addColumn column))
  | .dropDefault S T column => some (S, T, (·.mapColumn column fun c => { c with default := none }))
  | .alterType S T column type => (catalogRow type).map fun row =>
      (S, T, (·.mapColumn column fun c => { c with type := row }))
  | .setDefault S T column value =>
    some (S, T, (·.mapColumn column fun c => { c with default := some value }))
  | _ => none

def view : Statement → Option (String × String)
  | .createView S n _ | .recreateMaterializedView S n _ => some (S, n)
  | _ => none

inductive Effect (h : Hub) : Statement → Hub → Prop
  | keeps {s h' S names} (target : target s = none) (work : work s = none) (view : view s = none)
      (relations : h'.relations = (h.addRelations (others S names)).relations) : Effect h s h'
  | skips {s h' S n} (target : target s = some (S, n)) (taken : h.taken S n = true)
      (relations : h'.relations = h.relations) : Effect h s h'
  | creates {s h' S n body names} (target : target s = some (S, n)) (free : h.taken S n = false)
      (makes : Makes s body)
      (relations : h'.relations = (h.addRelations (⟨S, n, body⟩ :: others S names)).relations) :
      Effect h s h'
  | works {s h' S T f names} (target : target s = none) (view : view s = none)
      (work : work s = some (S, T, f))
      (relations : h'.relations = ((h.mapTable S T f).addRelations (others S names)).relations) :
      Effect h s h'
  | views {s h' S n body} (target : target s = none) (view : view s = some (S, n))
      (isView : body.isView = true) (relations : h'.relations = (h.putView S n body).relations) :
      Effect h s h'

variable {pg : Postgres} {h' : Hub} {s : Statement}

theorem exec_ok (hx : exec pg h s = some h') : effect pg h s = some h' := by
  unfold exec at hx
  split at hx
  · exact hx
  · cases hx

theorem addRelations_nil (h : Hub) (S : String) :
    h.relations = (h.addRelations (others S [])).relations :=
  (List.append_nil _).symm

theorem exec_effect (hx : exec pg h s = some h') : Effect h s h' := by
  have hx := exec_ok hx
  cases s with
  | createSchema schema =>
    cases hx
    refine .keeps rfl rfl rfl ((?_ : _ = h.relations).trans (addRelations_nil h ""))
    split <;> rfl
  | createEnum | addEnumValue | remark | createFunction | grant =>
    cases hx
    exact .keeps rfl rfl rfl (addRelations_nil h "")
  | addForeignKey constraint schema table key =>
    cases hx
    refine .keeps rfl rfl rfl ((?_ : _ = h.relations).trans (addRelations_nil h ""))
    split <;> rfl
  | createSequence schema options =>
    cases hx
    cases ht : h.taken schema options.name with
    | true => exact .skips rfl ht (by rw [if_pos rfl])
    | false =>
      exact .creates rfl ht rfl
        (show _ = (h.addRelations (_ :: others schema [])).relations by rw [if_neg Bool.false_ne_true]; rfl)
  | createTable schema spec =>
    cases ht : h.taken schema spec.name with
    | true =>
      rw [effect, if_pos ht, Option.some.injEq] at hx
      exact .skips rfl ht (by rw [hx])
    | false =>
      rw [effect, if_neg (by simp [ht]), Option.map_eq_some_iff] at hx
      obtain ⟨t, hcreate, rfl⟩ := hx
      exact .creates rfl ht ⟨t, hcreate, rfl⟩ rfl
  | createBridge schema bridge fromColumn toColumn =>
    cases ht : h.taken schema bridge with
    | true =>
      rw [effect, if_pos ht, Option.some.injEq] at hx
      exact .skips rfl ht (by rw [hx])
    | false =>
      rw [effect, if_neg (by simp [ht]), Option.bind_eq_some_iff] at hx
      obtain ⟨fromLive, hfrom, hx⟩ := hx
      rw [Option.map_eq_some_iff] at hx
      obtain ⟨toLive, hto, rfl⟩ := hx
      exact .creates rfl ht ⟨fromLive, toLive, hfrom, hto, rfl⟩ rfl
  | createIndex schema index table method columns =>
    cases hx
    cases ht : h.taken schema index with
    | true => exact .keeps rfl rfl rfl (addRelations_nil h schema)
    | false => exact .keeps rfl rfl rfl rfl
  | enableRowSecurity | createPolicy | createTrigger | dropDefault | setDefault =>
    cases hx
    exact .works rfl rfl rfl (addRelations_nil _ _)
  | addColumn schema table spec =>
    rw [effect, Option.map_eq_some_iff] at hx
    obtain ⟨column, hcreate, rfl⟩ := hx
    exact .works rfl rfl (by rw [work, hcreate]; rfl) rfl
  | alterType schema table column type =>
    rw [effect, Option.map_eq_some_iff] at hx
    obtain ⟨row, hrow, rfl⟩ := hx
    exact .works rfl rfl (by rw [work, hrow]; rfl) (addRelations_nil _ _)
  | createView | recreateMaterializedView =>
    cases hx
    exact .views rfl rfl rfl rfl

variable {h₂ : Hub}

theorem taken_congr (e : h'.relations = h₂.relations) : h'.taken S n = h₂.taken S n := by
  rw [Hub.taken, e]
  rfl

theorem table?_congr (e : h'.relations = h₂.relations) : h'.table? S n = h₂.table? S n := by
  rw [Hub.table?, e]
  rfl

theorem viewAt_congr (e : h'.relations = h₂.relations) : h'.viewAt S n = h₂.viewAt S n := by
  rw [Hub.viewAt, e]
  rfl

theorem sequenceAt_congr (e : h'.relations = h₂.relations) :
    h'.sequenceAt S n = h₂.sequenceAt S n := by
  rw [Hub.sequenceAt, e]
  rfl

theorem taken_mono (hx : exec pg h s = some h') (ht : h.taken S n = true) : h'.taken S n = true := by
  cases exec_effect hx with
  | keeps _ _ _ e => rw [taken_congr e, taken_addRelations, ht, Bool.true_or]
  | skips _ _ e => rw [taken_congr e, ht]
  | creates _ _ _ e => rw [taken_congr e, taken_addRelations, ht, Bool.true_or]
  | works _ _ _ e => rw [taken_congr e, taken_addRelations, taken_mapTable, ht, Bool.true_or]
  | views _ _ _ e => rw [taken_congr e, taken_putView, ht, Bool.true_or]

theorem viewAt_mono (hx : exec pg h s = some h') (ht : h.viewAt S n = true) : h'.viewAt S n = true := by
  cases exec_effect hx with
  | keeps _ _ _ e => rw [viewAt_congr e, viewAt_addRelations, ht, Bool.true_or]
  | skips _ _ e => rw [viewAt_congr e, ht]
  | creates _ _ _ e => rw [viewAt_congr e, viewAt_addRelations, ht, Bool.true_or]
  | works _ _ _ e => rw [viewAt_congr e, viewAt_addRelations, viewAt_mapTable, ht, Bool.true_or]
  | views _ _ hv e => rw [viewAt_congr e, viewAt_putView _ _ hv, ht, Bool.true_or]

theorem any_others {p : Relation → Bool} {names : List String}
    (hp : ∀ name, p ⟨S, name, .other⟩ = false) : (others S names).any p = false := by
  rw [List.any_eq_false]
  intro r hr
  obtain ⟨name, _, rfl⟩ := List.mem_map.mp hr
  simp [hp]

theorem makes_sequence {body : RelationBody} (h : Makes s body) :
    body.isSequence = true ↔ ∃ S options, s = .createSequence S options := by
  cases s with
  | createSequence S options =>
    cases h
    exact iff_of_true rfl ⟨S, options, rfl⟩
  | createTable =>
    obtain ⟨t, _, rfl⟩ := h
    exact iff_of_false Bool.false_ne_true (by simp)
  | createBridge =>
    obtain ⟨fromLive, toLive, _, _, rfl⟩ := h
    exact iff_of_false Bool.false_ne_true (by simp)
  | _ => cases h

theorem sequenceAt_creates {S₀ n₀ : String} {body : RelationBody} {names : List String}
    (e : h'.relations = (h.addRelations (⟨S₀, n₀, body⟩ :: others S₀ names)).relations) :
    h'.sequenceAt S n = (h.sequenceAt S n || (S₀ = S && n₀ = n && body.isSequence)) := by
  rw [sequenceAt_congr e, sequenceAt_addRelations, List.any_cons,
    any_others fun _ => Bool.and_false _, Bool.or_false]
  rfl

theorem sequenceAt_step (hx : exec pg h s = some h') :
    h'.sequenceAt S n = true ↔ h.sequenceAt S n = true ∨
      h.taken S n = false ∧ ∃ options, s = .createSequence S options ∧ options.name = n := by
  have hnone (ht : target s = none) :
      ¬ ∃ options, s = .createSequence S options ∧ options.name = n := by
    rintro ⟨options, rfl, _⟩
    cases ht
  cases exec_effect hx with
  | keeps ht _ _ e =>
    rw [sequenceAt_congr e, sequenceAt_addRelations, any_others fun _ => Bool.and_false _,
      Bool.or_false]
    simp [hnone ht]
  | works ht _ _ e =>
    rw [sequenceAt_congr e, sequenceAt_addRelations, any_others fun _ => Bool.and_false _,
      Bool.or_false, sequenceAt_mapTable]
    simp [hnone ht]
  | views ht _ hv e =>
    rw [sequenceAt_congr e, sequenceAt_putView _ _ hv]
    simp [hnone ht]
  | skips ht htaken e =>
    rw [sequenceAt_congr e]
    refine (or_iff_left ?_).symm
    rintro ⟨hfree, options, rfl, rfl⟩
    cases ht
    rw [htaken] at hfree
    cases hfree
  | creates ht hfree hmakes e =>
    rw [sequenceAt_creates e, Bool.or_eq_true]
    refine or_congr_right ?_
    simp only [Bool.and_eq_true, decide_eq_true_eq]
    constructor
    · rintro ⟨⟨rfl, rfl⟩, hbody⟩
      obtain ⟨S', options, rfl⟩ := (makes_sequence hmakes).mp hbody
      cases ht
      exact ⟨hfree, options, rfl, rfl⟩
    · rintro ⟨_, options, rfl, rfl⟩
      cases ht
      exact ⟨⟨rfl, rfl⟩, (makes_sequence hmakes).mpr ⟨_, _, rfl⟩⟩

theorem table?_creates {S₀ n₀ : String} {body : RelationBody} {names : List String}
    (e : h'.relations = (h.addRelations (⟨S₀, n₀, body⟩ :: others S₀ names)).relations) :
    h'.table? S n = (h.table? S n).or (if S₀ = S ∧ n₀ = n then body.table? else none) := by
  rw [table?_congr e, table?_addRelations, List.findSome?_cons, findSome?_others]
  simp only [Relation.at_, Bool.and_eq_true, decide_eq_true_eq]
  cases (if S₀ = S ∧ n₀ = n then body.table? else none) <;> rfl

theorem table?_step (S n : String) (hx : exec pg h s = some h') :
    h'.table? S n = h.table? S n ∨
    (∃ f, work s = some (S, n, f) ∧ h'.table? S n = (h.table? S n).map f) ∨
    (h.taken S n = false ∧ target s = some (S, n) ∧
      ∃ t, Makes s (.table t) ∧ h'.table? S n = some t) := by
  cases exec_effect hx with
  | keeps _ _ _ e =>
    rw [table?_congr e, table?_addRelations, findSome?_others, Option.or_none]
    exact .inl rfl
  | skips _ _ e => exact .inl (table?_congr e)
  | views _ _ hv e =>
    rw [table?_congr e, table?_putView _ _ hv]
    exact .inl rfl
  | works ht hv hwork e =>
    rename_i S₀ T₀ f names
    rw [table?_congr e, table?_addRelations, findSome?_others, Option.or_none, table?_mapTable]
    split_ifs with hat
    · obtain ⟨rfl, rfl⟩ := hat
      exact .inr (.inl ⟨f, hwork, rfl⟩)
    · exact .inl rfl
  | creates ht hfree hmakes e =>
    rw [table?_creates e]
    cases htable : h.table? S n with
    | some t => exact .inl rfl
    | none =>
      split_ifs with hat
      · obtain ⟨rfl, rfl⟩ := hat
        rename_i body names
        cases body with
        | table t => exact .inr (.inr ⟨hfree, ht, t, hmakes, rfl⟩)
        | _ => exact .inl rfl
      · exact .inl rfl

theorem tableAt_mono (hx : exec pg h s = some h') (ht : h.tableAt S n = true) :
    h'.tableAt S n = true := by
  rw [Hub.tableAt, Option.isSome_iff_exists] at ht
  obtain ⟨t, ht⟩ := ht
  rcases table?_step S n hx with e | ⟨f, _, e⟩ | ⟨_, _, t', _, e⟩
  all_goals
    rw [Hub.tableAt, e]
    simp [ht]

theorem tableAt_made (hx : exec pg h s = some h') (ht : target s = some (S, n))
    (hsequence : ∀ S q, s ≠ .createSequence S q) (hfree : h.taken S n = false) :
    h'.tableAt S n = true := by
  cases exec_effect hx with
  | keeps hnone | works hnone | views hnone => cases hnone.symm.trans ht
  | skips ht' htaken =>
    cases ht'.symm.trans ht
    cases htaken.symm.trans hfree
  | creates ht' hfree' hmakes e =>
    rename_i S₀ n₀ body names
    cases ht'.symm.trans ht
    have hbody : ∃ t, body = .table t := by
      cases s with
      | createSequence S q => exact absurd rfl (hsequence S q)
      | createTable =>
        obtain ⟨t, _, hbody⟩ := hmakes
        exact ⟨t, hbody⟩
      | createBridge =>
        obtain ⟨fromLive, toLive, _, _, hbody⟩ := hmakes
        exact ⟨_, hbody⟩
      | _ => cases hmakes
    obtain ⟨t, rfl⟩ := hbody
    rw [Hub.tableAt, table?_creates e, if_pos ⟨rfl, rfl⟩, Option.isSome_or]
    exact Bool.or_true _

theorem mem_liveTables : T ∈ h.liveTables S ↔ h.tableAt S T = true := by
  rw [Hub.liveTables, List.mem_filterMap, Hub.tableAt, Hub.table?, List.findSome?_isSome_iff]
  refine exists_congr fun r => and_congr_right fun _ => ?_
  by_cases hat : r.at_ S T = true
  · have hst := at_iff.mp hat
    simp [hat, hst, Option.isSome_iff_ne_none]
  · rw [if_neg hat]
    refine iff_of_false ?_ Bool.false_ne_true
    split_ifs with hr
    · exact fun e => hat (at_iff.mpr ⟨hr.1, Option.some.inj e⟩)
    · exact nofun

theorem taken_of_tableAt (ht : h.tableAt S n = true) : h.taken S n = true := by
  rw [Hub.tableAt, Option.isSome_iff_exists] at ht
  obtain ⟨t, ht⟩ := ht
  obtain ⟨r, hr, hsome⟩ := List.exists_of_findSome?_eq_some ht
  rw [Hub.taken, List.any_eq_true]
  refine ⟨r, hr, ?_⟩
  by_contra hat
  rw [if_neg hat] at hsome
  cases hsome

theorem taken_of_target (hx : exec pg h s = some h') (ht : target s = some (S, n)) :
    h'.taken S n = true := by
  cases exec_effect hx with
  | keeps hnone | works hnone | views hnone => cases hnone.symm.trans ht
  | skips ht' htaken e =>
    cases ht'.symm.trans ht
    rw [taken_congr e, htaken]
  | creates ht' _ _ e =>
    cases ht'.symm.trans ht
    rw [taken_congr e, taken_addRelations]
    simp [Relation.at_]

theorem viewAt_of_view (hx : exec pg h s = some h') (hv : view s = some (S, n)) :
    h'.viewAt S n = true := by
  cases exec_effect hx with
  | keeps _ _ hnone | works _ hnone => cases hnone.symm.trans hv
  | skips ht | creates ht =>
    cases s <;> cases ht <;> cases hv
  | views _ hv' hbody e =>
    cases hv'.symm.trans hv
    rw [viewAt_congr e, viewAt_putView _ _ hbody]
    simp

theorem viewAt_step (hx : exec pg h s = some h') :
    h'.viewAt S n = true ↔ h.viewAt S n = true ∨ view s = some (S, n) := by
  have hnone (hv : view s = none) : ¬ view s = some (S, n) := by
    rw [hv]
    exact nofun
  cases exec_effect hx with
  | keeps _ _ hv e =>
    rw [viewAt_congr e, viewAt_addRelations, any_others fun _ => Bool.and_false _, Bool.or_false,
      or_iff_left (hnone hv)]
  | works _ hv _ e =>
    rw [viewAt_congr e, viewAt_addRelations, any_others fun _ => Bool.and_false _, Bool.or_false,
      viewAt_mapTable, or_iff_left (hnone hv)]
  | skips ht _ e =>
    rw [viewAt_congr e, or_iff_left]
    cases s <;> cases ht <;> exact nofun
  | creates ht hfree hmakes e =>
    rename_i S₀ n₀ body names
    have hbody : body.isView = false := by
      cases s with
      | createSequence =>
        cases hmakes
        rfl
      | createTable =>
        obtain ⟨t, _, rfl⟩ := hmakes
        rfl
      | createBridge =>
        obtain ⟨fromLive, toLive, _, _, rfl⟩ := hmakes
        rfl
      | _ => cases hmakes
    rw [viewAt_congr e, viewAt_addRelations, List.any_cons, any_others fun _ => Bool.and_false _,
      or_iff_left]
    · simp [hbody]
    · cases s <;> cases ht <;> exact nofun
  | views _ hv hbody e =>
    rename_i S₀ n₀ body
    rw [viewAt_congr e, viewAt_putView _ _ hbody, hv, Bool.or_eq_true]
    simp

/-- The statements that change nothing but relations and constraints. -/
def relational : Statement → Bool
  | .createSchema _ | .createEnum _ _ _ | .addEnumValue _ _ _ | .createFunction _ _ => false
  | _ => true

theorem exec_relational (hx : exec pg h s = some h') (hs : relational s = true) :
    h'.schemas = h.schemas ∧ h'.enums = h.enums ∧ h'.functions = h.functions := by
  have hx := exec_ok hx
  cases s with
  | createSchema | createEnum | addEnumValue | createFunction => cases hs
  | createSequence | createIndex | addForeignKey =>
    cases hx
    split <;> exact ⟨rfl, rfl, rfl⟩
  | createTable =>
    rw [effect] at hx
    split at hx
    · cases hx
      exact ⟨rfl, rfl, rfl⟩
    · obtain ⟨t, _, rfl⟩ := Option.map_eq_some_iff.mp hx
      exact ⟨rfl, rfl, rfl⟩
  | createBridge =>
    rw [effect] at hx
    split at hx
    · cases hx
      exact ⟨rfl, rfl, rfl⟩
    · obtain ⟨fromLive, _, hx⟩ := Option.bind_eq_some_iff.mp hx
      obtain ⟨toLive, _, rfl⟩ := Option.map_eq_some_iff.mp hx
      exact ⟨rfl, rfl, rfl⟩
  | addColumn | alterType =>
    obtain ⟨_, _, rfl⟩ := Option.map_eq_some_iff.mp hx
    exact ⟨rfl, rfl, rfl⟩
  | _ =>
    cases hx
    exact ⟨rfl, rfl, rfl⟩

theorem schemas_step (hx : exec pg h s = some h') (hS : S ∈ h.schemas ∨ s = .createSchema S) :
    S ∈ h'.schemas := by
  cases hs : relational s with
  | true =>
    rw [(exec_relational hx hs).1]
    refine hS.resolve_right ?_
    rintro rfl
    cases hs
  | false =>
    have hx := exec_ok hx
    cases s with
    | createSchema S' =>
      cases hx
      rcases hS with hS | hS
      · split <;> simp [hS]
      · cases hS
        split <;> simp [*]
    | createEnum | addEnumValue | createFunction =>
      cases hx
      exact hS.resolve_right nofun
    | _ => cases hs

theorem enum_isSome (h : Hub) :
    (h.enum? S n).isSome = h.enums.any fun e => e.schema = S && e.name = n := by
  rw [Hub.enum?, Bool.eq_iff_iff, List.find?_isSome, List.any_eq_true]

theorem enum_step (hx : exec pg h s = some h')
    (he : (h.enum? S n).isSome = true ∨ ∃ values, s = .createEnum S n values) :
    (h'.enum? S n).isSome = true := by
  rw [enum_isSome] at he ⊢
  cases hs : relational s with
  | true =>
    rw [(exec_relational hx hs).2.1]
    refine he.resolve_right ?_
    rintro ⟨values, rfl⟩
    cases hs
  | false =>
    have hx := exec_ok hx
    cases s with
    | createEnum =>
      cases hx
      rw [List.any_append, Bool.or_eq_true]
      rcases he with he | ⟨values, he⟩
      · exact .inl he
      · cases he
        exact .inr (by simp)
    | addEnumValue =>
      cases hx
      have he := he.resolve_right nofun
      rw [List.any_map]
      rw [List.any_eq_true] at he ⊢
      obtain ⟨e, hmem, hat⟩ := he
      refine ⟨e, hmem, ?_⟩
      rw [Function.comp_apply]
      split <;> exact hat
    | createSchema =>
      cases hx
      split <;> exact he.resolve_right nofun
    | createFunction =>
      cases hx
      exact he.resolve_right nofun
    | _ => cases hs

theorem typeAt_mono (hx : exec pg h s = some h') (ht : h.typeAt S n = true) : h'.typeAt S n = true := by
  unfold Hub.typeAt at ht ⊢
  simp only [Bool.or_eq_true] at ht ⊢
  rcases ht with (ht | ht) | ht
  · exact .inl (.inl (enum_step hx (.inl ht)))
  · exact .inl (.inr (tableAt_mono hx ht))
  · exact .inr (viewAt_mono hx ht)

theorem functionAt_step (hx : exec pg h s = some h')
    (hf : h.functionAt S n = true ∨ ∃ f, s = .createFunction S f ∧ f.name = n) :
    h'.functionAt S n = true := by
  unfold Hub.functionAt at hf ⊢
  cases hs : relational s with
  | true =>
    rw [(exec_relational hx hs).2.2]
    refine hf.resolve_right ?_
    rintro ⟨f, rfl, _⟩
    cases hs
  | false =>
    have hx := exec_ok hx
    cases s with
    | createFunction S' definition =>
      cases hx
      rw [List.any_append, List.any_filter, Bool.or_eq_true]
      by_cases hat : S' = S ∧ definition.name = n
      · exact .inr (by simp [hat])
      · have hf := hf.resolve_right fun ⟨f, heq, hname⟩ => hat (by
          cases heq
          exact ⟨rfl, hname⟩)
        left
        rw [List.any_eq_true] at hf ⊢
        obtain ⟨f, hmem, hat'⟩ := hf
        refine ⟨f, hmem, ?_⟩
        simp only [Bool.and_eq_true, decide_eq_true_eq] at hat' ⊢
        refine ⟨fun hsame => hat ⟨?_, ?_⟩, hat'⟩
        · exact hsame.1.symm.trans hat'.1
        · exact hsame.2.symm.trans hat'.2
    | createSchema =>
      cases hx
      split <;> exact hf.resolve_right nofun
    | createEnum | addEnumValue =>
      cases hx
      exact hf.resolve_right nofun
    | _ => cases hs

theorem constraints_step (hx : exec pg h s = some h') :
    ∃ added, h'.constraints = h.constraints ++ added := by
  have hx := exec_ok hx
  cases s with
  | createSchema | createSequence | createIndex =>
    cases hx
    exact ⟨[], by split <;> exact (List.append_nil _).symm⟩
  | createTable =>
    rw [effect] at hx
    split at hx
    · cases hx
      exact ⟨[], (List.append_nil _).symm⟩
    · obtain ⟨t, _, rfl⟩ := Option.map_eq_some_iff.mp hx
      exact ⟨_, rfl⟩
  | createBridge =>
    rw [effect] at hx
    split at hx
    · cases hx
      exact ⟨[], (List.append_nil _).symm⟩
    · obtain ⟨fromLive, _, hx⟩ := Option.bind_eq_some_iff.mp hx
      obtain ⟨toLive, _, rfl⟩ := Option.map_eq_some_iff.mp hx
      exact ⟨_, rfl⟩
  | addColumn =>
    obtain ⟨column, _, rfl⟩ := Option.map_eq_some_iff.mp hx
    exact ⟨_, rfl⟩
  | alterType =>
    obtain ⟨row, _, rfl⟩ := Option.map_eq_some_iff.mp hx
    exact ⟨[], (List.append_nil _).symm⟩
  | addForeignKey =>
    cases hx
    split
    · exact ⟨[], (List.append_nil _).symm⟩
    · exact ⟨_, rfl⟩
  | _ =>
    cases hx
    exact ⟨[], (List.append_nil _).symm⟩

theorem constraint_mono {k : Constraint} (hx : exec pg h s = some h') (hk : k ∈ h.constraints) :
    k ∈ h'.constraints := by
  obtain ⟨added, e⟩ := constraints_step hx
  exact e ▸ List.mem_append_left added hk

theorem addForeignKey_name {name : String} {key : ForeignKey}
    (hx : exec pg h (.addForeignKey name S T key) = some h') : ∃ k ∈ h'.constraints, k.name = name := by
  have hx := exec_ok hx
  cases hx
  split
  · rename_i hany
    simpa using hany
  · exact ⟨_, List.mem_append_right _ List.mem_cons_self, rfl⟩

theorem addForeignKey_adds {name : String} {key : ForeignKey}
    (hx : exec pg h (.addForeignKey name S T key) = some h') (hfree : ∀ k ∈ h.constraints, k.name ≠ name) :
    h'.constraints = h.constraints ++ [⟨name, S, T, some key⟩] := by
  cases exec_ok hx
  rw [if_neg]
  · rfl
  · simpa using hfree

theorem mem_bridge_constraints {column : BridgeColumn} {k : Constraint} :
    k ∈ column.constraints pg h S T ↔ ∃ refSchema refTable refColumn,
      column.references = some (refSchema, refTable, refColumn) ∧
      k = ⟨pg.referenceName h S T column.name, S, T, some ⟨column.name, refSchema, refTable, refColumn⟩⟩ := by
  unfold BridgeColumn.constraints
  cases column.references with
  | none => simp
  | some reference =>
    obtain ⟨refSchema, refTable, refColumn⟩ := reference
    simp

theorem mem_unreferenced {names : List String} {k : Constraint} (hk : k ∈ unreferenced S T names) :
    k.schema = S ∧ k.table = T ∧ k.foreignKey = none := by
  obtain ⟨name, _, rfl⟩ := List.mem_map.mp hk
  exact ⟨rfl, rfl, rfl⟩

theorem createBridge_makes {fromColumn toColumn : BridgeColumn}
    (hx : exec pg h (.createBridge S n fromColumn toColumn) = some h') (hfree : h.taken S n = false) :
    ∃ fromLive toLive names, fromColumn.create = some fromLive ∧ toColumn.create = some toLive ∧
      h'.table? S n = some ⟨[fromLive, toLive], [], false, [], []⟩ ∧
      h'.constraints = h.constraints ++ (fromColumn.constraints pg h S n ++
        toColumn.constraints pg h S n ++ unreferenced S n names) := by
  have hok := exec_ok hx
  rw [effect, if_neg (by simp [hfree]), Option.bind_eq_some_iff] at hok
  obtain ⟨fromLive, hfrom, hok⟩ := hok
  obtain ⟨toLive, hto, rfl⟩ := Option.map_eq_some_iff.mp hok
  refine ⟨fromLive, toLive, _, hfrom, hto, ?_, rfl⟩
  have hnone : h.table? S n = none := by
    by_contra hsome
    have htable : h.tableAt S n = true := by simpa [Hub.tableAt, Option.isSome_iff_ne_none] using hsome
    cases hfree.symm.trans (taken_of_tableAt htable)
  rw [table?_addConstraints, table?_addRelations, hnone, List.findSome?_cons]
  simp [Relation.at_, RelationBody.table?]

def LiveTable.typeOf (t : LiveTable) (c : String) : Option CatalogType := (t.column? c).map (·.type)

def Hub.typeOf (h : Hub) (S T c : String) : Option CatalogType :=
  (h.table? S T).bind (LiveTable.typeOf · c)

def columnOf : Statement → Option (String × String × String)
  | .addColumn S T spec => some (S, T, spec.name)
  | .alterType S T c _ => some (S, T, c)
  | _ => none

variable {c : String} {t : LiveTable}

theorem column?_mapColumn (column : String) {f : LiveColumn → LiveColumn}
    (hname : ∀ live, (f live).name = live.name) :
    (t.mapColumn column f).column? c =
      (t.column? c).map fun live => if live.name = column then f live else live := by
  rw [LiveTable.column?, LiveTable.mapColumn, List.find?_map]
  refine congrArg (Option.map _) (congrArg (t.columns.find? ·) (funext fun live => ?_))
  rw [Function.comp_apply]
  split
  · rw [hname]
  · rfl

theorem typeOf_mapColumn (column : String) {f : LiveColumn → LiveColumn}
    (hname : ∀ live, (f live).name = live.name) (htype : ∀ live, (f live).type = live.type) :
    LiveTable.typeOf (t.mapColumn column f) c = LiveTable.typeOf t c := by
  rw [LiveTable.typeOf, column?_mapColumn column hname, Option.map_map]
  refine congrArg (Option.map · (t.column? c)) (funext fun live => ?_)
  rw [Function.comp_apply]
  split
  · exact htype live
  · rfl

theorem column?_name {live : LiveColumn} (h : t.column? c = some live) : live.name = c := by
  simpa using List.find?_some h

theorem typeOf_alterType (column : String) (row : CatalogType) :
    LiveTable.typeOf (t.mapColumn column fun live => { live with type := row }) c =
      if c = column then (LiveTable.typeOf t c).map fun _ => row else LiveTable.typeOf t c := by
  have hname (live : LiveColumn) : ({ live with type := row } : LiveColumn).name = live.name := rfl
  rw [LiveTable.typeOf, column?_mapColumn column hname, LiveTable.typeOf]
  cases hc : t.column? c with
  | none => simp
  | some live =>
    have hname := column?_name hc
    subst hname
    simp only [Option.map_some]
    split <;> rfl

theorem typeOf_addColumn (column : LiveColumn) :
    LiveTable.typeOf (t.addColumn column) c =
      (LiveTable.typeOf t c).or (if column.name = c then some column.type else none) := by
  rw [LiveTable.typeOf, LiveTable.typeOf, LiveTable.addColumn]
  split
  · rename_i hsome
    split_ifs with hc
    · rw [hc, Option.isSome_iff_exists] at hsome
      obtain ⟨live, hlive⟩ := hsome
      rw [hlive]
      rfl
    · rw [Option.or_none]
  · change ((t.columns ++ [column]).find? (·.name = c)).map (·.type) = _
    rw [List.find?_append, LiveTable.column?]
    cases t.columns.find? (·.name = c) with
    | some live => rfl
    | none =>
      rw [List.find?_singleton]
      simp only [decide_eq_true_eq]
      split_ifs <;> rfl

theorem work_frame {f : LiveTable → LiveTable} (hw : work s = some (S, T, f))
    (hc : columnOf s ≠ some (S, T, c)) : LiveTable.typeOf (f t) c = LiveTable.typeOf t c := by
  cases s with
  | enableRowSecurity | createPolicy | createTrigger =>
    cases hw
    rfl
  | dropDefault | setDefault =>
    cases hw
    exact typeOf_mapColumn _ (fun _ => rfl) fun _ => rfl
  | alterType S' T' column type =>
    rw [work, Option.map_eq_some_iff] at hw
    obtain ⟨row, _, hw⟩ := hw
    cases hw
    have hne : c ≠ column := fun hne => hc (by rw [columnOf, hne])
    rw [typeOf_alterType, if_neg hne]
  | addColumn S' T' spec =>
    rw [work, Option.map_eq_some_iff] at hw
    obtain ⟨column, hcreate, hw⟩ := hw
    cases hw
    have hne : ¬ column.name = c := by
      rw [(ColumnSpec.create_ok hcreate).1]
      exact fun hne => hc (by rw [columnOf, hne])
    rw [typeOf_addColumn, if_neg hne, Option.or_none]
  | _ => cases hw

theorem typeOf_eq (h : Hub) (S T c : String) :
    Hub.typeOf h S T c = (h.table? S T).bind (LiveTable.typeOf · c) := rfl

theorem typeOf_frame (hx : exec pg h s = some h') (ht : h.taken S T = true)
    (hc : columnOf s ≠ some (S, T, c)) : Hub.typeOf h' S T c = Hub.typeOf h S T c := by
  rw [typeOf_eq, typeOf_eq]
  rcases table?_step S T hx with e | ⟨f, hw, e⟩ | ⟨hfree, _⟩
  · rw [e]
  · rw [e]
    cases h.table? S T with
    | none => rfl
    | some t => exact work_frame hw hc
  · rw [ht] at hfree
    cases hfree

theorem typeOf_add {spec : ColumnSpec} (hx : exec pg h (.addColumn S T spec) = some h')
    (ht : h.tableAt S T = true) : ∃ column, spec.create = some column ∧
      Hub.typeOf h' S T spec.name = (Hub.typeOf h S T spec.name).or (some column.type) := by
  have hok := exec_ok hx
  rw [effect, Option.map_eq_some_iff] at hok
  obtain ⟨column, hcreate, rfl⟩ := hok
  rw [Hub.tableAt, Option.isSome_iff_exists] at ht
  obtain ⟨t, ht⟩ := ht
  refine ⟨column, hcreate, ?_⟩
  rw [typeOf_eq, typeOf_eq, table?_addConstraints, table?_addRelations, findSome?_others,
    Option.or_none, table?_mapTable, if_pos ⟨rfl, rfl⟩, ht]
  exact (typeOf_addColumn _).trans (by rw [if_pos (ColumnSpec.create_ok hcreate).1]; rfl)

theorem typeOf_alter {type : SqlType} (hx : exec pg h (.alterType S T c type) = some h') :
    ∃ row, catalogRow type = some row ∧
      Hub.typeOf h' S T c = (Hub.typeOf h S T c).map fun _ => row := by
  have hok := exec_ok hx
  rw [effect, Option.map_eq_some_iff] at hok
  obtain ⟨row, hrow, rfl⟩ := hok
  refine ⟨row, hrow, ?_⟩
  rw [typeOf_eq, typeOf_eq, table?_mapTable, if_pos ⟨rfl, rfl⟩]
  cases h.table? S T with
  | none => rfl
  | some t => exact (typeOf_alterType c row).trans (if_pos rfl)

variable {ss : List Statement}

theorem run_taken (hrun : run (exec pg) h ss = some h') (ht : h.taken S n = true) :
    h'.taken S n = true :=
  run_preserves (P := fun h => h.taken S n = true) hrun ht fun _ _ _ _ ht hx => taken_mono hx ht

theorem run_tableAt (hrun : run (exec pg) h ss = some h') (ht : h.tableAt S n = true) :
    h'.tableAt S n = true :=
  run_preserves (P := fun h => h.tableAt S n = true) hrun ht fun _ _ _ _ ht hx => tableAt_mono hx ht

theorem run_settles {P : Hub → Prop} (hrun : run (exec pg) h ss = some h')
    (hmono : ∀ s h h', exec pg h s = some h' → P h → P h')
    (h₀ : P h ∨ ∃ s ∈ ss, ∀ h h', exec pg h s = some h' → P h') : P h' := by
  rcases h₀ with h₀ | ⟨s, hs, hstep⟩
  · exact run_preserves hrun h₀ fun s _ _ _ hP hx => hmono s _ _ hx hP
  · obtain ⟨pre, post, m, m', _, _, hx, hpost⟩ := run_split hrun hs
    exact run_preserves hpost (hstep m m' hx) fun s _ _ _ hP hx => hmono s _ _ hx hP

theorem run_new_table (hrun : run (exec pg) h ss = some h') (ht : h'.tableAt S n = true) :
    h.tableAt S n = true ∨ ∃ pre s post m, ss = pre ++ s :: post ∧ run (exec pg) h pre = some m ∧
      m.taken S n = false ∧ target s = some (S, n) ∧ ∃ t, Makes s (.table t) := by
  induction ss generalizing h with
  | nil =>
    cases hrun
    exact .inl ht
  | cons s ss ih =>
    rw [run_cons, Option.bind_eq_some_iff] at hrun
    obtain ⟨m, hm, hrest⟩ := hrun
    rcases ih hrest with hmid | ⟨pre, s', post, m', rfl, hpre, hfree⟩
    · rcases table?_step S n hm with e | ⟨f, _, e⟩ | ⟨hfree, htarget, t, hmakes, _⟩
      · exact .inl (by rwa [Hub.tableAt, e] at hmid)
      · rw [Hub.tableAt, e, Option.isSome_map] at hmid
        exact .inl hmid
      · exact .inr ⟨[], s, ss, h, rfl, rfl, hfree, htarget, t, hmakes⟩
    · exact .inr ⟨s :: pre, s', post, m', rfl, by rw [run_cons, hm]; exact hpre, hfree⟩

theorem run_new_sequence (hrun : run (exec pg) h ss = some h') (ht : h'.sequenceAt S n = true) :
    h.sequenceAt S n = true ∨ ∃ options, .createSequence S options ∈ ss ∧ options.name = n := by
  by_contra hnot
  rw [not_or] at hnot
  refine absurd ht (run_preserves (P := fun h => ¬ h.sequenceAt S n = true) hrun hnot.1 ?_)
  intro s hs h h' hP hx hafter
  rcases (sequenceAt_step hx).mp hafter with hbefore | ⟨_, options, rfl, hname⟩
  · exact hP hbefore
  · exact hnot.2 ⟨options, hs, hname⟩

theorem run_new_view (hrun : run (exec pg) h ss = some h') (ht : h'.viewAt S n = true) :
    h.viewAt S n = true ∨ ∃ s ∈ ss, view s = some (S, n) := by
  by_contra hnot
  rw [not_or] at hnot
  refine absurd ht (run_preserves (P := fun h => ¬ h.viewAt S n = true) hrun hnot.1 ?_)
  intro s hs h h' hP hx hafter
  rcases (viewAt_step hx).mp hafter with hbefore | hview
  · exact hP hbefore
  · exact hnot.2 ⟨s, hs, hview⟩

theorem run_held_table (hrun : run (exec pg) h ss = some h') (ht : h.taken S n = true)
    (hnot : ¬ h.tableAt S n = true) : ¬ h'.tableAt S n = true := by
  refine (run_preserves (P := fun h => h.taken S n = true ∧ ¬ h.tableAt S n = true) hrun
    ⟨ht, hnot⟩ ?_).2
  intro s _ h h' hP hx
  refine ⟨taken_mono hx hP.1, fun hafter => hP.2 ?_⟩
  rcases table?_step S n hx with e | ⟨f, _, e⟩ | ⟨hfree, _⟩
  · rwa [Hub.tableAt, e] at hafter
  · rwa [Hub.tableAt, e, Option.isSome_map] at hafter
  · cases hfree.symm.trans hP.1

theorem run_held_sequence (hrun : run (exec pg) h ss = some h') (ht : h.taken S n = true)
    (hnot : ¬ h.sequenceAt S n = true) : ¬ h'.sequenceAt S n = true := by
  refine (run_preserves (P := fun h => h.taken S n = true ∧ ¬ h.sequenceAt S n = true) hrun
    ⟨ht, hnot⟩ ?_).2
  intro s _ h h' hP hx
  refine ⟨taken_mono hx hP.1, fun hafter => hP.2 ?_⟩
  rcases (sequenceAt_step hx).mp hafter with hbefore | ⟨hfree, _⟩
  · exact hbefore
  · cases hfree.symm.trans hP.1

theorem run_typeOf (hrun : run (exec pg) h ss = some h') (ht : h.tableAt S T = true)
    (hno : ∀ s ∈ ss, columnOf s ≠ some (S, T, c)) : Hub.typeOf h' S T c = Hub.typeOf h S T c := by
  refine (run_preserves (P := fun m => m.tableAt S T = true ∧ Hub.typeOf m S T c = Hub.typeOf h S T c)
    hrun ⟨ht, rfl⟩ ?_).2
  intro s hs m m' hP hx
  exact ⟨tableAt_mono hx hP.1,
    (typeOf_frame hx (taken_of_tableAt hP.1) (hno s hs)).trans hP.2⟩

theorem run_sets {row : CatalogType} (hrun : run (exec pg) h ss = some h') (ht : h.tableAt S T = true)
    (hs : s ∈ ss)
    (hsets : ∀ m m', exec pg m s = some m' → m.tableAt S T = true →
      (Hub.typeOf m S T c = Hub.typeOf h S T c ∨ Hub.typeOf m S T c = some row) →
      Hub.typeOf m' S T c = some row)
    (honly : ∀ s' ∈ ss, columnOf s' = some (S, T, c) → s' = s) : Hub.typeOf h' S T c = some row := by
  obtain ⟨pre, post, m, m', hss, hpre, hx, hpost⟩ := run_split hrun hs
  have hstep (s' : Statement) (hs' : s' ∈ ss) (k k' : Hub)
      (hk : k.tableAt S T = true ∧
        (Hub.typeOf k S T c = Hub.typeOf h S T c ∨ Hub.typeOf k S T c = some row))
      (hx' : exec pg k s' = some k') : k'.tableAt S T = true ∧
        (Hub.typeOf k' S T c = Hub.typeOf k S T c ∨ Hub.typeOf k' S T c = some row) := by
    refine ⟨tableAt_mono hx' hk.1, ?_⟩
    by_cases hc : columnOf s' = some (S, T, c)
    · cases honly s' hs' hc
      exact .inr (hsets k k' hx' hk.1 hk.2)
    · exact .inl (typeOf_frame hx' (taken_of_tableAt hk.1) hc)
  have hm := run_preserves (P := fun k => k.tableAt S T = true ∧
      (Hub.typeOf k S T c = Hub.typeOf h S T c ∨ Hub.typeOf k S T c = some row)) hpre ⟨ht, .inl rfl⟩
    fun s' hs' k k' hk hx' => by
      have hnext := hstep s' (hss ▸ List.mem_append_left _ hs') k k' hk hx'
      exact ⟨hnext.1, hnext.2.elim (fun e => e ▸ hk.2) .inr⟩
  refine (run_preserves (P := fun k => k.tableAt S T = true ∧ Hub.typeOf k S T c = some row) hpost
    ⟨tableAt_mono hx hm.1, hsets m m' hx hm.1 hm.2⟩ fun s' hs' k k' hk hx' => ?_).2
  have hmem : s' ∈ ss := hss ▸ List.mem_append_right _ (List.mem_cons_of_mem _ hs')
  have hnext := hstep s' hmem k k' ⟨hk.1, .inr hk.2⟩ hx'
  exact ⟨hnext.1, hnext.2.elim (fun e => e.trans hk.2) id⟩

end DataFabric.HubFrames
