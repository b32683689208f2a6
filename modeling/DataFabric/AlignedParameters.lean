import DataFabric.JoinedSql
import DataFabric.SlottedTexts

set_option autoImplicit false

/-!
# Placeholders and the parameters they stand for

The AST laid out with the value of each predicate in its own place, and the statement as this
layout with placeholders.
-/
namespace DataFabric.AlignedParameters
open CharText JsValues TenantIdentifiers AstGuard ExceptRules JoinedSql SlottedTexts

abbrev Layout := Except FabricError (List (Piece JsValue))

def refused {α : Type} (message : String) : Except FabricError α :=
  .error (.unexpected ("co-located pushdown: " ++ message))

def textOf (x : Compile String) : Except FabricError String := (x []).map Prod.fst

def around (pre post : String) (p : List (Piece JsValue)) : List (Piece JsValue) := .chunk pre :: (p ++ [.chunk post])

def comparisonLayout (t : Target) (token sqlOp c : String) (value : JsValue) : List (Piece JsValue) :=
  if token = "IS_NULL" ∨ token = "IS_NOT_NULL" then [.chunk (c ++ " " ++ sqlOp)]
  else if token = "IN" ∨ token = "NIN" then
    if Target.listed value = [] then [.chunk (if token = "IN" then "1 = 0" else "1 = 1")]
    else .chunk (c ++ " " ++ sqlOp ++ " (") ::
      (separated ", " ((Target.listed value).map fun v => [.value v]) ++ [.chunk ")"])
  else if value = .null ∧ (token = "EQ" ∨ token = "NE") then
    [.chunk (c ++ " IS " ++ (if token = "NE" then "NOT " else "") ++ "NULL")]
  else if token = "ILIKE" ∧ t.dialect ≠ .postgres then
    [.chunk ("LOWER(" ++ c ++ ") LIKE LOWER("), .value value, .chunk ")"]
  else [.chunk (c ++ " " ++ sqlOp ++ " "), .value value]

def predLayout (t : Target) : Conjunct → Layout
  | .notObject => refused "unsupported predicate (raw expression / full-text search)"
  | .entry w =>
    if w.expression.truthy || w.search.truthy then refused "unsupported predicate (raw expression / full-text search)"
    else
      match Target.astOperators.lookup (Target.tokenOf w.operator "EQ") with
      | none => refused ("unsupported operator \"" ++ w.operator.text ++ "\"")
      | some sqlOp => do
        let c ← textOf (t.col w.column)
        .ok (comparisonLayout t (Target.tokenOf w.operator "EQ") sqlOp c w.value)

def conjunctionLayout (t : Target) (keyword : String) (ws : List Conjunct) : Layout :=
  if ws.isEmpty then .ok []
  else do
    let ps ← ws.mapM (predLayout t)
    .ok (.chunk (" " ++ keyword ++ " ") :: separated " AND " ps)

def joinLayout (t : Target) (type : JsValue) (on : Option OnClause) (ref : Layout) : Layout :=
  let jt := Target.tokenOf type "INNER"
  if jt ∉ Target.joinTypes then refused ("unsupported join type \"" ++ type.text ++ "\"")
  else match on with
    | none => refused "JOIN missing ON"
    | some on =>
      if !on.left.truthy || !on.right.truthy then refused "JOIN missing ON"
      else match Target.astOperators.lookup (Target.tokenOf on.operator "EQ") with
        | none => refused ("unsupported join operator \"" ++ on.operator.text ++ "\"")
        | some onOp => do
          let table ← ref
          let left ← textOf (t.col on.left)
          let right ← textOf (t.col on.right)
          .ok (.chunk (" " ++ jt ++ (if jt = "FULL" then " OUTER" else "") ++ " JOIN ") ::
            (table ++ [.chunk (" ON " ++ left ++ " " ++ onOp ++ " " ++ right)]))

def setLayout (t : Target) (op : String) (count : ℕ) (legs : Except FabricError (List (List (Piece JsValue))))
    (c : Clauses) : Layout :=
  if count < 2 then refused (op ++ " needs >= 2 legs")
  else do
    let legs ← legs
    let order ← textOf (t.orderBySet c.orderBy)
    .ok (separated (" " ++ op ++ " ") (legs.map (around "(" ")")) ++
      [.chunk (order ++ t.limitOffset c.limit c.offset)])

def queryLayout (t : Target) (source : Layout) (joins : Except FabricError (List (List (Piece JsValue))))
    (c : Clauses) : Layout := do
  let cols ← textOf (t.selectList c.select)
  let source ← source
  let joins ← joins
  let wheres ← conjunctionLayout t "WHERE" c.wheres
  let groupBy ← textOf (t.groupBySql c.groupBy)
  let having ← conjunctionLayout t "HAVING" c.having
  let order ← textOf (t.orderByQuery c.orderBy)
  .ok (.chunk ("SELECT " ++ (if c.distinct.truthy then "DISTINCT " else "") ++ cols ++ " FROM ") ::
    (source ++ (joins.flatten ++ (wheres ++ (.chunk groupBy ::
      (having ++ [.chunk (order ++ t.limitOffset c.limit c.offset)]))))))

def withLayout (parts : List (List (Piece JsValue))) : List (Piece JsValue) :=
  if parts.isEmpty then [] else .chunk "WITH " :: (separated ", " parts ++ [.chunk " "])

mutual

def layout (t : Target) (names : List JsValue) : Node → Layout
  | .missing => refused "empty query node"
  | .query ctes union intersect except source joins c => do
    let pre := withLayout (← layoutCtes t names ctes)
    let body ← match union with
      | some legs => setLayout t "UNION" legs.length (layoutLegs t names legs) c
      | none =>
        match intersect with
        | some legs => setLayout t "INTERSECT" legs.length (layoutLegs t names legs) c
        | none =>
          match except with
          | some legs => setLayout t "EXCEPT" legs.length (layoutLegs t names legs) c
          | none =>
            if Target.isMissing source then refused "missing FROM"
            else queryLayout t (layoutRef t names source) (layoutJoins t names joins) c
    .ok (pre ++ body)

def layoutLegs (t : Target) (names : List JsValue) : List Node → Except FabricError (List (List (Piece JsValue)))
  | [] => .ok []
  | n :: ns => do
    let leg ← layout t names n
    let legs ← layoutLegs t names ns
    .ok (leg :: legs)

def layoutCtes (t : Target) (names : List JsValue) : List Cte → Except FabricError (List (List (Piece JsValue)))
  | [] => .ok []
  | .cte name columns base unionAll :: cs =>
    if unionAll.isSome then refused "recursive CTE not supported"
    else do
      let body ← layout t names base
      let parts ← layoutCtes t names cs
      .ok (around (t.cteHead name columns ++ " AS (") ")" body :: parts)

def layoutRef (t : Target) (names : List JsValue) : Ref → Layout
  | .missing => refused "missing FROM/JOIN reference"
  | .table source resource aliasName =>
    (textOf (t.tableName names source resource aliasName)).map fun s => [.chunk s]
  | .derived query aliasName =>
    if !aliasName.truthy then refused "a derived-table subquery needs an alias"
    else do
      let body ← layout t names query
      .ok (around "(" (") " ++ t.quoteIdent aliasName) body)

def layoutJoins (t : Target) (names : List JsValue) : List Join → Except FabricError (List (List (Piece JsValue)))
  | [] => .ok []
  | .join type on ref :: js => do
    let j ← joinLayout t type on (layoutRef t names ref)
    let joins ← layoutJoins t names js
    .ok (j :: joins)

end

theorem digits_toString (n : ℕ) : ∀ c ∈ (toString n).toList, c.isDigit = true := by
  intro c hc
  rw [Nat.toString_eq_repr, Nat.toList_repr] at hc
  exact Nat.isDigit_of_mem_toDigits (by decide) (by decide) hc

def marks (t : Target) : Marks :=
  match t.dialect with
  | .postgres => ⟨'$', fun n => (toString n).toList, rfl, digits_toString⟩
  | .oracle => ⟨':', fun n => (toString n).toList, rfl, digits_toString⟩
  | .mysql | .snowflake => ⟨'?', fun _ => [], rfl, nofun⟩

section

variable {t : Target}

theorem placeholderText_eq (n : ℕ) : t.placeholderText n = String.ofList ((marks t).mark n) := by
  rw [← String.toList_inj, String.toList_ofList]
  unfold Target.placeholderText marks
  cases t.dialect with
  | mysql =>
    change "?".toList = ['?']
    decide
  | snowflake =>
    change "?".toList = ['?']
    decide
  | postgres => exact String.toList_append
  | oracle => exact String.toList_append

/-- The text has no character that begins a mark in any dialect. -/
def Markless (s : String) : Prop := ∀ c ∈ s.toList, c ≠ '$' ∧ c ≠ ':' ∧ c ≠ '?'

instance (s : String) : Decidable (Markless s) := List.decidableBAll (fun c => c ≠ '$' ∧ c ≠ ':' ∧ c ≠ '?') s.toList

theorem Markless.first {s : String} (h : Markless s) : (marks t).first ∉ s.toList := by
  intro hmem
  have hfirst := h _ hmem
  unfold marks at hfirst
  cases hdialect : t.dialect <;> simp [hdialect] at hfirst

theorem markless_append {s u : String} (hs : Markless s) (hu : Markless u) : Markless (s ++ u) := by
  intro c hc
  rw [String.toList_append, List.mem_append] at hc
  exact hc.elim (hs c) (hu c)

theorem markless_ite {p : Prop} [Decidable p] {s u : String} (hs : Markless s) (hu : Markless u) :
    Markless (if p then s else u) := by
  split
  · exact hs
  · exact hu

theorem markless_intercalate {sep : String} (hsep : Markless sep) {ss : List String} (h : ∀ s ∈ ss, Markless s) :
    Markless (sep.intercalate ss) := by
  induction ss with
  | nil =>
    rw [String.intercalate_nil]
    decide
  | cons s ss ih =>
    have hs := h s List.mem_cons_self
    cases ss with
    | nil =>
      rw [String.intercalate_singleton]
      exact hs
    | cons u rest =>
      rw [String.intercalate_cons_cons]
      exact markless_append (markless_append hs hsep) (ih fun v hv => h v (List.mem_cons_of_mem _ hv))

theorem isWord_apart {c : Char} (h : isWord c = true) : c ≠ '$' ∧ c ≠ ':' ∧ c ≠ '?' := by
  refine ⟨?_, ?_, ?_⟩ <;> exact fun heq => absurd (heq ▸ h) (by decide)

theorem markless_ident (name : JsValue) : Markless (Target.ident name) := by
  intro c hc
  unfold Target.ident at hc
  rw [keepOnly_toList, List.mem_filter] at hc
  exact isWord_apart hc.2

theorem markless_upperCase {s : String} (h : ∀ c ∈ s.toList, isWord c = true) : Markless (upperCase s) := by
  intro c hc
  unfold upperCase at hc
  rw [String.toList_ofList, List.mem_flatMap] at hc
  have ⟨d, hd, hcd⟩ := hc
  have hupper : isWord d = true → (upperChar d).all isWord = true := by
    intro hword
    apply ascii_forall (p := fun d => isWord d = true → (upperChar d).all isWord = true) _ (isWord_ascii hword) hword
    decide
  exact isWord_apart (List.all_eq_true.mp (hupper (h d hd)) c hcd)

theorem markless_quoteIdent (name : JsValue) : Markless (t.quoteIdent name) := by
  have hident := markless_ident name
  have hupper : Markless (upperCase (Target.ident name)) := by
    refine markless_upperCase fun c hc => ?_
    unfold Target.ident at hc
    rw [keepOnly_toList, List.mem_filter] at hc
    exact hc.2
  unfold Target.quoteIdent
  cases t.dialect with
  | mysql => exact markless_append (markless_append (by decide) hident) (by decide)
  | oracle => exact markless_append (markless_append (by decide) hupper) (by decide)
  | postgres => exact markless_append (markless_append (by decide) hident) (by decide)
  | snowflake => exact markless_append (markless_append (by decide) hident) (by decide)

theorem markless_quoteColumn (path : String) : Markless (t.quoteColumn path) := by
  unfold Target.quoteColumn
  refine markless_ite (by decide) (markless_intercalate (by decide) fun s hs => ?_)
  have ⟨part, _, hpart⟩ := List.mem_map.mp hs
  rw [← hpart]
  exact markless_quoteIdent _

theorem markless_quoteColumnPath (path : JsValue) : Markless (t.quoteColumnPath path) := by
  unfold Target.quoteColumnPath
  refine markless_ite (by decide) (markless_ite ?_ (markless_quoteColumn _))
  exact markless_append (markless_quoteColumn _) (by decide)

theorem markless_aliased {base : String} (h : Markless base) (aliasName : JsValue) :
    Markless (t.aliased base aliasName) := by
  unfold Target.aliased
  exact markless_ite (markless_append (markless_append h (by decide)) (markless_quoteIdent _)) h

theorem markless_asAlias {expr : String} (h : Markless expr) (aliasName : JsValue) :
    Markless (t.asAlias expr aliasName) := by
  unfold Target.asAlias
  exact markless_ite (markless_append (markless_append h (by decide)) (markless_quoteIdent _)) h

theorem markless_cteHead (name columns : JsValue) : Markless (t.cteHead name columns) := by
  unfold Target.cteHead
  split
  · refine markless_append (markless_append (markless_append (markless_quoteIdent _) (by decide)) ?_) (by decide)
    refine markless_intercalate (by decide) fun s hs => ?_
    have ⟨c, _, hc⟩ := List.mem_map.mp hs
    rw [← hc]
    exact markless_quoteIdent _
  · exact markless_quoteIdent _

theorem markless_floorText (q : ℚ) : Markless (Target.floorText q) := by
  have hnat : ∀ n : ℕ, Markless (toString n) := by
    intro n c hc
    have hdigit := digits_toString n c hc
    exact isWord_apart (by simp [isWord, Char.isAlphanum, hdigit])
  unfold Target.floorText
  cases q.num / (q.den : ℤ) with
  | ofNat n => exact hnat n
  | negSucc n => exact markless_append (s := "-") (by decide) (hnat (n + 1))

def Spaced (s : String) : Prop := s.toList = [] ∨ ∃ cs, s.toList = ' ' :: cs

theorem spaced_append {s u : String} (hs : Spaced s) (hu : Spaced u) : Spaced (s ++ u) := by
  unfold Spaced
  rw [String.toList_append]
  rcases hs with hs | ⟨cs, hs⟩
  · rw [hs, List.nil_append]
    exact hu
  · exact .inr ⟨cs ++ u.toList, by rw [hs]; rfl⟩

theorem spaced_blank {s u : String} (hs : s.toList.head? = some ' ') : Spaced (s ++ u) := by
  have ⟨cs, hcs⟩ := List.head?_eq_some_iff.mp hs
  exact .inr ⟨cs ++ u.toList, by rw [String.toList_append, hcs]; rfl⟩

theorem leads_spaced {s : String} (h : Spaced s) {ps : List (Piece JsValue)} (hps : Leads ps) :
    Leads (.chunk s :: ps) := by
  unfold Leads
  rcases h with h | ⟨cs, h⟩
  · rw [h]
    exact hps
  · rw [h]
    rfl

def rowsClause (word : String) (v : JsValue) (least : ℚ → Bool) (after : String) : String :=
  match v with
  | .num q => if least q then " " ++ word ++ " " ++ Target.floorText q ++ after else ""
  | _ => ""

theorem markless_limitOffset (limit offset : JsValue) :
    Markless (t.limitOffset limit offset) ∧ Spaced (t.limitOffset limit offset) := by
  have hrows : ∀ (word : String) (v : JsValue) (least : ℚ → Bool) (after : String), Markless word → Markless after →
      Markless (rowsClause word v least after) ∧ Spaced (rowsClause word v least after) := by
    intro word v least after hword hafter
    unfold rowsClause
    split
    · split
      · refine ⟨?_, ?_⟩
        · refine markless_append (markless_append (markless_append ?_ (by decide)) (markless_floorText _)) hafter
          exact markless_append (by decide) hword
        · rw [String.append_assoc, String.append_assoc, String.append_assoc]
          exact spaced_blank (by decide)
      · exact ⟨by decide, .inl rfl⟩
    · exact ⟨by decide, .inl rfl⟩
  unfold Target.limitOffset
  dsimp only
  split
  · have hoffset := hrows "OFFSET" offset (fun q => decide (0 < q)) " ROWS" (by decide) (by decide)
    have hlimit := hrows ("FETCH " ++ if offset.truthy && t.positive offset then "NEXT" else "FIRST") limit
      (fun q => decide (0 ≤ q)) " ROWS ONLY" (markless_append (by decide) (markless_ite (by decide) (by decide)))
      (by decide)
    exact ⟨markless_append hoffset.1 hlimit.1, spaced_append hoffset.2 hlimit.2⟩
  · have hlimit := hrows "LIMIT" limit (fun q => decide (0 ≤ q)) "" (by decide) (by decide)
    have hoffset := hrows "OFFSET" offset (fun q => decide (0 < q)) "" (by decide) (by decide)
    exact ⟨markless_append hlimit.1 hoffset.1, spaced_append hlimit.2 hoffset.2⟩

/-- A computation that pushes nothing and writes texts of one kind. -/
structure Writes (x : Compile String) (P : String → Prop) : Prop where
  run : ∀ ps, x ps = (textOf x).map fun s => (s, ps)
  written : ∀ s, textOf x = .ok s → P s

variable {P Q : String → Prop}

theorem writes_of {x : Compile String} (e : Except FabricError String) (hrun : ∀ ps, x ps = e.map fun s => (s, ps))
    (hwritten : ∀ s, e = .ok s → P s) : Writes x P := by
  have htext : textOf x = e := by
    unfold textOf
    rw [hrun]
    cases e <;> rfl
  exact ⟨by rw [htext]; exact hrun, by rw [htext]; exact hwritten⟩

theorem writes_pure {s : String} (h : P s) : Writes (pure s) P :=
  writes_of (.ok s) (fun _ => rfl) fun _ hs => Except.ok.inj hs ▸ h

theorem writes_throw (e : FabricError) : Writes (throw e) P := writes_of (.error e) (fun _ => rfl) nofun

theorem writes_ite {p : Prop} [Decidable p] {x y : Compile String} (hx : Writes x P) (hy : Writes y P) :
    Writes (if p then x else y) P := by
  split
  · exact hx
  · exact hy

theorem writes_map {x : Compile String} (hx : Writes x Q) {f : String → String} (h : ∀ s, Q s → P (f s)) :
    Writes (x >>= fun s => pure (f s)) P := by
  refine writes_of ((textOf x).map f) (fun ps => ?_) fun s hs => ?_
  · change (x ps).bind _ = _
    rw [hx.run]
    cases textOf x <;> rfl
  · have ⟨u, hu, hf⟩ := map_ok hs
    exact hf ▸ h u (hx.written u hu)

theorem writes_mapM {f : JsValue → Compile String} {vs : List JsValue} (h : ∀ v, Writes (f v) Q) {g : List String → String}
    (hg : ∀ ss, (∀ s ∈ ss, Q s) → P (g ss)) : Writes (vs.mapM f >>= fun ss => pure (g ss)) P := by
  have hall : ∃ e : Except FabricError (List String), (∀ ps, vs.mapM f ps = e.map fun ss => (ss, ps)) ∧
      ∀ ss, e = .ok ss → ∀ s ∈ ss, Q s := by
    induction vs with
    | nil => exact ⟨.ok [], fun _ => rfl, fun ss hss => by rw [← Except.ok.inj hss]; nofun⟩
    | cons v vs ih =>
      have ⟨e, hrun, hwritten⟩ := ih
      refine ⟨(textOf (f v)).bind fun s => e.map fun ss => s :: ss, fun ps => ?_, fun ss hss => ?_⟩
      · rw [List.mapM_cons]
        change ((f v) ps).bind _ = _
        rw [(h v).run]
        cases textOf (f v) with
        | error e' => rfl
        | ok s =>
          change ((vs.mapM f) ps).bind _ = _
          rw [hrun]
          cases e <;> rfl
      · have ⟨s, hs, hrest⟩ := bind_ok hss
        have ⟨us, hus, heq⟩ := map_ok hrest
        rw [← heq, List.forall_mem_cons]
        exact ⟨(h v).written s hs, hwritten us hus⟩
  have ⟨e, hrun, hwritten⟩ := hall
  refine writes_of (e.map g) (fun ps => ?_) fun s hs => ?_
  · change (vs.mapM f ps).bind _ = _
    rw [hrun]
    cases e <;> rfl
  · have ⟨ss, hss, heq⟩ := map_ok hs
    exact heq ▸ hg ss (hwritten ss hss)

end

section

variable (t : Target)

def IsClause (s : String) : Prop := Markless s ∧ Spaced s

theorem isClause_empty : IsClause "" := ⟨by decide, .inl rfl⟩

theorem col_writes (path : JsValue) : Writes (t.col path) Markless := by
  unfold Target.col
  exact writes_ite (writes_pure (markless_quoteColumnPath path)) (writes_throw _)

def physicalText (t : Target) (schema : Option String) (table : String) : String :=
  match schema with
  | some schema =>
    if schema = "" then t.quoteIdent (.str table) else t.quoteIdent (.str schema) ++ "." ++ t.quoteIdent (.str table)
  | none => t.quoteIdent (.str table)

theorem tableName_writes (names : List JsValue) (source resource aliasName : JsValue) :
    Writes (t.tableName names source resource aliasName) Markless := by
  unfold Target.tableName
  refine writes_ite (writes_throw _) (writes_ite (writes_pure (markless_aliased (markless_quoteIdent _) _)) ?_)
  refine writes_of ((t.resolve source resource).map fun p => t.aliased (physicalText t p.schema p.table) aliasName)
    (fun ps => ?_) fun s hs => ?_
  · change (StateT.lift (t.resolve source resource) ps).bind _ = _
    cases t.resolve source resource <;> rfl
  · have ⟨p, _, heq⟩ := map_ok hs
    rw [← heq]
    refine markless_aliased ?_ aliasName
    unfold physicalText
    split
    · refine markless_ite (markless_quoteIdent _) ?_
      exact markless_append (markless_append (markless_quoteIdent _) (by decide)) (markless_quoteIdent _)
    · exact markless_quoteIdent _

theorem aggregateSql_writes (c : JsValue) : Writes (t.aggregateSql c) Markless := by
  unfold Target.aggregateSql
  dsimp only
  by_cases hfn : upperCase (c.get "aggregate").text ∈ Target.aggWhitelist
  · rw [if_neg (not_not_intro hfn)]
    have hname : Markless (upperCase (c.get "aggregate").text) := by
      have hall : ∀ fn ∈ Target.aggWhitelist, Markless fn := by decide
      exact hall _ hfn
    have hinner : Writes (t.aggregated (c.get "column")) Markless := by
      unfold Target.aggregated
      exact writes_ite (writes_pure (by decide)) (col_writes t _)
    refine writes_map hinner fun inner h => markless_asAlias (markless_ite ?_ ?_) _
    · exact markless_append (markless_append (by decide) h) (by decide)
    · exact markless_append (markless_append (markless_append hname (by decide)) h) (by decide)
  · rw [if_pos hfn]
    exact writes_throw _

theorem selectSql_writes (c : JsValue) : Writes (t.selectSql c) Markless := by
  unfold Target.selectSql
  split
  · exact col_writes t _
  · refine writes_ite (aggregateSql_writes t c) (writes_ite ?_ (writes_throw _))
    exact writes_map (col_writes t _) fun s hs => markless_asAlias hs _

theorem selectList_writes (select : JsValue) : Writes (t.selectList select) Markless := by
  unfold Target.selectList
  split
  · exact writes_mapM (selectSql_writes t) fun ss hss => markless_intercalate (by decide) hss
  · exact writes_pure (by decide)

theorem clause_terms {keyword : String} (hkeyword : Markless keyword) (hblank : keyword.toList.head? = some ' ')
    {ss : List String} (hss : ∀ s ∈ ss, Markless s) : IsClause (keyword ++ ", ".intercalate ss) :=
  ⟨markless_append hkeyword (markless_intercalate (by decide) hss), spaced_blank hblank⟩

theorem groupBySql_writes (groupBy : JsValue) : Writes (t.groupBySql groupBy) IsClause := by
  unfold Target.groupBySql
  split
  · exact writes_mapM (fun g => col_writes t (.str g.text)) fun ss hss => clause_terms (by decide) (by decide) hss
  · exact writes_pure isClause_empty

theorem orderTerms_writes (os : List JsValue) : Writes (t.orderTerms os) IsClause := by
  unfold Target.orderTerms
  refine writes_mapM (fun o => ?_) fun ss hss => clause_terms (by decide) (by decide) hss
  unfold Target.orderTerm
  refine writes_ite (writes_throw _) (writes_map (col_writes t _) fun s hs => ?_)
  exact markless_append (markless_append hs (by decide)) (markless_ite (by decide) (by decide))

theorem orderByQuery_writes (orderBy : JsValue) : Writes (t.orderByQuery orderBy) IsClause := by
  unfold Target.orderByQuery
  split
  · exact orderTerms_writes t _
  · exact writes_pure isClause_empty

theorem orderBySet_writes (orderBy : JsValue) : Writes (t.orderBySet orderBy) IsClause := by
  unfold Target.orderBySet
  split
  · exact orderTerms_writes t _
  · exact writes_pure isClause_empty
  · exact writes_ite (writes_pure isClause_empty) (writes_throw _)
  · exact writes_ite (writes_throw _) (writes_pure isClause_empty)

end

section

variable {t : Target}

/-- The text of a layout behind some parameters, and the parameters with its values. -/
def written (t : Target) (ps : List JsValue) (pieces : List (Piece JsValue)) : String × List JsValue :=
  (String.ofList (render (marks t) ps.length pieces), ps ++ values pieces)

/-- The computation writes the layout with marks and pushes its values. -/
structure Lays (t : Target) (x : Compile String) (e : Layout) : Prop where
  run : ∀ ps, x ps = e.map (written t ps)
  readable : ∀ pieces, e = .ok pieces → Readable (marks t) pieces

structure LaysAll (t : Target) (xs : Compile (List String)) (es : Except FabricError (List (List (Piece JsValue)))) :
    Prop where
  run : ∀ ps, xs ps = es.map fun pss =>
    ((renderEach (marks t) ps.length pss).map String.ofList, ps ++ values pss.flatten)
  readable : ∀ pss, es = .ok pss → ∀ p ∈ pss, Readable (marks t) p

theorem ofList_chunk (s : String) (n : ℕ) (ps : List (Piece JsValue)) :
    String.ofList (render (marks t) n (.chunk s :: ps)) = s ++ String.ofList (render (marks t) n ps) := by
  rw [← String.toList_inj, String.toList_append, String.toList_ofList, String.toList_ofList]
  rfl

theorem ofList_append (n : ℕ) (ps qs : List (Piece JsValue)) :
    String.ofList (render (marks t) n (ps ++ qs)) =
      String.ofList (render (marks t) n ps) ++ String.ofList (render (marks t) (n + (values ps).length) qs) := by
  rw [render_append, String.ofList_append]

theorem ofList_value (v : JsValue) (n : ℕ) (ps : List (Piece JsValue)) :
    String.ofList (render (marks t) n (.value v :: ps)) =
      t.placeholderText (n + 1) ++ String.ofList (render (marks t) (n + 1) ps) := by
  rw [placeholderText_eq, ← String.ofList_append]
  rfl

theorem ofList_nil (n : ℕ) : String.ofList (render (marks t) n ([] : List (Piece JsValue))) = "" := rfl

theorem intercalate_renderEach (sep : String) (n : ℕ) (pss : List (List (Piece JsValue))) :
    sep.intercalate ((renderEach (marks t) n pss).map String.ofList) =
      String.ofList (render (marks t) n (separated sep pss)) := by
  induction pss generalizing n with
  | nil => exact String.intercalate_nil
  | cons p pss ih =>
    cases pss with
    | nil => exact String.intercalate_singleton
    | cons q rest =>
      have hrest := ih (n + (values p).length)
      rw [separated, ofList_append, ofList_chunk, ← hrest, ← String.append_assoc]
      exact String.intercalate_cons_cons

theorem join_renderEach (n : ℕ) (pss : List (List (Piece JsValue))) :
    "".intercalate ((renderEach (marks t) n pss).map String.ofList) =
      String.ofList (render (marks t) n pss.flatten) := by
  induction pss generalizing n with
  | nil => exact String.intercalate_nil
  | cons p pss ih =>
    rw [List.flatten_cons, ofList_append, ← ih]
    cases pss with
    | nil =>
      change "".intercalate [String.ofList (render (marks t) n p)] = _ ++ "".intercalate []
      rw [String.intercalate_singleton, String.intercalate_nil, String.append_empty]
    | cons q rest =>
      change "".intercalate (_ :: _ :: _) = _
      rw [String.intercalate_cons_cons, String.append_empty]
      rfl

theorem lays_all_nil : LaysAll t (pure []) (.ok []) :=
  ⟨fun ps => by rw [ok_map, List.flatten_nil, values, List.append_nil]; rfl, fun pss hpss => by
    rw [← Except.ok.inj hpss]
    nofun⟩

theorem lays_all_cons {x : Compile String} {e : Layout} {xs : Compile (List String)}
    {es : Except FabricError (List (List (Piece JsValue)))} (h : Lays t x e) (hs : LaysAll t xs es) :
    LaysAll t (do let a ← x; let as ← xs; pure (a :: as)) (do let p ← e; let ps ← es; .ok (p :: ps)) := by
  constructor
  · intro ps
    change (x ps).bind _ = _
    rw [h.run]
    cases e with
    | error e => rfl
    | ok p =>
      change (xs (ps ++ values p)).bind _ = _
      rw [hs.run]
      cases es with
      | error e => rfl
      | ok pss =>
        change Except.ok (String.ofList (render (marks t) ps.length p) ::
          (renderEach (marks t) (ps ++ values p).length pss).map String.ofList, _) = Except.ok (_, _)
        rw [List.length_append, List.append_assoc, ← values_append]
        rfl
  · intro pss hpss
    have ⟨p, hp, hrest⟩ := bind_ok hpss
    have ⟨rest, hpss, heq⟩ := bind_ok hrest
    rw [← Except.ok.inj heq, List.forall_mem_cons]
    exact ⟨h.readable p hp, hs.readable rest hpss⟩

theorem lays_all_mapM {α : Type} {f : α → Compile String} {g : α → Layout} {ws : List α} (h : ∀ w, Lays t (f w) (g w)) :
    LaysAll t (ws.mapM f) (ws.mapM g) := by
  induction ws with
  | nil => exact lays_all_nil
  | cons w ws ih =>
    rw [List.mapM_cons, List.mapM_cons]
    exact lays_all_cons (h w) ih

theorem written_chunk (ps : List JsValue) (s : String) : written t ps [.chunk s] = (s, ps) := by
  unfold written
  rw [ofList_chunk, ofList_nil, String.append_empty, values, values, List.append_nil]

theorem written_cons (ps : List JsValue) (s : String) (qs : List (Piece JsValue)) :
    written t ps (.chunk s :: qs) = (s ++ (written t ps qs).1, (written t ps qs).2) := by
  unfold written
  rw [ofList_chunk, values]

theorem written_append (ps : List JsValue) (qs rs : List (Piece JsValue)) :
    written t ps (qs ++ rs) =
      ((written t ps qs).1 ++ (written t (ps ++ values qs) rs).1, (written t (ps ++ values qs) rs).2) := by
  unfold written
  rw [ofList_append, values_append, List.length_append, List.append_assoc]

theorem placeholder_lays (v : JsValue) : Lays t (t.placeholder v) (.ok [.value v]) := by
  constructor
  · intro ps
    rw [ok_map, written, ofList_value, ofList_nil, String.append_empty]
    rfl
  · intro pieces hpieces
    rw [← Except.ok.inj hpieces]
    exact ⟨trivial, trivial⟩

theorem values_slots (vs : List JsValue) : values (vs.map fun v => [Piece.value v]).flatten = vs := by
  induction vs with
  | nil => rfl
  | cons v vs ih => exact congrArg (v :: ·) ih

theorem placeholders_run (vs ps : List JsValue) : (vs.mapM t.placeholder) ps =
    .ok ((renderEach (marks t) ps.length (vs.map fun v => [.value v])).map String.ofList, ps ++ vs) := by
  have hlays : LaysAll t (vs.mapM t.placeholder) (vs.mapM fun v => .ok [.value v]) :=
    lays_all_mapM fun v => placeholder_lays v
  have hall : (vs.mapM fun v => (.ok [.value v] : Layout)) = .ok (vs.map fun v => [.value v]) := List.mapM_pure
  rw [hlays.run, hall, ok_map, values_slots]

theorem comparison_run (token sqlOp c : String) (v : JsValue) (ps : List JsValue) :
    t.comparisonSql token sqlOp c v ps = .ok (written t ps (comparisonLayout t token sqlOp c v)) := by
  have hchunk : ∀ s, (Except.ok (s, ps) : Except FabricError (String × List JsValue)) = .ok (written t ps [.chunk s]) :=
    fun s => by rw [written_chunk]
  unfold Target.comparisonSql comparisonLayout
  by_cases hnull : token = "IS_NULL" ∨ token = "IS_NOT_NULL"
  · rw [if_pos hnull, if_pos hnull]
    exact hchunk _
  · rw [if_neg hnull, if_neg hnull]
    by_cases hin : token = "IN" ∨ token = "NIN"
    · rw [if_pos hin, if_pos hin]
      by_cases hnil : Target.listed v = []
      · rw [if_pos hnil, if_pos hnil]
        exact hchunk _
      · rw [if_neg hnil, if_neg hnil]
        change ((Target.listed v).mapM t.placeholder ps).bind _ = _
        rw [placeholders_run]
        change Except.ok (c ++ " " ++ sqlOp ++ " (" ++ ", ".intercalate _ ++ ")", _) = _
        rw [intercalate_renderEach, written, ofList_chunk, ofList_append, ofList_chunk, ofList_nil, String.append_empty,
          values, values_append, values_separated, values_slots, String.append_assoc, values, values, List.append_nil]
    · rw [if_neg hin, if_neg hin]
      by_cases hisnull : v = .null ∧ (token = "EQ" ∨ token = "NE")
      · rw [if_pos hisnull, if_pos hisnull]
        exact hchunk _
      · rw [if_neg hisnull, if_neg hisnull]
        by_cases hlike : token = "ILIKE" ∧ t.dialect ≠ .postgres
        · rw [if_pos hlike, if_pos hlike]
          change Except.ok ("LOWER(" ++ c ++ ") LIKE LOWER(" ++ t.placeholderText (ps.length + 1) ++ ")", ps ++ [v]) = _
          rw [written, ofList_chunk, ofList_value, ofList_chunk, ofList_nil, String.append_empty, String.append_assoc]
          rfl
        · rw [if_neg hlike, if_neg hlike]
          change Except.ok (c ++ " " ++ sqlOp ++ " " ++ t.placeholderText (ps.length + 1), ps ++ [v]) = _
          rw [written, ofList_chunk, ofList_value, ofList_nil, String.append_empty]
          rfl

theorem comparison_readable (token : String) {sqlOp c : String} (v : JsValue) (hop : Markless sqlOp) (hc : Markless c) :
    Readable (marks t) (comparisonLayout t token sqlOp c v) := by
  have hhead : ∀ s, Markless s → Markless (c ++ " " ++ sqlOp ++ s) := fun s hs =>
    markless_append (markless_append (markless_append hc (by decide)) hop) hs
  have hone : ∀ s, Markless s → Readable (marks t) [(Piece.chunk s : Piece JsValue)] := fun s hs => ⟨hs.first, trivial⟩
  unfold comparisonLayout
  split
  · exact hone _ (markless_append (markless_append hc (by decide)) hop)
  · split
    · split
      · exact hone _ (markless_ite (by decide) (by decide))
      · refine ⟨(hhead _ (by decide)).first, readable_append ?_ (hone _ (by decide)) (leads_chunk [] (by decide))⟩
        refine readable_separated (by decide) (Markless.first (by decide)) ?_
        intro p hp
        have ⟨w, _, hw⟩ := List.mem_map.mp hp
        rw [← hw]
        exact ⟨trivial, trivial⟩
    · split
      · refine hone _ (markless_append (markless_append (markless_append hc (by decide)) ?_) (by decide))
        exact markless_ite (by decide) (by decide)
      · split
        · refine ⟨(markless_append (markless_append (by decide) hc) (by decide)).first,
            leads_chunk [] (by decide), Markless.first (by decide), trivial⟩
        · exact ⟨(hhead _ (by decide)).first, trivial, trivial⟩

theorem mem_of_lookup {entries : List (String × String)} {key s : String} (h : entries.lookup key = some s) :
    s ∈ entries.map Prod.snd := by
  induction entries with
  | nil => cases h
  | cons e entries ih =>
    rw [List.lookup_cons] at h
    rw [List.map_cons, List.mem_cons]
    split at h
    · exact .inl (Option.some.inj h).symm
    · exact .inr (ih h)

theorem markless_operator {token sqlOp : String} (h : Target.astOperators.lookup token = some sqlOp) : Markless sqlOp := by
  have hall : ∀ s ∈ Target.astOperators.map Prod.snd, Markless s := by decide
  exact hall _ (mem_of_lookup h)

theorem lays_refused (message : String) : Lays t (fail message) (refused message) := ⟨fun _ => rfl, nofun⟩

theorem lays_ite {p : Prop} [Decidable p] {x y : Compile String} {d e : Layout} (hx : Lays t x d) (hy : Lays t y e) :
    Lays t (if p then x else y) (if p then d else e) := by
  split
  · exact hx
  · exact hy

theorem predSql_lays (w : Conjunct) : Lays t (t.predSql w) (predLayout t w) := by
  cases w with
  | notObject => exact lays_refused _
  | entry w =>
    unfold Target.predSql predLayout
    refine lays_ite (lays_refused _) ?_
    cases hop : Target.astOperators.lookup (Target.tokenOf w.operator "EQ") with
    | none => exact lays_refused _
    | some sqlOp =>
      have hcol := col_writes t w.column
      constructor
      · intro ps
        change (t.col w.column ps).bind _ = _
        rw [hcol.run]
        cases textOf (t.col w.column) with
        | error e => rfl
        | ok c => exact comparison_run _ sqlOp c w.value ps
      · intro pieces hpieces
        have ⟨c, hc, heq⟩ := bind_ok hpieces
        rw [← Except.ok.inj heq]
        exact comparison_readable _ _ (markless_operator hop) (hcol.written c hc)

structure LaysClause (t : Target) (x : Compile String) (e : Layout) : Prop extends Lays t x e where
  leads : ∀ pieces, e = .ok pieces → Leads pieces

theorem conjunction_lays {keyword : String} (hkeyword : Markless keyword) (ws : List Conjunct) :
    LaysClause t (t.conjunction keyword ws) (conjunctionLayout t keyword ws) := by
  unfold Target.conjunction conjunctionLayout
  cases ws.isEmpty with
  | true =>
    rw [if_pos rfl, if_pos rfl]
    refine ⟨⟨fun ps => ?_, fun pieces h => ?_⟩, fun pieces h => ?_⟩
    · rw [ok_map, written, ofList_nil, values, List.append_nil]
      rfl
    · exact Except.ok.inj h ▸ trivial
    · exact Except.ok.inj h ▸ trivial
  | false =>
    rw [if_neg Bool.false_ne_true, if_neg Bool.false_ne_true]
    have hall : LaysAll t (ws.mapM t.predSql) (ws.mapM (predLayout t)) := lays_all_mapM predSql_lays
    have hspaced : Markless (" " ++ keyword ++ " ") := markless_append (markless_append (by decide) hkeyword) (by decide)
    refine ⟨⟨fun ps => ?_, fun pieces h => ?_⟩, fun pieces h => ?_⟩
    · change (ws.mapM t.predSql ps).bind _ = _
      rw [hall.run]
      cases ws.mapM (predLayout t) with
      | error e => rfl
      | ok pss =>
        change Except.ok (" " ++ keyword ++ " " ++ " AND ".intercalate _, _) = Except.ok (written t ps _)
        rw [intercalate_renderEach, written, ofList_chunk, values, values_separated]
    · have ⟨pss, hpss, heq⟩ := bind_ok h
      rw [← Except.ok.inj heq]
      exact ⟨hspaced.first, readable_separated (by decide) (Markless.first (by decide)) (hall.readable pss hpss)⟩
    · have ⟨pss, _, heq⟩ := bind_ok h
      rw [← Except.ok.inj heq]
      refine leads_chunk _ ?_
      rw [String.append_assoc, String.toList_append]
      rfl

theorem joinSql_lays (type : JsValue) (on : Option OnClause) {x : Compile String} {e : Layout} (h : Lays t x e) :
    LaysClause t (t.joinSql type on x) (joinLayout t type on e) := by
  have hrefused : ∀ message, LaysClause t (fail message) (refused message) := fun _ => ⟨lays_refused _, nofun⟩
  unfold Target.joinSql joinLayout
  dsimp only
  by_cases hjt : Target.tokenOf type "INNER" ∈ Target.joinTypes
  · rw [if_neg (not_not_intro hjt), if_neg (not_not_intro hjt)]
    have htype : Markless (Target.tokenOf type "INNER") := by
      have hall : ∀ jt ∈ Target.joinTypes, Markless jt := by decide
      exact hall _ hjt
    cases on with
    | none => exact hrefused _
    | some on =>
      dsimp only
      by_cases hon : (!on.left.truthy || !on.right.truthy) = true
      · rw [if_pos hon, if_pos hon]
        exact hrefused _
      · rw [if_neg hon, if_neg hon]
        cases hop : Target.astOperators.lookup (Target.tokenOf on.operator "EQ") with
        | none => exact hrefused _
        | some onOp =>
          have hleft := col_writes t on.left
          have hright := col_writes t on.right
          refine ⟨⟨fun ps => ?_, fun pieces hpieces => ?_⟩, fun pieces hpieces => ?_⟩
          · change (x ps).bind _ = _
            rw [h.run]
            cases e with
            | error e => rfl
            | ok table =>
              change (t.col on.left (ps ++ values table)).bind _ = _
              rw [hleft.run]
              cases textOf (t.col on.left) with
              | error e => rfl
              | ok left =>
                change (t.col on.right (ps ++ values table)).bind _ = _
                rw [hright.run]
                cases textOf (t.col on.right) with
                | error e => rfl
                | ok right =>
                  change Except.ok (" " ++ _ ++ _ ++ " JOIN " ++ _ ++ " ON " ++ left ++ " " ++ onOp ++ " " ++ right, _) =
                    Except.ok (written t ps _)
                  rw [written_cons, written_append, written_chunk]
                  simp only [String.append_assoc]
                  rfl
          · have ⟨table, htable, hpieces⟩ := bind_ok hpieces
            have ⟨left, hl, hpieces⟩ := bind_ok hpieces
            have ⟨right, hr, heq⟩ := bind_ok hpieces
            rw [← Except.ok.inj heq]
            have hon : Markless (" ON " ++ left ++ " " ++ onOp ++ " " ++ right) := by
              refine markless_append (markless_append (markless_append (markless_append ?_ (by decide)) ?_) (by decide)) ?_
              · exact markless_append (by decide) (hleft.written left hl)
              · exact markless_operator hop
              · exact hright.written right hr
            refine ⟨Markless.first ?_, readable_append (h.readable table htable) ⟨hon.first, trivial⟩ (leads_chunk _ ?_)⟩
            · refine markless_append (markless_append (markless_append (by decide) htype) ?_) (by decide)
              exact markless_ite (by decide) (by decide)
            · simp only [String.append_assoc, String.toList_append]
              rfl
          · have ⟨table, _, hpieces⟩ := bind_ok hpieces
            have ⟨left, _, hpieces⟩ := bind_ok hpieces
            have ⟨right, _, heq⟩ := bind_ok hpieces
            rw [← Except.ok.inj heq]
            refine leads_chunk _ ?_
            rw [String.append_assoc, String.append_assoc, String.toList_append]
            rfl
  · rw [if_pos hjt, if_pos hjt]
    exact hrefused _

end

section

variable {t : Target} {x : Compile String} {e : Layout} {xs : Compile (List String)}
  {es : Except FabricError (List (List (Piece JsValue)))} {c : Clauses}

structure LaysBehind (t : Target) (x : String → Compile String) (e : Layout) : Prop where
  run : ∀ pre ps, x pre ps = e.map fun body => (pre ++ (written t ps body).1, (written t ps body).2)
  readable : ∀ pieces, e = .ok pieces → Readable (marks t) pieces
  leads : ∀ pieces, e = .ok pieces → Leads pieces

theorem behind_refused (message : String) : LaysBehind t (fun _ => fail message) (refused message) :=
  ⟨fun _ _ => rfl, nofun, nofun⟩

theorem tail_clause {order : String} (h : IsClause order) : IsClause (order ++ t.limitOffset c.limit c.offset) :=
  ⟨markless_append h.1 (markless_limitOffset _ _).1, spaced_append h.2 (markless_limitOffset _ _).2⟩

theorem written_around (ps : List JsValue) (pre post : String) (p : List (Piece JsValue)) :
    written t ps (around pre post p) = (pre ++ (written t ps p).1 ++ post, (written t ps p).2) := by
  unfold around
  rw [written_cons, written_append, written_chunk, String.append_assoc]
  rfl

theorem values_around (pre post : String) (p : List (Piece JsValue)) : values (around pre post p) = values p := by
  unfold around
  rw [values, values_append, values, values, List.append_nil]

theorem readable_around {pre post : String} (hpre : Markless pre) (hpost : Markless post)
    (hleads : post.toList.head?.map Char.isDigit = some false) {p : List (Piece JsValue)} (hp : Readable (marks t) p) :
    Readable (marks t) (around pre post p) :=
  ⟨hpre.first, readable_append hp ⟨hpost.first, trivial⟩ (leads_chunk _ hleads)⟩

theorem renderEach_around (n : ℕ) (pre post : String) (pss : List (List (Piece JsValue))) :
    (renderEach (marks t) n (pss.map (around pre post))).map String.ofList =
      ((renderEach (marks t) n pss).map String.ofList).map fun s => pre ++ s ++ post := by
  induction pss generalizing n with
  | nil => rfl
  | cons p pss ih =>
    have hfirst : String.ofList (render (marks t) n (around pre post p)) = pre ++ String.ofList (render (marks t) n p) ++ post := by
      unfold around
      rw [ofList_chunk, ofList_append, ofList_chunk, ofList_nil, String.append_empty, String.append_assoc]
    have hrest := ih (n + (values p).length)
    change String.ofList (render (marks t) n (around pre post p)) ::
      (renderEach (marks t) (n + (values (around pre post p)).length) (pss.map (around pre post))).map String.ofList = _
    rw [values_around, hrest, hfirst]
    rfl

theorem values_flatten_around (pre post : String) (pss : List (List (Piece JsValue))) :
    values (pss.map (around pre post)).flatten = values pss.flatten := by
  induction pss with
  | nil => rfl
  | cons p pss ih => rw [List.map_cons, List.flatten_cons, List.flatten_cons, values_append, values_append, values_around, ih]

theorem lays_around {pre post : String} (hpre : Markless pre) (hpost : Markless post)
    (hleads : post.toList.head?.map Char.isDigit = some false) (h : Lays t x e) :
    Lays t (do let a ← x; pure (pre ++ a ++ post)) (do let p ← e; .ok (around pre post p)) := by
  refine ⟨fun ps => ?_, fun pieces hpieces => ?_⟩
  · change (x ps).bind _ = _
    rw [h.run]
    cases e with
    | error e => rfl
    | ok p =>
      change _ = Except.ok (written t ps (around pre post p))
      rw [written_around]
      rfl
  · have ⟨p, hp, heq⟩ := bind_ok hpieces
    rw [← Except.ok.inj heq]
    exact readable_around hpre hpost hleads (h.readable p hp)

theorem setSql_lays {op : String} (hop : Markless op) (count : ℕ) (h : LaysAll t xs es) :
    LaysBehind t (fun pre => t.setSql op count pre xs c) (setLayout t op count es c) := by
  unfold Target.setSql setLayout
  by_cases hcount : count < 2
  · simp only [if_pos hcount]
    exact behind_refused _
  · simp only [if_neg hcount]
    have horder := orderBySet_writes t c.orderBy
    refine ⟨fun pre ps => ?_, fun pieces hpieces => ?_, fun pieces hpieces => ?_⟩
    · change (xs ps).bind _ = _
      rw [h.run]
      cases es with
      | error e => rfl
      | ok legs =>
        change (t.orderBySet c.orderBy (ps ++ values legs.flatten)).bind _ = _
        rw [horder.run]
        cases textOf (t.orderBySet c.orderBy) with
        | error e => rfl
        | ok order =>
          change Except.ok (pre ++ (" " ++ op ++ " ").intercalate (((renderEach (marks t) ps.length legs).map String.ofList).map
            fun leg => "(" ++ leg ++ ")") ++ order ++ t.limitOffset c.limit c.offset, ps ++ values legs.flatten) = _
          rw [← renderEach_around, intercalate_renderEach]
          change _ = Except.ok (pre ++ (written t ps _).1, (written t ps _).2)
          rw [written_append, written_chunk, values_separated, values_flatten_around]
          simp only [String.append_assoc]
          rfl
    · have ⟨legs, hlegs, hpieces⟩ := bind_ok hpieces
      have ⟨order, ho, heq⟩ := bind_ok hpieces
      rw [← Except.ok.inj heq]
      have htail : IsClause (order ++ t.limitOffset c.limit c.offset) := tail_clause (horder.written order ho)
      refine readable_append (readable_separated ?_ ?_ fun p hp => ?_) ⟨htail.1.first, trivial⟩ (leads_spaced htail.2 trivial)
      · rw [String.append_assoc, String.toList_append]
        rfl
      · exact (markless_append (markless_append (by decide) hop) (by decide)).first
      · have ⟨q, hq, heq⟩ := List.mem_map.mp hp
        rw [← heq]
        exact readable_around (by decide) (by decide) (by decide) (h.readable legs hlegs q hq)
    · have ⟨legs, hlegs, hpieces⟩ := bind_ok hpieces
      have ⟨order, ho, heq⟩ := bind_ok hpieces
      rw [← Except.ok.inj heq]
      have htail : IsClause (order ++ t.limitOffset c.limit c.offset) := tail_clause (horder.written order ho)
      refine leads_append (leads_separated _ ?_ fun p hp => ?_) (leads_spaced htail.2 trivial)
      · rw [String.append_assoc, String.toList_append]
        rfl
      · have ⟨q, _, heq⟩ := List.mem_map.mp hp
        rw [← heq]
        exact leads_chunk _ (by decide)

theorem querySql_lays (h : Lays t x e) (hs : LaysAll t xs es)
    (hleads : ∀ pss, es = .ok pss → ∀ p ∈ pss, Leads p) :
    LaysBehind t (fun pre => t.querySql pre x xs c) (queryLayout t e es c) := by
  have hcols := selectList_writes t c.select
  have hwheres : LaysClause t (t.conjunction "WHERE" c.wheres) _ := conjunction_lays (by decide) c.wheres
  have hgroup := groupBySql_writes t c.groupBy
  have hhaving : LaysClause t (t.conjunction "HAVING" c.having) _ := conjunction_lays (by decide) c.having
  have horder := orderByQuery_writes t c.orderBy
  unfold Target.querySql queryLayout
  refine ⟨fun pre ps => ?_, fun pieces hpieces => ?_, fun pieces hpieces => ?_⟩
  · change (t.selectList c.select ps).bind _ = _
    rw [hcols.run]
    cases textOf (t.selectList c.select) with
    | error e => rfl
    | ok cols =>
      change (x ps).bind _ = _
      rw [h.run]
      cases e with
      | error e => rfl
      | ok source =>
        change (xs (ps ++ values source)).bind _ = _
        rw [hs.run]
        cases es with
        | error e => rfl
        | ok joins =>
          change (t.conjunction "WHERE" c.wheres (ps ++ values source ++ values joins.flatten)).bind _ = _
          rw [hwheres.run]
          cases conjunctionLayout t "WHERE" c.wheres with
          | error e => rfl
          | ok wheres =>
            change (t.groupBySql c.groupBy (ps ++ values source ++ values joins.flatten ++ values wheres)).bind _ = _
            rw [hgroup.run]
            cases textOf (t.groupBySql c.groupBy) with
            | error e => rfl
            | ok groupBy =>
              change (t.conjunction "HAVING" c.having
                (ps ++ values source ++ values joins.flatten ++ values wheres)).bind _ = _
              rw [hhaving.run]
              cases conjunctionLayout t "HAVING" c.having with
              | error e => rfl
              | ok having =>
                change (t.orderByQuery c.orderBy
                  (ps ++ values source ++ values joins.flatten ++ values wheres ++ values having)).bind _ = _
                rw [horder.run]
                cases textOf (t.orderByQuery c.orderBy) with
                | error e => rfl
                | ok order =>
                  change Except.ok (pre ++ "SELECT " ++ _ ++ cols ++ " FROM " ++ (written t ps source).1 ++
                    "".intercalate _ ++ (written t _ wheres).1 ++ groupBy ++ (written t _ having).1 ++ order ++
                      t.limitOffset c.limit c.offset, _) = Except.ok (pre ++ (written t ps _).1, (written t ps _).2)
                  rw [join_renderEach, written_cons, written_append, written_append, written_append, written_cons,
                    written_append, written_chunk]
                  simp only [String.append_assoc]
                  rfl
  · have ⟨cols, hc, hpieces⟩ := bind_ok hpieces
    have ⟨source, hsource, hpieces⟩ := bind_ok hpieces
    have ⟨joins, hjoins, hpieces⟩ := bind_ok hpieces
    have ⟨wheres, hw, hpieces⟩ := bind_ok hpieces
    have ⟨groupBy, hg, hpieces⟩ := bind_ok hpieces
    have ⟨having, hh, hpieces⟩ := bind_ok hpieces
    have ⟨order, ho, heq⟩ := bind_ok hpieces
    rw [← Except.ok.inj heq]
    have htail : IsClause (order ++ t.limitOffset c.limit c.offset) := tail_clause (horder.written order ho)
    have hgroupBy := hgroup.written groupBy hg
    have hhead : Markless ("SELECT " ++ (if c.distinct.truthy then "DISTINCT " else "") ++ cols ++ " FROM ") := by
      refine markless_append (markless_append (markless_append (by decide) ?_) (hcols.written cols hc)) (by decide)
      exact markless_ite (by decide) (by decide)
    have hlast : Readable (marks t) [(Piece.chunk (order ++ t.limitOffset c.limit c.offset) : Piece JsValue)] ∧
        Leads [(Piece.chunk (order ++ t.limitOffset c.limit c.offset) : Piece JsValue)] :=
      ⟨⟨htail.1.first, trivial⟩, leads_spaced htail.2 trivial⟩
    have hafter := readable_append (hhaving.readable having hh) hlast.1 hlast.2
    have hafterLeads := leads_append (hhaving.leads having hh) hlast.2
    have hgrouped := readable_append (hwheres.readable wheres hw) (show Readable (marks t) (.chunk groupBy :: _) from
      ⟨hgroupBy.1.first, hafter⟩) (leads_spaced hgroupBy.2 hafterLeads)
    have hgroupedLeads := leads_append (hwheres.leads wheres hw) (leads_spaced hgroupBy.2 hafterLeads)
    have hjoined := readable_flatten fun p hp => ⟨hs.readable joins hjoins p hp, hleads joins hjoins p hp⟩
    refine ⟨hhead.first, readable_append (h.readable source hsource) ?_ (leads_append hjoined.2 hgroupedLeads)⟩
    exact readable_append hjoined.1 hgrouped hgroupedLeads
  · have ⟨cols, _, hpieces⟩ := bind_ok hpieces
    have ⟨source, _, hpieces⟩ := bind_ok hpieces
    have ⟨joins, _, hpieces⟩ := bind_ok hpieces
    have ⟨wheres, _, hpieces⟩ := bind_ok hpieces
    have ⟨groupBy, _, hpieces⟩ := bind_ok hpieces
    have ⟨having, _, hpieces⟩ := bind_ok hpieces
    have ⟨order, _, heq⟩ := bind_ok hpieces
    rw [← Except.ok.inj heq]
    refine leads_chunk _ ?_
    simp only [String.append_assoc, String.toList_append]
    rfl

theorem lays_with (h : LaysAll t xs es) {x : String → Compile String} (hx : LaysBehind t x e) :
    Lays t (do x (Target.withSql (← xs))) (do
      let pre := withLayout (← es)
      let body ← e
      .ok (pre ++ body)) := by
  have hwith : ∀ n pss, Target.withSql ((renderEach (marks t) n pss).map String.ofList) =
      String.ofList (render (marks t) n (withLayout pss)) := by
    intro n pss
    unfold Target.withSql withLayout
    cases pss with
    | nil => rfl
    | cons p pss =>
      have hparts := intercalate_renderEach (t := t) ", " n (p :: pss)
      have hsome : ((renderEach (marks t) n (p :: pss)).map String.ofList).isEmpty = false := rfl
      rw [hsome, if_neg Bool.false_ne_true, List.isEmpty_cons, if_neg Bool.false_ne_true]
      rw [hparts]
      rw [ofList_chunk, ofList_append, ofList_chunk, ofList_nil, String.append_empty, String.append_assoc]
  have hvalues : ∀ pss : List (List (Piece JsValue)), values (withLayout pss) = values pss.flatten := by
    intro pss
    unfold withLayout
    cases pss with
    | nil => rfl
    | cons p pss =>
      change values (.chunk "WITH " :: (separated ", " (p :: pss) ++ [.chunk " "])) = _
      rw [values, values_append, values_separated, values, values, List.append_nil]
  refine ⟨fun ps => ?_, fun pieces hpieces => ?_⟩
  · change (xs ps).bind _ = _
    rw [h.run]
    cases es with
    | error e => rfl
    | ok pss =>
      change x (Target.withSql ((renderEach (marks t) ps.length pss).map String.ofList)) (ps ++ values pss.flatten) = _
      rw [hx.run, hwith]
      cases e with
      | error e => rfl
      | ok body =>
        change _ = Except.ok (written t ps (withLayout pss ++ body))
        rw [written_append, hvalues]
        rfl
  · have ⟨pss, hpss, hpieces⟩ := bind_ok hpieces
    have ⟨body, hbody, heq⟩ := bind_ok hpieces
    rw [← Except.ok.inj heq]
    refine readable_append ?_ (hx.readable body hbody) (hx.leads body hbody)
    unfold withLayout
    split
    · trivial
    · refine ⟨Markless.first (by decide), readable_append ?_ ⟨Markless.first (by decide), trivial⟩ (leads_chunk _ (by decide))⟩
      exact readable_separated (by decide) (Markless.first (by decide)) (h.readable pss hpss)

theorem lays_all_around {pre post : String} (hpre : Markless pre) (hpost : Markless post)
    (hleads : post.toList.head?.map Char.isDigit = some false) (h : Lays t x e) (hs : LaysAll t xs es) :
    LaysAll t (do let a ← x; let as ← xs; pure ((pre ++ a ++ post) :: as))
      (do let p ← e; let ps ← es; .ok (around pre post p :: ps)) := by
  have hall := lays_all_cons (lays_around hpre hpost hleads h) hs
  refine ⟨fun ps => ?_, fun pss hpss => hall.readable pss ?_⟩
  · have hrun := hall.run ps
    change ((x ps).bind _).bind _ = _ at hrun
    change (x ps).bind _ = _
    rw [h.run] at hrun ⊢
    cases e with
    | error e => rfl
    | ok p => exact hrun
  · cases e with
    | error e => cases hpss
    | ok p => exact hpss

end

section

variable (t : Target)

mutual

theorem compile_lays (names : List JsValue) : (n : Node) → Lays t (t.compile names n) (layout t names n)
  | .missing => lays_refused _
  | .query ctes union intersect except source joins c => by
    rw [Target.compile, layout]
    have hctes := compileCtes_lays names ctes
    match union with
    | some legs =>
      have hset : LaysBehind t (fun pre => t.setSql "UNION" legs.length pre (t.compileLegs names legs) c) _ :=
        setSql_lays (by decide) _ (compileLegs_lays names legs)
      exact lays_with hctes hset
    | none =>
      match intersect with
      | some legs =>
        have hset : LaysBehind t (fun pre => t.setSql "INTERSECT" legs.length pre (t.compileLegs names legs) c) _ :=
          setSql_lays (by decide) _ (compileLegs_lays names legs)
        exact lays_with hctes hset
      | none =>
        match except with
        | some legs =>
          have hset : LaysBehind t (fun pre => t.setSql "EXCEPT" legs.length pre (t.compileLegs names legs) c) _ :=
            setSql_lays (by decide) _ (compileLegs_lays names legs)
          exact lays_with hctes hset
        | none =>
          have hjoins := compileJoins_lays names joins
          dsimp only
          cases Target.isMissing source with
          | true => exact lays_with hctes (behind_refused _)
          | false =>
            have hquery : LaysBehind t (fun pre => t.querySql pre (t.tableRef names source) (t.compileJoins names joins) c) _ :=
              querySql_lays (tableRef_lays names source) hjoins.1 hjoins.2
            exact lays_with hctes hquery

theorem compileLegs_lays (names : List JsValue) : (ns : List Node) →
    LaysAll t (t.compileLegs names ns) (layoutLegs t names ns)
  | [] => lays_all_nil
  | n :: ns => by
    rw [Target.compileLegs, layoutLegs]
    exact lays_all_cons (compile_lays names n) (compileLegs_lays names ns)

theorem compileCtes_lays (names : List JsValue) : (cs : List Cte) →
    LaysAll t (t.compileCtes names cs) (layoutCtes t names cs)
  | [] => lays_all_nil
  | .cte name columns base unionAll :: cs => by
    rw [Target.compileCtes, layoutCtes]
    cases unionAll.isSome with
    | true => exact ⟨fun _ => rfl, nofun⟩
    | false =>
      exact lays_all_around (markless_append (markless_cteHead name columns) (by decide)) (by decide) (by decide)
        (compile_lays names base) (compileCtes_lays names cs)

theorem tableRef_lays (names : List JsValue) : (r : Ref) → Lays t (t.tableRef names r) (layoutRef t names r)
  | .missing => lays_refused _
  | .table source resource aliasName => by
    rw [Target.tableRef, layoutRef]
    have htable := tableName_writes t names source resource aliasName
    refine ⟨fun ps => ?_, fun pieces hpieces => ?_⟩
    · rw [htable.run]
      cases textOf (t.tableName names source resource aliasName) with
      | error e => rfl
      | ok s =>
        change _ = Except.ok (written t ps [.chunk s])
        rw [written_chunk]
        rfl
    · have ⟨s, hs, heq⟩ := map_ok hpieces
      rw [← heq]
      exact ⟨(htable.written s hs).first, trivial⟩
  | .derived query aliasName => by
    rw [Target.tableRef, layoutRef]
    refine lays_ite (lays_refused _) ?_
    have hclose : Markless (") " ++ t.quoteIdent aliasName) := markless_append (by decide) (markless_quoteIdent _)
    have hleads : (") " ++ t.quoteIdent aliasName).toList.head?.map Char.isDigit = some false := by
      rw [String.toList_append]
      rfl
    have haround : Lays t (do let a ← t.compile names query; pure ("(" ++ a ++ (") " ++ t.quoteIdent aliasName))) _ :=
      lays_around (by decide) hclose hleads (compile_lays names query)
    refine ⟨fun ps => ?_, haround.readable⟩
    rw [← haround.run]
    change (t.compile names query ps).bind _ = (t.compile names query ps).bind _
    cases t.compile names query ps with
    | error e => rfl
    | ok p =>
      change Except.ok ("(" ++ p.1 ++ ") " ++ t.quoteIdent aliasName, p.2) = Except.ok (_, p.2)
      rw [String.append_assoc]

theorem compileJoins_lays (names : List JsValue) : (js : List Join) →
    LaysAll t (t.compileJoins names js) (layoutJoins t names js) ∧
      ∀ pss, layoutJoins t names js = .ok pss → ∀ p ∈ pss, Leads p
  | [] => ⟨lays_all_nil, fun pss hpss => by rw [← Except.ok.inj hpss]; nofun⟩
  | .join type on ref :: js => by
    rw [Target.compileJoins, layoutJoins]
    have hjoin := joinSql_lays type on (tableRef_lays names ref)
    have hrest := compileJoins_lays names js
    refine ⟨lays_all_cons hjoin.toLays hrest.1, fun pss hpss => ?_⟩
    have ⟨j, hj, hpss⟩ := bind_ok hpss
    have ⟨joins, hjoins, heq⟩ := bind_ok hpss
    rw [← Except.ok.inj heq, List.forall_mem_cons]
    exact ⟨hjoin.leads j hj, hrest.2 joins hjoins⟩

end

end

/-- The parameter a database takes for the placeholder at a place of the text: the one of its number if it has
one, else the next one. -/
def boundParam (t : Target) (params : List JsValue) (place : ℕ) (digits : List Char) : JsValue :=
  let k := match t.dialect with
    | .postgres | .oracle => Nat.ofDigitChars 10 digits 0 - 1
    | .mysql | .snowflake => place
  params[k]?.getD .undefined

def placeholders (t : Target) (text : String) : List String :=
  (marksOf (marks t).first text.toList).map fun digits => String.ofList ((marks t).first :: digits)

/-- The text with every placeholder replaced by the parameter it is bound to. -/
def filled (t : Target) (display : JsValue → List Char) (sql : CompiledSql) : List Char :=
  fill (marks t).first (fun place digits => display (boundParam t sql.params place digits)) 0 false sql.text.toList

theorem boundParam_digits (t : Target) (params : List JsValue) (k : ℕ) :
    boundParam t params k ((marks t).digits (k + 1)) = params[k]?.getD .undefined := by
  have hnumber : Nat.ofDigitChars 10 (toString (k + 1)).toList 0 - 1 = k := by
    rw [Nat.toString_eq_repr, Nat.toList_repr, Nat.ofDigitChars_ten_toDigits, Nat.add_sub_cancel]
  unfold boundParam marks
  cases t.dialect with
  | postgres => exact congrArg (fun n => params[n]?.getD .undefined) hnumber
  | oracle => exact congrArg (fun n => params[n]?.getD .undefined) hnumber
  | mysql => rfl
  | snowflake => rfl

/-- The placeholders are numbered from left to right, as many as there are parameters, and each is bound to the
value that stands in its place in the layout of the AST. -/
theorem placeholders_aligned (t : Target) (ast : Node) (sql : CompiledSql) (h : toJoinSql t ast = .ok sql) :
    placeholders t sql.text = (List.range sql.params.length).map (fun k => t.placeholderText (k + 1)) ∧
      ∃ pieces, layout t (collectCtes ast) ast = .ok pieces ∧ sql.params = values pieces ∧
        ∀ display, filled t display sql = shown display pieces := by
  have hlays := compile_lays t (collectCtes ast) ast
  unfold toJoinSql at h
  rw [hlays.run] at h
  have ⟨r, hr, hsql⟩ := map_ok h
  have ⟨pieces, hpieces, hwritten⟩ := map_ok hr
  have hreadable := hlays.readable pieces hpieces
  have htext : sql.text.toList = render (marks t) 0 pieces := by
    rw [← hsql, ← hwritten]
    exact String.toList_ofList
  have hparams : sql.params = values pieces := by
    rw [← hsql, ← hwritten]
    rfl
  refine ⟨?_, pieces, hpieces, hparams, fun display => ?_⟩
  · unfold placeholders
    rw [htext, marksOf_render hreadable, List.map_map, hparams]
    refine List.map_congr_left fun k _ => ?_
    rw [placeholderText_eq, Function.comp_apply, Nat.zero_add]
    rfl
  · unfold filled
    rw [htext]
    refine fill_render hreadable fun k v hv => ?_
    rw [Nat.zero_add, boundParam_digits, hparams, hv, Option.getD_some]

/-- SELECT * FROM users WHERE role IN ('admin', 'owner') AND age > 30 -/
def seniorStaff : Node :=
  .query [] none none none (.table .undefined (.str "users") .undefined) []
    { wheres := [
        .entry { column := .str "role", operator := .str "IN", value := .arr [.str "admin", .str "owner"] },
        .entry { column := .str "age", operator := .str "GT", value := .num 30 }] }

def seniorSql : CompiledSql :=
  ⟨"SELECT * FROM \"shop\".\"users\" WHERE \"role\" IN ($1, $2) AND \"age\" > $3", [.str "admin", .str "owner", .num 30]⟩

theorem senior_aligned : toJoinSql shopDatabase seniorStaff = .ok seniorSql ∧
    placeholders shopDatabase seniorSql.text =
      (List.range seniorSql.params.length).map (fun k => shopDatabase.placeholderText (k + 1)) ∧
      ∃ pieces, layout shopDatabase (collectCtes seniorStaff) seniorStaff = .ok pieces ∧
        seniorSql.params = values pieces ∧ ∀ display, filled shopDatabase display seniorSql = shown display pieces :=
  ⟨by rfl, placeholders_aligned shopDatabase seniorStaff seniorSql (by rfl)⟩

end DataFabric.AlignedParameters
