import DataFabric.CharText
import DataFabric.CursorPages
import DataFabric.ReplicaTables
import Mathlib.Data.PNat.Notation

set_option autoImplicit false

/-!
# Copying a whole table

A full run empties the destination and pages through the source by one column, or by offset where
it finds no column for that.
-/
namespace DataFabric.FullCopies

open CursorPages ReplicaTables

structure Column where
  name : String
  primaryKey : Bool

/-- The values of a row in the order of the columns; `none` is NULL. -/
abbrev Record (κ : Type*) := List (Option κ)

section Columns

variable {κ : Type*}

def value (cols : List Column) (name : String) (r : Record κ) : Option κ :=
  ((cols.zip r).find? fun x => x.1.name == name).bind Prod.snd

def pkCols (cols : List Column) : List String := (cols.filter Column.primaryKey).map Column.name

def pkOf (cols : List Column) (r : Record κ) : Record κ := (pkCols cols).map fun c => value cols c r

def idName (name : String) : Bool :=
  let s := CharText.asciiLower name
  s == "id" || CharText.endsWith s "_id" || s == "pk" ||
    ["seq", "sequence", "rowid", "version"].any fun w => CharText.containsText w s

def keyCol (cols : List Column) : Option String :=
  ((pkCols cols).head?.or ((cols.map Column.name).find? idName)).or (cols.map Column.name).head?

/-- The column a full run pages by: only Elasticsearch looks further than the primary key. -/
def pagingCol (kind : DestKind) (cols : List Column) : Option String :=
  match kind with
  | .es => keyCol cols
  | _ => (pkCols cols).head?

def leadCol (cols : List Column) : Option String := (pkCols cols).head?.or (cols.map Column.name).head?

end Columns

structure SourceTable (κ : Type*) where
  columns : List Column
  rows : List (Record κ)
  key_unique : pkCols columns ≠ [] → (rows.map (pkOf columns)).Nodup

inductive MergeKey (κ : Type*)
  | values (vs : Record κ)
  | text (s : String)
deriving DecidableEq

/-- What a copy makes of values: what the source's driver makes of a row (MySQL's gives a BIGINT as a double),
JavaScript's `String`, and what a column of the destination takes a value for (MySQL has engines keys in a collated VARCHAR
and NUMERIC keys in a DOUBLE). -/
structure Engines (κ : Type*) where
  read : Record κ → Record κ
  read_again : ∀ r, read (read r) = read r
  text : Option κ → String
  held : String → κ → κ

section Destination

variable {κ : Type*} [DecidableEq κ] (engines : Engines κ)

def heldKey (cols : List Column) (c : String) (r : Record κ) : Option κ := (value cols c r).map (engines.held c)

/-- The key by which a destination takes a row for one it has. -/
def mergeKey (kind : DestKind) (cols : List Column) (r : Record κ) : Option (MergeKey κ) :=
  match kind with
  | .pg | .snowflake => none
  | .mysql => if pkCols cols = [] then none else some (.values ((pkCols cols).map fun c => heldKey engines cols c r))
  -- `MERGE` compares by `=`, which NULL never passes
  | .oracle => ((leadCol cols).bind fun c => heldKey engines cols c r).map fun v => .values [some v]
  -- an `_id` of the row itself replaces the one made from the key
  | .mongo => if cols.any (·.name == "_id") then some (.values [value cols "_id" r])
      else (leadCol cols).map fun c => .values [value cols c r]
  | .es => if cols.any (·.name == "_id") then (value cols "_id" r).map fun v => .text (engines.text (some v))
      else (keyCol cols).map fun c => .text (engines.text (value cols c r))

/-- One row of a statement; `none` is a violated primary key. -/
def put (kind : DestKind) (cols : List Column) (dest : List (Record κ)) (r : Record κ) :
    Option (List (Record κ)) :=
  match mergeKey engines kind cols r with
  | none =>
    if pkCols cols ≠ [] ∧ (kind = .pg ∨ kind = .snowflake) ∧ pkOf cols r ∈ dest.map (pkOf cols) then none
    else some (dest ++ [r])
  | some k =>
    if dest.any fun s => mergeKey engines kind cols s = some k then
      -- without another column the clause `ON DUPLICATE KEY` is left out
      if kind = .mysql ∧ cols.all Column.primaryKey then none
      else some (dest.map fun s => if mergeKey engines kind cols s = some k then r else s)
    else some (dest ++ [r])

def onBatch (kind : DestKind) (cols : List Column) (dest : List (Record κ)) (rows : List (Record κ)) :
    Option (List (Record κ)) := rows.foldlM (put engines kind cols) dest

end Destination

inductive CopyError | rowCap | refused | unfinished
deriving DecidableEq

/-- The answers of a source that does not change: by key, in an order that leaves rows of one key
and the side of the NULLs to the engine; by offset, in one fixed order. -/
structure Reader {κ : Type*} [LinearOrder κ] (t : SourceTable κ) (batchSize : ℕ+) where
  nullsFirst : Bool
  behind : String → Option κ → List (Record κ)
  skipping : ℕ → List (Record κ)
  behind_answers : ∀ c, Answers (value t.columns c) nullsFirst batchSize t.rows (behind c)
  skipping_answers : ∃ l : List (Record κ), l.Perm t.rows ∧ ∀ offset, skipping offset = (l.drop offset).take batchSize

section Copy

variable {κ : Type*} [LinearOrder κ] {t : SourceTable κ} {batchSize : ℕ+}

def fetch (reader : Reader t batchSize) (keyCol : Option String) (lastKey : Option κ) (offset : ℕ) :
    List (Record κ) :=
  match keyCol with
  | some c => reader.behind c lastKey
  | none => reader.skipping offset

/-- The loop reads on until a page is short; `fuel` bounds its turns. -/
def pagedRead {δ : Type*} (engines : Engines κ) (reader : Reader t batchSize) (keyCol : Option String)
    (onBatch : δ → List (Record κ) → Option δ) (maxRows : ℕ) :
    ℕ → Option κ → ℕ → ℕ → δ → Except CopyError δ
  | 0, _, _, _, _ => .error .unfinished
  | fuel + 1, lastKey, offset, total, dest =>
    let rows := (fetch reader keyCol lastKey offset).map engines.read
    match rows.getLast? with
    | none => .ok dest
    | some last =>
      match onBatch dest rows with
      | none => .error .refused
      | some dest =>
        if rows.length < batchSize then .ok dest
        else if maxRows ≤ total + rows.length then .error .rowCap
        else pagedRead engines reader keyCol onBatch maxRows fuel (keyCol.bind fun c => value t.columns c last)
          (offset + rows.length) (total + rows.length) dest

variable (engines : Engines κ)

/-- The copy of a table into a destination that was dropped or cleared before. -/
def copyTable (kind : DestKind) (reader : Reader t batchSize) (maxRows fuel : ℕ) :
    Except CopyError (List (Record κ)) :=
  pagedRead engines reader (pagingCol kind t.columns) (onBatch engines kind t.columns) maxRows fuel none 0 0 []

def Copies (kind : DestKind) (reader : Reader t batchSize) (maxRows fuel : ℕ) : Prop :=
  ∃ dest, copyTable engines kind reader maxRows fuel = .ok dest ∧ dest.Perm t.rows

def Exact (t : SourceTable κ) : Prop := ∀ r ∈ t.rows, engines.read r = r

/-- No two rows share the key by which the destination replaces rows. -/
def Unmerged (kind : DestKind) (t : SourceTable κ) : Prop :=
  (t.rows.filterMap (mergeKey engines kind t.columns)).Nodup

end Copy

section Writing

variable {κ : Type*} [DecidableEq κ] {engines : Engines κ} {kind : DestKind} {cols : List Column}
variable {dest dest' rows : List (Record κ)} {r : Record κ}

theorem put_new (hkey : pkCols cols ≠ [] → pkOf cols r ∉ dest.map (pkOf cols))
    (hmerge : ∀ k, mergeKey engines kind cols r = some k → k ∉ dest.filterMap (mergeKey engines kind cols)) :
    put engines kind cols dest r = some (dest ++ [r]) := by
  unfold put
  cases hk : mergeKey engines kind cols r with
  | none => exact if_neg fun h => hkey h.1 h.2.2
  | some k =>
    dsimp only
    rw [if_neg]
    intro hany
    obtain ⟨s, hs, hsame⟩ := List.any_eq_true.mp hany
    exact hmerge k hk (List.mem_filterMap.mpr ⟨s, hs, of_decide_eq_true hsame⟩)

theorem put_cases (h : put engines kind cols dest r = some dest') :
    (dest' = dest ++ [r] ∧
      ∀ k, mergeKey engines kind cols r = some k → k ∉ dest.filterMap (mergeKey engines kind cols)) ∨
    dest'.length = dest.length := by
  unfold put at h
  cases hk : mergeKey engines kind cols r with
  | none =>
    simp only [hk, Option.ite_none_left_eq_some, Option.some.injEq] at h
    exact .inl ⟨h.2.symm, nofun⟩
  | some k =>
    simp only [hk] at h
    by_cases hany : (dest.any fun s => mergeKey engines kind cols s = some k) = true
    · simp only [if_pos hany, Option.ite_none_left_eq_some, Option.some.injEq] at h
      exact .inr (h.2 ▸ List.length_map _)
    · rw [if_neg hany, Option.some.injEq] at h
      refine .inl ⟨h.symm, fun k' hk' hmem => hany ?_⟩
      obtain ⟨s, hs, hsame⟩ := List.mem_filterMap.mp hmem
      cases hk'
      exact List.any_eq_true.mpr ⟨s, hs, decide_eq_true hsame⟩

theorem onBatch_new (hkey : pkCols cols ≠ [] → ((dest ++ rows).map (pkOf cols)).Nodup)
    (hmerge : ((dest ++ rows).filterMap (mergeKey engines kind cols)).Nodup) :
    onBatch engines kind cols dest rows = some (dest ++ rows) := by
  induction rows generalizing dest with
  | nil =>
    rw [List.append_nil]
    rfl
  | cons r rows ih =>
    have hsplit : dest ++ r :: rows = (dest ++ [r]) ++ rows := by simp
    have hput : put engines kind cols dest r = some (dest ++ [r]) := by
      refine put_new (fun hne => ?_) fun k hk => ?_
      · have hnodup := hkey hne
        rw [List.map_append, List.nodup_append] at hnodup
        exact fun hmem => hnodup.2.2 _ hmem _ (List.mem_map_of_mem List.mem_cons_self) rfl
      · rw [List.filterMap_append, List.nodup_append] at hmerge
        exact fun hmem => hmerge.2.2 _ hmem _ (List.mem_filterMap.mpr ⟨r, List.mem_cons_self, hk⟩) rfl
    rw [hsplit] at hkey hmerge ⊢
    unfold onBatch at ih ⊢
    rw [List.foldlM_cons, hput]
    exact ih hkey hmerge

theorem onBatch_length_le (h : onBatch engines kind cols dest rows = some dest') :
    dest'.length ≤ dest.length + rows.length := by
  induction rows generalizing dest with
  | nil =>
    cases h
    exact le_rfl
  | cons r rows ih =>
    unfold onBatch at h
    rw [List.foldlM_cons] at h
    obtain ⟨mid, hmid, hrest⟩ := Option.bind_eq_some_iff.mp h
    have hle := ih hrest
    rw [List.length_cons]
    rcases put_cases hmid with ⟨rfl, -⟩ | hsame
    · rw [List.length_append, List.length_singleton] at hle
      omega
    · omega

theorem onBatch_unmerged (h : onBatch engines kind cols dest rows = some dest')
    (hlength : dest'.length = dest.length + rows.length)
    (hdest : (dest.filterMap (mergeKey engines kind cols)).Nodup) :
    ((dest ++ rows).filterMap (mergeKey engines kind cols)).Nodup := by
  induction rows generalizing dest with
  | nil => rwa [List.append_nil]
  | cons r rows ih =>
    unfold onBatch at h
    rw [List.foldlM_cons] at h
    obtain ⟨mid, hmid, hrest⟩ := Option.bind_eq_some_iff.mp h
    rw [List.length_cons] at hlength
    rcases put_cases hmid with ⟨rfl, hnew⟩ | hsame
    · have hsplit : dest ++ r :: rows = (dest ++ [r]) ++ rows := by simp
      rw [hsplit]
      refine ih hrest (by rw [List.length_append, List.length_singleton]; omega) ?_
      rw [List.filterMap_append, List.nodup_append]
      refine ⟨hdest, ?_, fun a ha b hb heq => ?_⟩
      · cases hk : mergeKey engines kind cols r <;> simp [hk]
      · obtain ⟨s, hs, hk⟩ := List.mem_filterMap.mp hb
        rw [List.mem_singleton.mp hs] at hk
        exact hnew b hk (heq ▸ ha)
    · have hle := onBatch_length_le hrest
      omega

end Writing

section Paging

variable {κ δ : Type*} [LinearOrder κ] {t : SourceTable κ} {batchSize : ℕ+} {reader : Reader t batchSize}
variable {f : δ → Record κ → Option δ} {maxRows fuel offset total : ℕ} {lastKey : Option κ}
variable {dest dest' : δ} {c : String} {engines : Engines κ}

theorem fetched {keyCol : Option String} {r : Record κ} (hr : r ∈ fetch reader keyCol lastKey offset) : r ∈ t.rows := by
  cases keyCol with
  | some c =>
    obtain ⟨l, hl, -, hread⟩ := reader.behind_answers c lastKey
    have hmem : r ∈ reader.behind c lastKey := hr
    rw [hread] at hmem
    exact (List.mem_filter.mp (hl.subset (List.mem_of_mem_take hmem))).1
  | none =>
    obtain ⟨l, hl, hskip⟩ := reader.skipping_answers
    have hmem : r ∈ reader.skipping offset := hr
    rw [hskip] at hmem
    exact hl.subset (List.mem_of_mem_drop (List.mem_of_mem_take hmem))

theorem fetch_exact (hexact : Exact engines t) (keyCol : Option String) :
    (fetch reader keyCol lastKey offset).map engines.read = fetch reader keyCol lastKey offset := by
  conv_rhs => rw [← List.map_id (fetch reader keyCol lastKey offset)]
  exact List.map_congr_left fun r hr => hexact r (fetched hr)

theorem fetch_behind (hexact : Exact engines t) :
    (fetch reader (some c) lastKey offset).map engines.read = reader.behind c lastKey := fetch_exact hexact _

theorem fetch_skipping (hexact : Exact engines t) :
    (fetch reader none lastKey offset).map engines.read = reader.skipping offset := fetch_exact hexact _

theorem pagedRead_behind (hexact : Exact engines t) (h : pagedRead engines reader (some c) (fun d rows => rows.foldlM f d) maxRows fuel
    lastKey offset total dest = .ok dest') :
    ∃ all, collect (value t.columns c) (reader.behind c) batchSize fuel lastKey = some all ∧
      all.foldlM f dest = some dest' := by
  induction fuel generalizing lastKey offset total dest with
  | zero => cases h
  | succ fuel ih =>
    simp only [pagedRead] at h
    rw [fetch_behind hexact] at h
    unfold collect
    cases hlast : (reader.behind c lastKey).getLast? with
    | none =>
      simp only [hlast, Except.ok.injEq] at h
      exact ⟨[], rfl, congrArg some h⟩
    | some last =>
      simp only [hlast] at h ⊢
      cases hbatch : (reader.behind c lastKey).foldlM f dest with
      | none => simp [hbatch] at h
      | some mid =>
        simp only [hbatch] at h
        by_cases hshort : (reader.behind c lastKey).length < batchSize
        · rw [if_pos hshort, Except.ok.injEq] at h
          exact ⟨_, if_pos hshort, h ▸ hbatch⟩
        · rw [if_neg hshort] at h ⊢
          by_cases hcap : maxRows ≤ total + (reader.behind c lastKey).length
          · rw [if_pos hcap] at h
            cases h
          · rw [if_neg hcap] at h
            obtain ⟨rest, hrest, hwritten⟩ := ih h
            refine ⟨reader.behind c lastKey ++ rest, ?_, ?_⟩
            · rw [show collect (value t.columns c) (reader.behind c) batchSize fuel
                (value t.columns c last) = some rest from hrest]
              rfl
            · rw [List.foldlM_append, hbatch]
              exact hwritten

theorem pagedRead_collect (hexact : Exact engines t) {all : List (Record κ)}
    (h : collect (value t.columns c) (reader.behind c) batchSize fuel lastKey = some all)
    (hcap : total + all.length < maxRows) (hwritten : all.foldlM f dest = some dest') :
    pagedRead engines reader (some c) (fun d rows => rows.foldlM f d) maxRows fuel lastKey offset total dest =
      .ok dest' := by
  induction fuel generalizing lastKey offset total dest all with
  | zero => cases h
  | succ fuel ih =>
    unfold collect at h
    simp only [pagedRead]
    rw [fetch_behind hexact]
    cases hlast : (reader.behind c lastKey).getLast? with
    | none =>
      simp only [hlast, Option.some.injEq] at h
      subst h
      exact congrArg Except.ok (Option.some.inj hwritten)
    | some last =>
      simp only [hlast] at h ⊢
      by_cases hshort : (reader.behind c lastKey).length < batchSize
      · rw [if_pos hshort, Option.some.injEq] at h
        subst h
        simp only [hwritten, if_pos hshort]
      · rw [if_neg hshort, Option.map_eq_some_iff] at h
        obtain ⟨rest, hrest, rfl⟩ := h
        rw [List.foldlM_append] at hwritten
        obtain ⟨mid, hmid, hbehind⟩ := Option.bind_eq_some_iff.mp hwritten
        rw [List.length_append] at hcap
        simp only [hmid, if_neg hshort]
        rw [if_neg (by omega)]
        exact ih hrest (by omega) hbehind

variable {l : List (Record κ)} (hskip : ∀ o, reader.skipping o = (l.drop o).take batchSize)

include hskip in
theorem pagedRead_skipping (hexact : Exact engines t) (h : pagedRead engines reader none (fun d rows => rows.foldlM f d) maxRows fuel
    lastKey offset total dest = .ok dest') : (l.drop offset).foldlM f dest = some dest' := by
  induction fuel generalizing lastKey offset total dest with
  | zero => cases h
  | succ fuel ih =>
    simp only [pagedRead] at h
    rw [fetch_skipping hexact, hskip] at h
    cases hlast : ((l.drop offset).take batchSize).getLast? with
    | none =>
      simp only [hlast, Except.ok.injEq] at h
      have hnil := (List.take_eq_nil_iff.mp (List.getLast?_eq_none_iff.mp hlast)).resolve_left
        (ne_of_gt batchSize.2)
      rw [hnil]
      exact congrArg some h
    | some last =>
      simp only [hlast] at h
      rw [← List.take_append_drop batchSize (l.drop offset), List.foldlM_append]
      cases hbatch : ((l.drop offset).take batchSize).foldlM f dest with
      | none => simp [hbatch] at h
      | some mid =>
        simp only [hbatch] at h
        change ((l.drop offset).drop batchSize).foldlM f mid = some dest'
        by_cases hshort : ((l.drop offset).take batchSize).length < batchSize
        · rw [if_pos hshort, Except.ok.injEq] at h
          rw [List.length_take] at hshort
          rw [List.drop_of_length_le (by omega)]
          exact congrArg some h
        · rw [if_neg hshort] at h
          by_cases hcap : maxRows ≤ total + ((l.drop offset).take batchSize).length
          · rw [if_pos hcap] at h
            cases h
          · rw [if_neg hcap] at h
            have hnext := ih h
            rw [List.length_take] at hshort hnext
            rwa [List.drop_drop, show offset + batchSize = offset + min (batchSize : ℕ) (l.drop offset).length by omega]

include hskip in
theorem pagedRead_offsets (hexact : Exact engines t) (hfuel : (l.drop offset).length < fuel)
    (hcap : total + (l.drop offset).length < maxRows)
    (hwritten : (l.drop offset).foldlM f dest = some dest') :
    pagedRead engines reader none (fun d rows => rows.foldlM f d) maxRows fuel lastKey offset total dest =
      .ok dest' := by
  induction fuel generalizing lastKey offset total dest with
  | zero => omega
  | succ fuel ih =>
    simp only [pagedRead]
    rw [fetch_skipping hexact, hskip]
    rw [← List.take_append_drop batchSize (l.drop offset), List.foldlM_append] at hwritten
    obtain ⟨mid, hmid, hbehind⟩ := Option.bind_eq_some_iff.mp hwritten
    have hlength : ((l.drop offset).take batchSize).length = min (batchSize : ℕ) (l.drop offset).length :=
      List.length_take
    have hpos : 0 < (batchSize : ℕ) := batchSize.2
    cases hlast : ((l.drop offset).take batchSize).getLast? with
    | none =>
      have hnil := List.getLast?_eq_none_iff.mp hlast
      have hnil' := (List.take_eq_nil_iff.mp hnil).resolve_left (ne_of_gt hpos)
      rw [hnil] at hmid
      rw [hnil', List.drop_nil] at hbehind
      exact congrArg Except.ok ((Option.some.inj hmid).trans (Option.some.inj hbehind))
    | some last =>
      simp only [hmid]
      by_cases hshort : ((l.drop offset).take batchSize).length < batchSize
      · rw [if_pos hshort]
        rw [List.drop_of_length_le (by omega)] at hbehind
        exact congrArg Except.ok (Option.some.inj hbehind)
      · rw [if_neg hshort, if_neg (by omega)]
        rw [List.drop_drop] at hbehind
        have hfull : ((l.drop offset).take batchSize).length = batchSize := by omega
        have hbehindLength : (l.drop (offset + batchSize)).length = (l.drop offset).length - batchSize := by
          rw [List.length_drop, List.length_drop]
          omega
        rw [hfull]
        exact ih (by omega) (by omega) hbehind

/-- What arrives is what the driver makes of rows. -/
theorem pagedRead_keeps {P : δ → Prop} {onBatch : δ → List (Record κ) → Option δ} {keyCol : Option String}
    (hbatch : ∀ d rows d', P d → (∀ r ∈ rows, engines.read r = r) → onBatch d rows = some d' → P d')
    (hdest : P dest) (h : pagedRead engines reader keyCol onBatch maxRows fuel lastKey offset total dest = .ok dest') :
    P dest' := by
  induction fuel generalizing lastKey offset total dest with
  | zero => cases h
  | succ fuel ih =>
    simp only [pagedRead] at h
    have hrows : ∀ r ∈ (fetch reader keyCol lastKey offset).map engines.read, engines.read r = r := by
      intro r hr
      obtain ⟨s, _, rfl⟩ := List.mem_map.mp hr
      exact engines.read_again s
    cases hlast : ((fetch reader keyCol lastKey offset).map engines.read).getLast? with
    | none =>
      simp only [hlast, Except.ok.injEq] at h
      exact h ▸ hdest
    | some last =>
      simp only [hlast] at h
      cases hwritten : onBatch dest ((fetch reader keyCol lastKey offset).map engines.read) with
      | none => simp [hwritten] at h
      | some mid =>
        have hmid := hbatch _ _ _ hdest hrows hwritten
        simp only [hwritten] at h
        split_ifs at h with hshort hcap
        · exact Except.ok.inj h ▸ hmid
        · exact ih hmid h

end Paging

section Complete

variable {κ : Type*} [LinearOrder κ] {t : SourceTable κ} {batchSize : ℕ+} {engines : Engines κ}
variable {kind : DestKind} {all dest : List (Record κ)}

omit [LinearOrder κ] in
theorem fixed_append {r : Record κ} (hdest : ∀ s ∈ dest, engines.read s = s) (hr : engines.read r = r) :
    ∀ s ∈ dest ++ [r], engines.read s = s :=
  List.forall_mem_append.mpr ⟨hdest, List.forall_mem_singleton.mpr hr⟩

omit [LinearOrder κ] in
theorem fixed_replace {r : Record κ} {p : Record κ → Prop} [DecidablePred p]
    (hdest : ∀ s ∈ dest, engines.read s = s) (hr : engines.read r = r) :
    ∀ s ∈ dest.map fun s => if p s then r else s, engines.read s = s := by
  rw [List.forall_mem_map]
  intro x hx
  split
  · exact hr
  · exact hdest x hx

theorem put_fixed {r : Record κ} {dest' : List (Record κ)} (hdest : ∀ s ∈ dest, engines.read s = s) (hr : engines.read r = r)
    (h : put engines kind t.columns dest r = some dest') : ∀ s ∈ dest', engines.read s = s := by
  unfold put at h
  split at h
  · split_ifs at h
    exact Option.some.inj h ▸ fixed_append hdest hr
  · split_ifs at h
    · exact Option.some.inj h ▸ fixed_replace hdest hr
    · exact Option.some.inj h ▸ fixed_append hdest hr

theorem onBatch_fixed {rows dest' : List (Record κ)} (hdest : ∀ s ∈ dest, engines.read s = s)
    (hrows : ∀ r ∈ rows, engines.read r = r) (h : onBatch engines kind t.columns dest rows = some dest') :
    ∀ s ∈ dest', engines.read s = s := by
  induction rows generalizing dest with
  | nil => exact Option.some.inj h ▸ hdest
  | cons r rows ih =>
    unfold onBatch at h ih
    rw [List.foldlM_cons] at h
    obtain ⟨mid, hmid, hrest⟩ := Option.bind_eq_some_iff.mp h
    exact ih (put_fixed hdest (hrows r List.mem_cons_self) hmid) (fun s hs => hrows s (List.mem_cons_of_mem r hs)) hrest

theorem exact_of_held {reader : Reader t batchSize} {maxRows fuel : ℕ}
    (h : copyTable engines kind reader maxRows fuel = .ok dest) (hheld : t.rows.Subperm dest) : Exact engines t := by
  have hfixed : ∀ s ∈ dest, engines.read s = s :=
    pagedRead_keeps (P := fun d : List (Record κ) => ∀ s ∈ d, engines.read s = s)
      (fun _ _ _ hd hrows hwritten => onBatch_fixed hd hrows hwritten) (fun s hs => absurd hs List.not_mem_nil) h
  exact fun r hr => hfixed r (hheld.subset hr)

theorem arrives_of_perm (hall : all.Perm t.rows) (hunmerged : Unmerged engines kind t) :
    onBatch engines kind t.columns [] all = some all :=
  onBatch_new (fun hne => (hall.map _).nodup_iff.mpr (t.key_unique hne))
    ((hall.filterMap _).nodup_iff.mpr hunmerged)

theorem unmerged_of_arrives (hall : all.length ≤ t.rows.length)
    (hwritten : onBatch engines kind t.columns [] all = some dest) (hdest : dest.Perm t.rows) :
    all.length = t.rows.length ∧ (all.filterMap (mergeKey engines kind t.columns)).Nodup := by
  have hle := onBatch_length_le hwritten
  have hlength := hdest.length_eq
  rw [List.length_nil] at hle
  refine ⟨by omega, onBatch_unmerged hwritten ?_ List.nodup_nil⟩
  rw [List.length_nil]
  omega

theorem copyTable_length_le (hexact : Exact engines t) {reader : Reader t batchSize} {maxRows fuel : ℕ}
    (h : copyTable engines kind reader maxRows fuel = .ok dest) : dest.length ≤ t.rows.length := by
  unfold copyTable at h
  cases hcol : pagingCol kind t.columns with
  | some c =>
    rw [hcol] at h
    obtain ⟨all, hcollect, hwritten⟩ := pagedRead_behind hexact h
    have hsub := collect_subperm (reader.behind_answers c) batchSize.2 hcollect
    rw [filter_above_none] at hsub
    have hle := onBatch_length_le hwritten
    exact hle.trans ((Nat.zero_add _).trans_le hsub.length_le)
  | none =>
    rw [hcol] at h
    obtain ⟨l, hl, hskip⟩ := reader.skipping_answers
    have hwritten := pagedRead_skipping hskip hexact h
    have hle := onBatch_length_le hwritten
    rw [List.length_nil, Nat.zero_add, List.drop_zero, hl.length_eq] at hle
    exact hle

theorem arrives_iff (engines : Engines κ) (hexact : Exact engines t) (kind : DestKind) (reader : Reader t batchSize)
    (maxRows fuel : ℕ) (hcap : t.rows.length < maxRows) (hfuel : t.rows.length < fuel) :
    (∃ dest, copyTable engines kind reader maxRows fuel = .ok dest ∧ dest.Perm t.rows) ↔
      (∀ c ∈ pagingCol kind t.columns,
        Uncut batchSize (sortedKeys (value t.columns c) reader.nullsFirst t.rows)) ∧
      Unmerged engines kind t := by
  unfold copyTable
  cases hcol : pagingCol kind t.columns with
  | some c =>
    have hanswers := reader.behind_answers c
    have hread := @collect_all_iff _ _ _ _ _ _ _ _ hanswers batchSize.2 fuel hfuel
    constructor
    · rintro ⟨dest, hcopy, hdest⟩
      obtain ⟨all, hcollect, hwritten⟩ := pagedRead_behind hexact hcopy
      have hsub := collect_subperm hanswers batchSize.2 hcollect
      rw [filter_above_none] at hsub
      obtain ⟨hlength, hnodup⟩ := unmerged_of_arrives hsub.length_le hwritten hdest
      have hall := hsub.perm_of_length_le (le_of_eq hlength.symm)
      refine ⟨fun c' hc' => ?_, (hall.filterMap _).nodup_iff.mp hnodup⟩
      cases hc'
      exact hread.mp ⟨all, hcollect, hall⟩
    · rintro ⟨huncut, hunmerged⟩
      obtain ⟨all, hcollect, hall⟩ := hread.mpr (huncut c rfl)
      refine ⟨all, pagedRead_collect hexact hcollect ?_ (arrives_of_perm hall hunmerged), hall⟩
      have hlength := hall.length_eq
      omega
  | none =>
    obtain ⟨l, hl, hskip⟩ := reader.skipping_answers
    have hlength := hl.length_eq
    constructor
    · rintro ⟨dest, hcopy, hdest⟩
      have hwritten := pagedRead_skipping hskip hexact hcopy
      rw [List.drop_zero] at hwritten
      obtain ⟨-, hnodup⟩ := unmerged_of_arrives (le_of_eq hlength) hwritten hdest
      exact ⟨nofun, (hl.filterMap _).nodup_iff.mp hnodup⟩
    · rintro ⟨-, hunmerged⟩
      refine ⟨l, pagedRead_offsets hskip hexact ?_ ?_ ?_, hl⟩
      · rw [List.drop_zero]
        omega
      · rw [List.drop_zero]
        omega
      · rw [List.drop_zero]
        exact arrives_of_perm hl hunmerged

theorem holds_iff (engines : Engines κ) (kind : DestKind) (reader : Reader t batchSize)
    (maxRows fuel : ℕ) (hcap : t.rows.length < maxRows) (hfuel : t.rows.length < fuel) :
    (∃ dest, copyTable engines kind reader maxRows fuel = .ok dest ∧ t.rows.Subperm dest) ↔
      Exact engines t ∧
      (∀ c ∈ pagingCol kind t.columns,
        Uncut batchSize (sortedKeys (value t.columns c) reader.nullsFirst t.rows)) ∧
      Unmerged engines kind t := by
  constructor
  · rintro ⟨dest, hcopy, hheld⟩
    have hexact := exact_of_held hcopy hheld
    refine ⟨hexact, (arrives_iff engines hexact kind reader maxRows fuel hcap hfuel).mp ⟨dest, hcopy, ?_⟩⟩
    exact (hheld.perm_of_length_le (copyTable_length_le hexact hcopy)).symm
  · rintro ⟨hexact, hcond⟩
    obtain ⟨dest, hcopy, hperm⟩ := (arrives_iff engines hexact kind reader maxRows fuel hcap hfuel).mpr hcond
    exact ⟨dest, hcopy, hperm.symm.subperm⟩

end Complete

/-- A source that keeps its rows in their order and puts NULLs last. -/
def sortedReader {κ : Type*} [LinearOrder κ] (t : SourceTable κ) (batchSize : ℕ+) :
    Reader t batchSize where
  nullsFirst := false
  behind c cursor := ((t.rows.filter (above (value t.columns c) cursor)).insertionSort fun a b =>
    ordered false (value t.columns c a) (value t.columns c b) = true).take batchSize
  skipping offset := (t.rows.drop offset).take batchSize
  behind_answers c := answers_sorted (value t.columns c) false batchSize t.rows
  skipping_answers := ⟨t.rows, List.Perm.refl _, fun _ => rfl⟩

def hardMaxRows : ℕ := 5000000

def orderLines : SourceTable ℕ where
  columns := [⟨"order_id", true⟩, ⟨"line", true⟩, ⟨"amount", false⟩]
  rows := [[some 1, some 1, some 5], [some 1, some 2, some 7], [some 1, some 3, none]]
  key_unique := by decide

def asIs : Engines ℕ := ⟨id, fun _ => rfl, fun v => v.elim "null" toString, fun _ v => v⟩

end DataFabric.FullCopies
