import DataFabric.CharText
import Mathlib.Data.List.Perm.Basic

set_option autoImplicit false

/-!
# The columns a copy is tracked by

Types and names are tested by patterns in either case; the first column of the first kind that occurs is chosen.
-/
namespace DataFabric.TrackingPlans
open CharText

structure ColumnMeta where
  name : String
  type : Option String
  primaryKey : Bool
  nullable : Bool
  deriving DecidableEq

structure Preferred where
  keyCol : Option String
  watermarkCol : Option String

inductive WatermarkKind | timestamp | sequence | none
  deriving DecidableEq

inductive Captures | insertsAndUpdates | inserts | none
  deriving DecidableEq

structure TrackingPlan where
  keyCol : Option String
  watermarkCol : Option String
  watermarkKind : WatermarkKind
  captures : Captures
  keyCandidates : List String
  watermarkCandidates : List String
  reason : String

def mentions (words : List String) (s : String) : Bool := words.any fun w => containsText w (asciiLower s)

def isTimestampType (t : Option String) : Bool := mentions ["timestamp", "datetime", "date", "time"] (t.getD "")

def isNumericType (t : Option String) : Bool :=
  mentions ["int", "serial", "number", "numeric", "decimal", "bigint", "long", "float", "double"] (t.getD "")

def lastWords : List String :=
  ["", "_", "-"].flatMap fun sep => ["update", "modified", "change", "seen"].map fun w => "last" ++ sep ++ w

def updateName (n : String) : Bool :=
  mentions (["updated", "modified", "changed", "mtime"] ++ lastWords ++ ["timestamp", "ts"]) n ||
    endsWith (asciiLower n) "_at"

def idName (n : String) : Bool :=
  asciiLower n = "id" || endsWith (asciiLower n) "_id" || asciiLower n = "pk" ||
    mentions ["seq", "sequence", "rowid", "version"] n

def createName (n : String) : Bool :=
  mentions ["created", "inserted", "added", "ctime"] n || endsWith (asciiLower n) "_date"

def byName (cols : List ColumnMeta) (n : Option String) : Option String :=
  n.filter fun n => n ≠ "" && cols.any (·.name = n)

def orElseName (a b : Option String) : Option String := (a.filter (· ≠ "")).or b

def isUpdateTs (c : ColumnMeta) : Bool := isTimestampType c.type && updateName c.name

def isCreateTs (c : ColumnMeta) : Bool := isTimestampType c.type && createName c.name

def isNumericId (c : ColumnMeta) : Bool := isNumericType c.type && (c.primaryKey || idName c.name)

structure Watermark where
  column : Option ColumnMeta
  kind : WatermarkKind
  captures : Captures
  reason : String

def chooseWatermark (cols : List ColumnMeta) (preferred : Preferred) : Watermark :=
  match byName cols preferred.watermarkCol with
  | some pref =>
    let column := cols.find? (·.name = pref)
    let stamped := isTimestampType (column.bind (·.type))
    ⟨column, if stamped then .timestamp else .sequence, if stamped then .insertsAndUpdates else .inserts,
      "using caller-specified watermark \"" ++ pref ++ "\""⟩
  | none =>
    match cols.find? isUpdateTs with
    | some c => ⟨some c, .timestamp, .insertsAndUpdates,
        "chose update-timestamp \"" ++ c.name ++ "\" → captures inserts AND updates"⟩
    | none =>
      match cols.find? isCreateTs with
      | some c => ⟨some c, .timestamp, .inserts, "no update-timestamp; chose creation-timestamp \"" ++ c.name ++
          "\" → captures inserts (updates need a FULL run)"⟩
      | none =>
        match cols.find? fun c => isTimestampType c.type with
        | some c => ⟨some c, .timestamp, .insertsAndUpdates,
            "chose timestamp \"" ++ c.name ++ "\" → assumed to advance on change"⟩
        | none =>
          match cols.find? isNumericId with
          | some c => ⟨some c, .sequence, .inserts, "no timestamp; chose auto-increment id \"" ++ c.name ++
              "\" → captures new inserts only (updates/deletes need a FULL run)"⟩
          | none => ⟨none, .none, .none,
              "no monotonic column found → this table can only be FULL-reloaded (no incremental tracking)"⟩

def analyzeTracking (cols : List ColumnMeta) (preferred : Preferred) : TrackingPlan :=
  let namesOf (p : ColumnMeta → Bool) := (cols.filter p).map (·.name)
  let pks := namesOf (·.primaryKey)
  let idNamed := namesOf fun c => idName c.name
  let watermark := chooseWatermark cols preferred
  { keyCol := orElseName (byName cols preferred.keyCol)
      (orElseName pks.head? (orElseName idNamed.head? (cols.head?.map (·.name))))
    watermarkCol := watermark.column.map (·.name)
    watermarkKind := watermark.kind
    captures := watermark.captures
    keyCandidates := (pks ++ idNamed).eraseDups
    watermarkCandidates :=
      (namesOf isUpdateTs ++ namesOf (fun c => isTimestampType c.type) ++ namesOf isNumericId).eraseDups
    reason := watermark.reason }

inductive Preference | update | creation | timestamp | sequence | other
  deriving DecidableEq

def createWord (n : String) : Bool := mentions ["created", "inserted", "added", "ctime"] n

def updateWord (n : String) : Bool := mentions (["updated", "modified", "changed", "mtime"] ++ lastWords) n

/-- A name that speaks of the creation of a row makes a creation timestamp; so does the ending `_date`, but in a name
that speaks of an update. -/
def creationStyle (n : String) : Bool := createWord n || endsWith (asciiLower n) "_date" && !updateWord n

def preference (c : ColumnMeta) : Preference :=
  if isTimestampType c.type then
    if creationStyle c.name then .creation else if updateName c.name then .update else .timestamp
  else if isNumericId c then .sequence
  else .other

/-- Updates raise a timestamp, unless it is that of the creation. -/
def raised (c : ColumnMeta) : Prop := isTimestampType c.type = true ∧ preference c ≠ .creation

section

variable (cols : List ColumnMeta) (preferred : Preferred)

/-- What is chosen, up to the column among equally preferred ones. -/
def choice : Option Preference × WatermarkKind × Captures :=
  let w := chooseWatermark cols preferred
  (w.column.map preference, w.kind, w.captures)

structure RightChoice : Prop where
  anyOrder : ∀ cols' : List ColumnMeta, cols'.Perm cols → choice cols' preferred = choice cols preferred
  prefersUpdates : byName cols preferred.watermarkCol = none → (∃ c ∈ cols, preference c = .update) →
    (chooseWatermark cols preferred).column.map preference = some .update
  declares : (chooseWatermark cols preferred).captures = .insertsAndUpdates →
    ∃ c, (chooseWatermark cols preferred).column = some c ∧ raised c
  sameColumn : ∀ cols' : List ColumnMeta, cols'.Perm cols → cols'.map preference = cols.map preference →
    (chooseWatermark cols' preferred).column.map (·.name) = (chooseWatermark cols preferred).column.map (·.name)

def best : Option Preference :=
  [.update, .creation, .timestamp, .sequence].find? fun p => cols.any fun c => preference c = p

/-- No creation timestamp has a name of `UPDATE_NAME`, and the columns preferred to the others have one name; where the
caller names a column, it is no creation timestamp. -/
def HoldsWhen : Prop :=
  match byName cols preferred.watermarkCol with
  | some pref => ∀ c ∈ cols, c.name = pref → preference c ≠ .creation ∧
      ∀ d ∈ cols, d.name = pref → preference d = preference c
  | none => (∀ c ∈ cols, preference c = .creation → updateName c.name = false) ∧
      ∀ p, best cols = some p → ∀ c ∈ cols, ∀ d ∈ cols, preference c = p → preference d = p → c.name = d.name

end

section

variable {cols cols' : List ColumnMeta} {preferred : Preferred} {c : ColumnMeta}

theorem byName_perm (hperm : cols'.Perm cols) (n : Option String) : byName cols' n = byName cols n := by
  have hany : ∀ n : String, cols'.any (·.name = n) = cols.any (·.name = n) := fun n => hperm.any_eq
  unfold byName
  simp only [hany]

theorem find_perm (hperm : cols'.Perm cols) (p : ColumnMeta → Bool) :
    cols'.find? p = none ∧ cols.find? p = none ∨
      ∃ c ∈ cols, ∃ c' ∈ cols, p c = true ∧ p c' = true ∧ cols'.find? p = some c' ∧ cols.find? p = some c := by
  cases hfind : cols.find? p with
  | none =>
    refine .inl ⟨List.find?_eq_none.mpr fun x hx => ?_, rfl⟩
    exact List.find?_eq_none.mp hfind x (hperm.subset hx)
  | some c =>
    have hmem := List.mem_of_find?_eq_some hfind
    have hpass := List.find?_some hfind
    obtain ⟨c', hc'⟩ := Option.isSome_iff_exists.mp
      (List.find?_isSome.mpr ⟨c, hperm.mem_iff.mpr hmem, hpass⟩ : (cols'.find? p).isSome = true)
    exact .inr ⟨c, hmem, c', hperm.subset (List.mem_of_find?_eq_some hc'), hpass, List.find?_some hc', hc', rfl⟩

theorem find_pass {p : ColumnMeta → Bool} (h : cols.find? p = some c) : c ∈ cols ∧ p c = true :=
  ⟨List.mem_of_find?_eq_some h, List.find?_some h⟩

theorem createName_of_style (h : creationStyle c.name = true) : createName c.name = true := by
  unfold creationStyle at h
  unfold createName
  rcases Bool.or_eq_true_iff.mp h with hword | hdate
  · exact Bool.or_eq_true_iff.mpr (.inl hword)
  · exact Bool.or_eq_true_iff.mpr (.inr (Bool.and_eq_true_iff.mp hdate).1)

theorem updateName_of_word (h : updateWord c.name = true) : updateName c.name = true := by
  unfold updateWord mentions at h
  unfold updateName mentions
  obtain ⟨w, hw, hmentions⟩ := List.any_eq_true.mp h
  exact Bool.or_eq_true_iff.mpr (.inl (List.any_eq_true.mpr ⟨w, List.mem_append_left _ hw, hmentions⟩))

theorem style_of_createName (hcreate : createName c.name = true) (hupdate : updateName c.name = false) :
    creationStyle c.name = true := by
  have hword : updateWord c.name = false := Bool.eq_false_iff.mpr fun h => by
    rw [updateName_of_word h] at hupdate
    cases hupdate
  unfold creationStyle
  rw [hword, Bool.not_false, Bool.and_true]
  exact hcreate

theorem preference_creation_iff : preference c = .creation ↔ isTimestampType c.type = true ∧ creationStyle c.name = true := by
  unfold preference
  split_ifs with hts hstyle hupdate hid <;> simp_all

theorem preference_update_iff : preference c = .update ↔
    isTimestampType c.type = true ∧ creationStyle c.name = false ∧ updateName c.name = true := by
  unfold preference
  split_ifs with hts hstyle hupdate hid <;> simp_all

theorem preference_creation (h : isCreateTs c = true) (hupdate : isUpdateTs c = false) : preference c = .creation := by
  obtain ⟨hts, hname⟩ := Bool.and_eq_true_iff.mp h
  unfold isUpdateTs at hupdate
  rw [hts, Bool.true_and] at hupdate
  exact preference_creation_iff.mpr ⟨hts, style_of_createName hname hupdate⟩

theorem preference_timestamp (hts : isTimestampType c.type = true) (hupdate : isUpdateTs c = false)
    (hcreate : isCreateTs c = false) : preference c = .timestamp := by
  unfold isUpdateTs at hupdate
  unfold isCreateTs at hcreate
  rw [hts, Bool.true_and] at hupdate hcreate
  have hstyle : creationStyle c.name = false := Bool.eq_false_iff.mpr fun h => by
    rw [createName_of_style h] at hcreate
    cases hcreate
  rw [preference, if_pos hts, hstyle, hupdate, if_neg Bool.false_ne_true, if_neg Bool.false_ne_true]

theorem preference_sequence (hts : isTimestampType c.type = false) (h : isNumericId c = true) :
    preference c = .sequence := by
  rw [preference, hts, if_neg Bool.false_ne_true, if_pos h]

theorem update_of_preference (h : preference c = .update) : isUpdateTs c = true := by
  obtain ⟨hts, _, hname⟩ := preference_update_iff.mp h
  exact Bool.and_eq_true_iff.mpr ⟨hts, hname⟩

def Plain (cols : List ColumnMeta) : Prop := ∀ c ∈ cols, preference c = .creation → updateName c.name = false

theorem plain_update (h : Plain cols) (hc : c ∈ cols) (hupdate : isUpdateTs c = true) : preference c = .update := by
  obtain ⟨hts, hname⟩ := Bool.and_eq_true_iff.mp hupdate
  refine preference_update_iff.mpr ⟨hts, Bool.eq_false_iff.mpr fun hstyle => ?_, hname⟩
  have hnot := h c hc (preference_creation_iff.mpr ⟨hts, hstyle⟩)
  rw [hname] at hnot
  cases hnot

/-- On plain columns the first of the most preferred ones is chosen. -/
theorem column_eq (h : Plain cols) (hnone : byName cols preferred.watermarkCol = none) :
    (chooseWatermark cols preferred).column = (best cols).bind fun p => cols.find? fun c => preference c = p := by
  have hfind (p q : ColumnMeta → Bool) (hpq : ∀ c ∈ cols, p c = q c) : cols.find? p = cols.find? q := by
    rw [← List.head?_filter, ← List.head?_filter, List.filter_congr hpq]
  have hany (p : Preference) : cols.any (fun c => preference c = p) = (cols.find? fun c => preference c = p).isSome := by
    rw [Bool.eq_iff_iff, List.any_eq_true, List.find?_isSome]
  have hupdate : cols.find? isUpdateTs = cols.find? fun c => preference c = .update := by
    refine hfind _ _ fun c hc => ?_
    rw [Bool.eq_iff_iff, decide_eq_true_eq]
    exact ⟨plain_update h hc, update_of_preference⟩
  unfold chooseWatermark best
  rw [hnone]
  dsimp only
  rw [hupdate, List.find?_cons, hany]
  cases hu : cols.find? fun c => preference c = .update with
  | some c => simp [hu]
  | none =>
    have hno : ∀ c ∈ cols, isUpdateTs c = false := fun c hc =>
      Bool.eq_false_iff.mpr fun hup => List.find?_eq_none.mp hu c hc (decide_eq_true (plain_update h hc hup))
    have hcreate : cols.find? isCreateTs = cols.find? fun c => preference c = .creation := by
      refine hfind _ _ fun c hc => ?_
      rw [Bool.eq_iff_iff, decide_eq_true_eq]
      refine ⟨fun hi => preference_creation hi (hno c hc), fun hp => ?_⟩
      obtain ⟨hts, hstyle⟩ := preference_creation_iff.mp hp
      exact Bool.and_eq_true_iff.mpr ⟨hts, createName_of_style hstyle⟩
    dsimp only [Option.isSome_none]
    rw [hcreate, List.find?_cons, hany]
    cases hi : cols.find? fun c => preference c = .creation with
    | some c => simp [hi]
    | none =>
      have hstamp : (cols.find? fun c => isTimestampType c.type) = cols.find? fun c => preference c = .timestamp := by
        refine hfind _ _ fun c hc => ?_
        rw [Bool.eq_iff_iff, decide_eq_true_eq]
        constructor
        · intro hts
          refine preference_timestamp hts (hno c hc) (Bool.eq_false_iff.mpr fun hcr => ?_)
          exact List.find?_eq_none.mp hi c hc (decide_eq_true (preference_creation hcr (hno c hc)))
        · intro hp
          unfold preference at hp
          split_ifs at hp with hts
          exact hts
      dsimp only [Option.isSome_none]
      rw [hstamp, List.find?_cons, hany]
      cases ht : cols.find? fun c => preference c = .timestamp with
      | some c => simp [ht]
      | none =>
        have hno : ∀ c ∈ cols, isTimestampType c.type = false := fun c hc => by
          rw [ht] at hstamp
          exact Bool.eq_false_iff.mpr (List.find?_eq_none.mp hstamp c hc)
        have hsequence : cols.find? isNumericId = cols.find? fun c => preference c = .sequence := by
          refine hfind _ _ fun c hc => ?_
          rw [Bool.eq_iff_iff, decide_eq_true_eq]
          refine ⟨preference_sequence (hno c hc), fun hp => ?_⟩
          unfold preference at hp
          rw [hno c hc, if_neg Bool.false_ne_true] at hp
          split_ifs at hp with hid
          exact hid
        dsimp only [Option.isSome_none]
        rw [hsequence, List.find?_cons, hany]
        cases hs : cols.find? fun c => preference c = .sequence with
        | some c => simp [hs]
        | none => rfl

theorem best_perm (hperm : cols'.Perm cols) : best cols' = best cols := by
  unfold best
  congr 1
  funext p
  exact hperm.any_eq

theorem sameColumn_iff (h : Plain cols) (hnone : byName cols preferred.watermarkCol = none) :
    (∀ cols' : List ColumnMeta, cols'.Perm cols → cols'.map preference = cols.map preference →
      (chooseWatermark cols' preferred).column.map (·.name) = (chooseWatermark cols preferred).column.map (·.name)) ↔
    ∀ p, best cols = some p → ∀ c ∈ cols, ∀ d ∈ cols, preference c = p → preference d = p → c.name = d.name := by
  have hcolumn (cols' : List ColumnMeta) (hperm : cols'.Perm cols) : (chooseWatermark cols' preferred).column =
      (best cols).bind fun p => cols'.find? fun c => preference c = p := by
    rw [column_eq (fun c hc => h c (hperm.subset hc)) ((byName_perm hperm _).trans hnone), best_perm hperm]
  constructor
  · intro hsame p hbest
    -- the first column of the class changes places with any other
    have hfirst : ∀ d ∈ cols, preference d = p → ∀ w, cols.find? (preference · = p) = some w → d.name = w.name := by
      intro d hd hclass w hw
      obtain ⟨hpass, before, after, hsplit, hbefore⟩ := List.find?_eq_some_iff_append.mp hw
      have hnot : d ∉ before := fun hmem => by
        have hfail := hbefore d hmem
        rw [hclass] at hfail
        simp at hfail
      rw [hsplit] at hd
      rcases List.mem_cons.mp ((List.mem_append.mp hd).resolve_left hnot) with rfl | hafter
      · rfl
      · obtain ⟨mid, rest, rfl⟩ := List.append_of_mem hafter
        have hperm : (before ++ d :: (mid ++ w :: rest)).Perm cols := by
          rw [hsplit]
          refine List.Perm.append_left before ?_
          refine (List.Perm.cons d List.perm_middle).trans ?_
          exact (List.Perm.swap w d _).trans (List.Perm.cons w List.perm_middle.symm)
        have hclasses : (before ++ d :: (mid ++ w :: rest)).map preference = cols.map preference := by
          rw [hsplit]
          simp [hclass, of_decide_eq_true hpass]
        have hmoved := hsame _ hperm hclasses
        have hfound : (before ++ d :: (mid ++ w :: rest)).find? (fun c => preference c = p) = some d :=
          List.find?_eq_some_iff_append.mpr ⟨decide_eq_true hclass, before, _, rfl, hbefore⟩
        rw [hcolumn _ hperm, hcolumn _ (List.Perm.refl _), hbest, Option.bind_some, Option.bind_some, hfound, hw] at hmoved
        exact Option.some.inj hmoved
    intro c hc d hd hpc hpd
    obtain ⟨w, hw⟩ := Option.isSome_iff_exists.mp
      (List.find?_isSome.mpr ⟨c, hc, decide_eq_true hpc⟩ : (cols.find? (preference · = p)).isSome = true)
    exact (hfirst c hc hpc w hw).trans (hfirst d hd hpd w hw).symm
  · intro hsingle cols' hperm _
    rw [hcolumn _ hperm, hcolumn _ (List.Perm.refl _)]
    cases hbest : best cols with
    | none => rfl
    | some p =>
      rw [Option.bind_some, Option.bind_some]
      rcases find_perm hperm (preference · = p) with ⟨hf', hf⟩ | ⟨c, hc, c', hc', hp, hp', hf', hf⟩
      · rw [hf', hf]
      · rw [hf', hf]
        exact congrArg some (hsingle p hbest c' hc' c hc (of_decide_eq_true hp') (of_decide_eq_true hp))

theorem choice_perm (h : Plain cols) (hnone : byName cols preferred.watermarkCol = none) (hperm : cols'.Perm cols) :
    choice cols' preferred = choice cols preferred := by
  unfold choice chooseWatermark
  rw [byName_perm hperm, hnone]
  dsimp only
  rcases find_perm hperm isUpdateTs with ⟨hu', hu⟩ | ⟨c, hc, c', hc', hp, hp', hu', hu⟩
  · rw [hu', hu]
    dsimp only
    rcases find_perm hperm isCreateTs with ⟨hi', hi⟩ | ⟨c, hc, c', hc', hp, hp', hi', hi⟩
    · rw [hi', hi]
      dsimp only
      have hplain : ∀ c ∈ cols, isTimestampType c.type = true → preference c = .timestamp := fun c hc hts =>
        preference_timestamp hts (Bool.eq_false_iff.mpr (List.find?_eq_none.mp hu c hc))
          (Bool.eq_false_iff.mpr (List.find?_eq_none.mp hi c hc))
      rcases find_perm hperm fun c => isTimestampType c.type with ⟨ht', ht⟩ | ⟨c, hc, c', hc', hp, hp', ht', ht⟩
      · rw [ht', ht]
        dsimp only
        have hno : ∀ c ∈ cols, isTimestampType c.type = false := fun c hc =>
          Bool.eq_false_iff.mpr (List.find?_eq_none.mp ht c hc)
        rcases find_perm hperm isNumericId with ⟨hs', hs⟩ | ⟨c, hc, c', hc', hp, hp', hs', hs⟩
        · rw [hs', hs]
        · rw [hs', hs]
          dsimp only [Option.map_some]
          rw [preference_sequence (hno c hc) hp, preference_sequence (hno c' hc') hp']
      · rw [ht', ht]
        dsimp only [Option.map_some]
        rw [hplain c hc hp, hplain c' hc' hp']
    · rw [hi', hi]
      have hno : ∀ c ∈ cols, isUpdateTs c = false := fun c hc => Bool.eq_false_iff.mpr (List.find?_eq_none.mp hu c hc)
      dsimp only [Option.map_some]
      rw [preference_creation hp (hno c hc), preference_creation hp' (hno c' hc')]
  · rw [hu', hu]
    dsimp only [Option.map_some]
    rw [plain_update h hc hp, plain_update h hc' hp']

theorem prefersUpdates_plain (h : Plain cols) (hnone : byName cols preferred.watermarkCol = none)
    (hsome : ∃ c ∈ cols, preference c = .update) :
    (chooseWatermark cols preferred).column.map preference = some .update := by
  obtain ⟨c, hc, hupdate⟩ := hsome
  obtain ⟨u, hu⟩ := Option.isSome_iff_exists.mp
    (List.find?_isSome.mpr ⟨c, hc, update_of_preference hupdate⟩ : (cols.find? isUpdateTs).isSome = true)
  unfold chooseWatermark
  rw [hnone, hu]
  exact congrArg some (plain_update h (List.mem_of_find?_eq_some hu) (List.find?_some hu))

theorem declares_plain (h : Plain cols) (hnone : byName cols preferred.watermarkCol = none)
    (hcaptures : (chooseWatermark cols preferred).captures = .insertsAndUpdates) :
    ∃ c, (chooseWatermark cols preferred).column = some c ∧ raised c := by
  unfold chooseWatermark at hcaptures ⊢
  rw [hnone] at hcaptures ⊢
  dsimp only at hcaptures ⊢
  cases hu : cols.find? isUpdateTs with
  | some c =>
    have hp := List.find?_some hu
    refine ⟨c, rfl, (Bool.and_eq_true_iff.mp hp).1, ?_⟩
    rw [plain_update h (List.mem_of_find?_eq_some hu) hp]
    exact Preference.noConfusion
  | none =>
    rw [hu] at hcaptures
    dsimp only at hcaptures ⊢
    cases hi : cols.find? isCreateTs with
    | some c =>
      rw [hi] at hcaptures
      cases hcaptures
    | none =>
      rw [hi] at hcaptures
      dsimp only at hcaptures ⊢
      cases ht : cols.find? fun c => isTimestampType c.type with
      | some c =>
        have hc := List.mem_of_find?_eq_some ht
        have hts := (find_pass ht).2
        refine ⟨c, rfl, hts, ?_⟩
        rw [preference_timestamp hts (Bool.eq_false_iff.mpr (List.find?_eq_none.mp hu c hc))
          (Bool.eq_false_iff.mpr (List.find?_eq_none.mp hi c hc))]
        exact Preference.noConfusion
      | none =>
        rw [ht] at hcaptures
        dsimp only at hcaptures
        cases hs : cols.find? isNumericId <;> rw [hs] at hcaptures <;> cases hcaptures

theorem find_first (hc : c ∈ cols) {p : ColumnMeta → Bool} (hp : p c = true) :
    (c :: cols.erase c).Perm cols ∧ (c :: cols.erase c).find? p = some c :=
  ⟨(List.perm_cons_erase hc).symm, List.find?_cons_of_pos hp⟩

theorem plain_of_right (h : RightChoice cols preferred) (hnone : byName cols preferred.watermarkCol = none) :
    Plain cols := by
  intro c hc hcreation
  rw [Bool.eq_false_iff]
  intro hupdate
  have hts := (preference_creation_iff.mp hcreation).1
  have hp : isUpdateTs c = true := Bool.and_eq_true_iff.mpr ⟨hts, hupdate⟩
  obtain ⟨hperm, hfirst⟩ := find_first hc hp
  have hchoice := h.anyOrder _ hperm
  unfold choice at hchoice
  have hfront : chooseWatermark (c :: cols.erase c) preferred = ⟨some c, .timestamp, .insertsAndUpdates,
      "chose update-timestamp \"" ++ c.name ++ "\" → captures inserts AND updates"⟩ := by
    unfold chooseWatermark
    rw [byName_perm hperm, hnone, hfirst]
  rw [hfront] at hchoice
  obtain ⟨hpref, hrest⟩ := Prod.mk.inj hchoice
  obtain ⟨d, hd, hraised⟩ := h.declares (Prod.mk.inj hrest).2.symm
  rw [hd, Option.map_some, Option.map_some, hcreation] at hpref
  exact hraised.2 (Option.some.inj hpref).symm

theorem timestamp_preference (c : ColumnMeta) : isTimestampType c.type =
    decide (preference c = .update ∨ preference c = .creation ∨ preference c = .timestamp) := by
  unfold preference
  by_cases hts : isTimestampType c.type = true
  · rw [if_pos hts, hts]
    split
    · rfl
    · split <;> rfl
  · rw [if_neg hts, Bool.eq_false_iff.mpr hts]
    split <;> rfl

theorem named_column {pref : String} (hpref : byName cols preferred.watermarkCol = some pref) :
    ∃ c ∈ cols, c.name = pref := by
  obtain ⟨-, hpass⟩ := Option.filter_eq_some_iff.mp hpref
  obtain ⟨c, hc, hname⟩ := List.any_eq_true.mp (Bool.and_eq_true_iff.mp hpass).2
  exact ⟨c, hc, of_decide_eq_true hname⟩

theorem choose_named {pref : String} (hpref : byName cols preferred.watermarkCol = some pref)
    (hfind : cols.find? (·.name = pref) = some c) : choice cols preferred =
      (some (preference c), if isTimestampType c.type then .timestamp else .sequence,
        if isTimestampType c.type then .insertsAndUpdates else .inserts) := by
  unfold choice chooseWatermark
  rw [hpref]
  dsimp only
  rw [hfind]
  rfl

theorem right_of_named {pref : String} (hpref : byName cols preferred.watermarkCol = some pref)
    (h : ∀ c ∈ cols, c.name = pref → preference c ≠ .creation ∧ ∀ d ∈ cols, d.name = pref → preference d = preference c) :
    RightChoice cols preferred := by
  constructor
  · intro cols' hperm
    rcases find_perm hperm (·.name = pref) with ⟨-, hnone⟩ | ⟨c, hc, c', hc', hp, hp', hfind', hfind⟩
    · obtain ⟨c, hc, hname⟩ := named_column hpref
      exact absurd (decide_eq_true hname) (List.find?_eq_none.mp hnone c hc)
    · have hsame := (h c hc (of_decide_eq_true hp)).2 c' hc' (of_decide_eq_true hp')
      rw [choose_named hpref hfind, choose_named ((byName_perm hperm _).trans hpref) hfind', timestamp_preference c,
        timestamp_preference c', hsame]
  · intro hnone
    rw [hpref] at hnone
    cases hnone
  · intro hcaptures
    obtain ⟨c, hc, hname⟩ := named_column hpref
    obtain ⟨d, hfind⟩ := Option.isSome_iff_exists.mp
      (List.find?_isSome.mpr ⟨c, hc, decide_eq_true hname⟩ : (cols.find? (·.name = pref)).isSome = true)
    have hchoice := choose_named hpref hfind
    rw [choice, Prod.mk.injEq, Prod.mk.injEq] at hchoice
    have hinserts := hchoice.2.2
    have hcolumn : (chooseWatermark cols preferred).column = some d := by
      unfold chooseWatermark
      rw [hpref]
      exact hfind
    obtain ⟨hd, hnamed⟩ := find_pass hfind
    have hother : preference d ≠ .creation := (h d hd (of_decide_eq_true hnamed)).1
    have hts : isTimestampType d.type = true := by
      by_contra hts
      rw [if_neg hts, hcaptures] at hinserts
      cases hinserts
    exact ⟨d, hcolumn, hts, hother⟩
  · intro cols' hperm _
    have hname (cols' : List ColumnMeta) (hpref : byName cols' preferred.watermarkCol = some pref) :
        (chooseWatermark cols' preferred).column.map (·.name) = some pref := by
      obtain ⟨c, hc, hname⟩ := named_column hpref
      obtain ⟨d, hfind⟩ := Option.isSome_iff_exists.mp
        (List.find?_isSome.mpr ⟨c, hc, decide_eq_true hname⟩ : (cols'.find? (·.name = pref)).isSome = true)
      unfold chooseWatermark
      rw [hpref]
      dsimp only
      rw [hfind]
      exact congrArg some (of_decide_eq_true (find_pass hfind).2)
    rw [hname cols' ((byName_perm hperm _).trans hpref), hname cols hpref]

theorem named_of_right (h : RightChoice cols preferred) {pref : String}
    (hpref : byName cols preferred.watermarkCol = some pref) (hc : c ∈ cols) (hname : c.name = pref) :
    preference c ≠ .creation ∧ (choice cols preferred).1 = some (preference c) := by
  obtain ⟨hperm, hfirst⟩ := find_first hc (p := (·.name = pref)) (decide_eq_true hname)
  have hchoice := h.anyOrder _ hperm
  rw [choose_named ((byName_perm hperm _).trans hpref) hfirst] at hchoice
  refine ⟨fun hcreation => ?_, (congrArg Prod.fst hchoice).symm⟩
  have hts : isTimestampType c.type = true := by rw [timestamp_preference, hcreation]; rfl
  rw [if_pos hts, if_pos hts, hcreation] at hchoice
  obtain ⟨hpreference, hrest⟩ := Prod.mk.inj hchoice
  obtain ⟨d, hd, hraised⟩ := h.declares (Prod.mk.inj hrest).2.symm
  rw [hd] at hpreference
  exact hraised.2 (Option.some.inj hpreference).symm

end

/-- The choice is right in every order of the columns if and only if no creation timestamp passes for an update
timestamp and the most preferred columns have one name, or the caller names a column that is no creation timestamp. -/
theorem rightChoice_iff (cols : List ColumnMeta) (preferred : Preferred) :
    RightChoice cols preferred ↔ HoldsWhen cols preferred := by
  unfold HoldsWhen
  cases hpref : byName cols preferred.watermarkCol with
  | none =>
    constructor
    · intro h
      have hplain := plain_of_right h hpref
      exact ⟨hplain, (sameColumn_iff hplain hpref).mp h.sameColumn⟩
    · intro ⟨hplain, hsingle⟩
      exact ⟨fun cols' hperm => choice_perm hplain hpref hperm, fun hnone => prefersUpdates_plain hplain hnone,
        declares_plain hplain hpref, (sameColumn_iff hplain hpref).mpr hsingle⟩
  | some pref =>
    refine ⟨fun h c hc hname => ?_, right_of_named hpref⟩
    obtain ⟨hcreation, hsame⟩ := named_of_right h hpref hc hname
    exact ⟨hcreation, fun d hd hd' => Option.some.inj ((named_of_right h hpref hd hd').2.symm.trans hsame)⟩

def stamp (name : String) : ColumnMeta := ⟨name, some "timestamp", false, true⟩

/-- `created_at` ends like an update timestamp and is taken for one. -/
theorem creation_taken : ¬ ∀ (cols : List ColumnMeta) (preferred : Preferred), RightChoice cols preferred := by
  intro h
  have hupdate := (h [stamp "created_at", stamp "updated_at"] ⟨none, none⟩).prefersUpdates rfl
    ⟨stamp "updated_at", by decide +kernel, by decide +kernel⟩
  exact absurd hupdate (by decide +kernel)

end DataFabric.TrackingPlans
