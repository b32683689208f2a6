import DataFabric.CdcDrains
import DataFabric.KeysetPages

set_option autoImplicit false

/-!
# A copy that follows its source through a change log

Key by key, either the log holds a change above the position the copy has reached, or the copy has
what the source has.
-/
namespace DataFabric.SyncedTables

open NumberedLogs ReplicaTables CdcCapture KeysetPages

variable {κ ν : Type*}

def AgreeAt (k : κ) (dest source : List (Row κ ν)) : Prop :=
  ∀ x : Row κ ν, x.lead = k → (x ∈ dest ↔ x ∈ source)

def Flat (rows : List (Row κ ν)) : Prop := Keyed rows ∧ ∀ s ∈ rows, s.others = []

def Sound (c : ChangeRow κ ν) : Prop := c.doc.lead = c.pk ∧ c.doc.others = []

/-- The change decides what is at its key and touches nothing else. -/
def Effect (c : ChangeRow κ ν) (rows rows' : List (Row κ ν)) : Prop :=
  ∀ x, x ∈ rows' ↔ x ∈ rows ∧ x.lead ≠ c.pk ∨ c.op ≠ .D ∧ x = c.doc

theorem agreeAt_of_effect {c : ChangeRow κ ν} {rows rows' : List (Row κ ν)} (hsound : Sound c)
    (h : Effect c rows rows') {k : κ} (hk : k ≠ c.pk) : AgreeAt k rows' rows := by
  intro x hx
  rw [h x]
  constructor
  · rintro (⟨hmem, -⟩ | ⟨-, rfl⟩)
    · exact hmem
    · exact absurd (hx.symm.trans hsound.1) hk
  · exact fun hmem => .inl ⟨hmem, hx ▸ hk⟩

theorem mem_at_effect {c : ChangeRow κ ν} {rows rows' : List (Row κ ν)} (h : Effect c rows rows')
    {x : Row κ ν} (hx : x.lead = c.pk) : x ∈ rows' ↔ c.op ≠ .D ∧ x = c.doc := by
  rw [h x]
  constructor
  · rintro (⟨-, hne⟩ | hdoc)
    · exact absurd hx hne
    · exact hdoc
  · exact .inr

theorem agreeAt_trans {k : κ} {a b c : List (Row κ ν)} (hab : AgreeAt k a b) (hbc : AgreeAt k b c) :
    AgreeAt k a c := fun x hx => (hab x hx).trans (hbc x hx)

theorem perm_of_agree {dest source : List (Row κ ν)} (hdest : Keyed dest) (hsource : Keyed source)
    (h : ∀ k, AgreeAt k dest source) : dest.Perm source :=
  (List.perm_ext_iff_of_nodup hdest.of_map hsource.of_map).mpr fun x => h x.lead x rfl

theorem flat_of_width {t : TableInfo} {rows : List (Row κ ν)} (ht : t.width = 0)
    (hwidth : ∀ r ∈ rows, r.others.length = t.width)
    (hnodup : (rows.map fun r => (r.lead, r.others)).Nodup) : Flat rows := by
  have hothers : ∀ r ∈ rows, r.others = [] := fun r hr =>
    List.length_eq_zero_iff.mp ((hwidth r hr).trans ht)
  refine ⟨?_, hothers⟩
  have hsame : rows.map (fun r => (r.lead, r.others)) =
      (rows.map Row.lead).map fun k => (k, ([] : List κ)) := by
    rw [List.map_map]
    refine List.map_congr_left fun r hr => ?_
    rw [hothers r hr]
    rfl
  rw [hsame] at hnodup
  exact hnodup.of_map

section Apply

variable [DecidableEq κ] {t : TableInfo} {kind : DestKind} {rows : List (Row κ ν)}

theorem effect_apply {c : ChangeRow κ ν} (hplain : Plain kind t) (hflat : Flat rows)
    (hsound : Sound c) : ∃ rows', applyChange kind t rows c = some rows' ∧ Effect c rows rows' ∧
      Flat rows' := by
  unfold applyChange
  by_cases hop : c.op = .D
  · rw [if_pos hop, del_plain hplain]
    refine ⟨_, rfl, fun x => ?_, keyed_filter hflat.1 _,
      fun s hs => hflat.2 s (List.mem_of_mem_filter hs)⟩
    rw [List.mem_filter]
    simp [hop]
  · rw [if_neg hop, upsert_plain hplain hflat.1 fun s hs => (hflat.2 s hs).trans hsound.2.symm]
    refine ⟨_, rfl, fun x => ?_, keyed_putRow hflat.1, fun s hs => ?_⟩
    · rw [mem_upsert_lead, hsound.1]
      simp [hop, or_comm]
    · rcases mem_upsert_lead.mp hs with rfl | ⟨hs, -⟩
      · exact hsound.2
      · exact hflat.2 s hs

def upsertAll (kind : DestKind) (t : TableInfo) (rows page : List (Row κ ν)) :
    Option (List (Row κ ν)) := page.foldlM (upsert kind t) rows

theorem upsertAll_plain (hplain : Plain kind t) {page : List (Row κ ν)} (hflat : Flat rows)
    (hpage : Flat page) (hnew : ∀ x ∈ page, ∀ y ∈ rows, y.lead ≠ x.lead) :
    ∃ rows', upsertAll kind t rows page = some rows' ∧ Flat rows' ∧
      ∀ x, x ∈ rows' ↔ x ∈ rows ∨ x ∈ page := by
  induction page generalizing rows with
  | nil => exact ⟨rows, rfl, hflat, fun x => by simp⟩
  | cons r page ih =>
    obtain ⟨hkeyed, hothers⟩ := hpage
    unfold Keyed at hkeyed
    rw [List.map_cons, List.nodup_cons] at hkeyed
    have hrothers := hothers r List.mem_cons_self
    have hput := @upsert_plain _ _ _ kind t rows r hplain hflat.1 fun s hs => (hflat.2 s hs).trans hrothers.symm
    have hmem : ∀ x, x ∈ putRow (sameLead r) rows r ↔ x ∈ rows ∨ x = r := by
      intro x
      rw [mem_upsert_lead]
      constructor
      · rintro (rfl | ⟨hx, -⟩)
        · exact .inr rfl
        · exact .inl hx
      · rintro (hx | rfl)
        · exact .inr ⟨hx, hnew r List.mem_cons_self x hx⟩
        · exact .inl rfl
    have hflat' : Flat (putRow (sameLead r) rows r) := by
      refine ⟨keyed_putRow hflat.1, fun s hs => ?_⟩
      rcases (hmem s).mp hs with hs | rfl
      · exact hflat.2 s hs
      · exact hrothers
    obtain ⟨rows', hrows, hflat'', hall⟩ := ih hflat'
      ⟨hkeyed.2, fun s hs => hothers s (List.mem_cons_of_mem r hs)⟩ (fun x hx y hy => by
        rcases (hmem y).mp hy with hy | rfl
        · exact hnew x (List.mem_cons_of_mem r hx) y hy
        · exact fun heq => hkeyed.1 (List.mem_map.mpr ⟨x, hx, heq.symm⟩))
    refine ⟨rows', ?_, hflat'', fun x => ?_⟩
    · unfold upsertAll
      rw [List.foldlM_cons, hput]
      exact hrows
    · rw [hall x, hmem x, List.mem_cons, or_assoc]

/-- `INSERT` of a page into a new table, which has the source's primary key. -/
def bulkInsert (rows page : List (Row κ ν)) : Option (List (Row κ ν)) :=
  if page.any fun r => rows.any (samePk r) then none else some (rows ++ page)

theorem bulkInsert_plain {page : List (Row κ ν)} (hflat : Flat rows) (hpage : Flat page)
    (hnew : ∀ x ∈ page, ∀ y ∈ rows, y.lead ≠ x.lead) :
    bulkInsert rows page = some (rows ++ page) ∧ Flat (rows ++ page) := by
  have hnone : ¬ (page.any fun r => rows.any (samePk r)) = true := by
    intro hany
    obtain ⟨x, hx, hy⟩ := List.any_eq_true.mp hany
    obtain ⟨y, hy, hsame⟩ := List.any_eq_true.mp hy
    simp only [samePk, Bool.and_eq_true, beq_iff_eq] at hsame
    exact hnew x hx y hy hsame.1
  refine ⟨if_neg hnone, ?_, fun s hs => ?_⟩
  · unfold Keyed
    rw [List.map_append]
    refine List.nodup_append.mpr ⟨hflat.1, hpage.1, ?_⟩
    intro k hk l hl heq
    obtain ⟨y, hy, rfl⟩ := List.mem_map.mp hk
    obtain ⟨x, hx, rfl⟩ := List.mem_map.mp hl
    exact hnew x hx y hy heq
  · rcases List.mem_append.mp hs with hs | hs
    · exact hflat.2 s hs
    · exact hpage.2 s hs

end Apply

section Effects

variable [DecidableEq κ] [DecidableEq ν] {t : TableInfo} {rows rows' : List (Row κ ν)}

theorem sound_captured {w : Write κ ν} (ht : t.width = 0) (hflat : Flat rows)
    (h : applyWrite t rows w = some rows') : Sound (captured w) := by
  cases w with
  | insert row =>
    simp only [applyWrite, Option.ite_none_right_eq_some] at h
    exact ⟨rfl, List.length_eq_zero_iff.mp (h.1.1.trans ht)⟩
  | update old new =>
    simp only [applyWrite, Option.ite_none_right_eq_some] at h
    exact ⟨rfl, List.length_eq_zero_iff.mp (h.1.1.trans ht)⟩
  | delete old =>
    simp only [applyWrite, Option.ite_none_right_eq_some] at h
    exact ⟨rfl, hflat.2 old h.1⟩

theorem flat_write {w : Write κ ν} (ht : t.width = 0) (hflat : Flat rows)
    (h : applyWrite t rows w = some rows') : Flat rows' := by
  have hothers : ∀ r : Row κ ν, r.others.length = t.width → r.others = [] := fun r hr =>
    List.length_eq_zero_iff.mp (hr.trans ht)
  cases w with
  | insert row =>
    simp only [applyWrite, Option.ite_none_right_eq_some, Option.some.injEq] at h
    obtain ⟨⟨hlen, hnone⟩, rfl⟩ := h
    refine ⟨?_, fun s hs => ?_⟩
    · unfold Keyed
      rw [List.map_append, List.map_singleton]
      refine List.nodup_append.mpr ⟨hflat.1, List.nodup_singleton _, ?_⟩
      intro a ha b hb heq
      obtain ⟨s, hs, rfl⟩ := List.mem_map.mp ha
      rw [List.mem_singleton] at hb
      rw [List.any_eq_false] at hnone
      refine hnone s hs ?_
      simp [samePk, heq.trans hb, hflat.2 s hs, hothers row hlen]
    · rcases List.mem_append.mp hs with hs | hs
      · exact hflat.2 s hs
      · exact List.mem_singleton.mp hs ▸ hothers row hlen
  | update old new =>
    simp only [applyWrite, Option.ite_none_right_eq_some, Option.some.injEq] at h
    obtain ⟨⟨hlen, hold, hnone⟩, rfl⟩ := h
    rw [List.any_eq_false] at hnone
    have hfree : ∀ s ∈ rows, s ≠ old → s.lead ≠ new.lead := by
      intro s hs hne hlead
      refine hnone s (List.mem_filter.mpr ⟨hs, decide_eq_true hne⟩) ?_
      simp [samePk, hlead, hflat.2 s hs, hothers new hlen]
    refine ⟨?_, fun s hs => ?_⟩
    · unfold Keyed
      rw [List.map_map]
      refine hflat.1.of_map.map_on fun x hx y hy hxy => ?_
      change (if x = old then new else x).lead = (if y = old then new else y).lead at hxy
      by_cases hxo : x = old <;> by_cases hyo : y = old
      · exact hxo.trans hyo.symm
      · rw [if_pos hxo, if_neg hyo] at hxy
        exact absurd hxy.symm (hfree y hy hyo)
      · rw [if_neg hxo, if_pos hyo] at hxy
        exact absurd hxy (hfree x hx hxo)
      · rw [if_neg hxo, if_neg hyo] at hxy
        exact keyed_inj hflat.1 hy hx hxy
    · obtain ⟨s', hs', rfl⟩ := List.mem_map.mp hs
      by_cases heq : s' = old
      · rw [if_pos heq]
        exact hothers new hlen
      · rw [if_neg heq]
        exact hflat.2 s' hs'
  | delete old =>
    simp only [applyWrite, Option.ite_none_right_eq_some, Option.some.injEq] at h
    obtain ⟨-, rfl⟩ := h
    exact ⟨keyed_filter hflat.1 _, fun s hs => hflat.2 s (List.mem_of_mem_filter hs)⟩

theorem agreeAt_write {w : Write κ ν} {k : κ} (h : applyWrite t rows w = some rows')
    (hk : k ∉ touched w) : AgreeAt k rows' rows := by
  intro x hx
  cases w with
  | insert row =>
    simp only [applyWrite, Option.ite_none_right_eq_some, Option.some.injEq] at h
    obtain ⟨-, rfl⟩ := h
    rw [List.mem_append, List.mem_singleton]
    refine ⟨fun hmem => hmem.resolve_right ?_, .inl⟩
    rintro rfl
    exact hk (List.mem_singleton.mpr hx.symm)
  | update old new =>
    simp only [applyWrite, Option.ite_none_right_eq_some, Option.some.injEq] at h
    obtain ⟨-, rfl⟩ := h
    simp only [touched, List.mem_cons, List.not_mem_nil, or_false, not_or] at hk
    rw [List.mem_map]
    constructor
    · rintro ⟨s, hs, rfl⟩
      by_cases heq : s = old
      · rw [if_pos heq] at hx
        exact absurd hx.symm hk.2
      · rwa [if_neg heq]
    · intro hmem
      refine ⟨x, hmem, if_neg ?_⟩
      rintro rfl
      exact hk.1 hx.symm
  | delete old =>
    simp only [applyWrite, Option.ite_none_right_eq_some, Option.some.injEq] at h
    obtain ⟨-, rfl⟩ := h
    rw [List.mem_filter, decide_eq_true_eq]
    refine ⟨And.left, fun hmem => ⟨hmem, ?_⟩⟩
    rintro rfl
    exact hk (List.mem_singleton.mpr hx.symm)

theorem effect_write {w : Write κ ν} (ht : t.width = 0) (hflat : Flat rows) (hkeeps : KeepsKey w)
    (h : applyWrite t rows w = some rows') : Effect (captured w) rows rows' := by
  intro x
  cases w with
  | insert row =>
    simp only [applyWrite, Option.ite_none_right_eq_some, Option.some.injEq] at h
    obtain ⟨⟨hlen, hnone⟩, rfl⟩ := h
    have hflat' := List.length_eq_zero_iff.mp (hlen.trans ht)
    rw [List.any_eq_false] at hnone
    rw [List.mem_append, List.mem_singleton]
    constructor
    · rintro (hx | rfl)
      · refine .inl ⟨hx, fun hlead => hnone x hx ?_⟩
        have hlead' : x.lead = row.lead := hlead
        simp [samePk, hlead', hflat.2 x hx, hflat']
      · exact .inr ⟨Op.insert_ne, rfl⟩
    · rintro (⟨hx, -⟩ | ⟨-, rfl⟩)
      · exact .inl hx
      · exact .inr rfl
  | update old new =>
    simp only [applyWrite, Option.ite_none_right_eq_some, Option.some.injEq] at h
    obtain ⟨⟨-, hold, -⟩, rfl⟩ := h
    have hlead : new.lead = old.lead := hkeeps
    rw [List.mem_map]
    constructor
    · rintro ⟨s, hs, rfl⟩
      by_cases heq : s = old
      · rw [if_pos heq]
        exact .inr ⟨Op.update_ne, rfl⟩
      · rw [if_neg heq]
        exact .inl ⟨hs, fun hl => heq (keyed_inj hflat.1 hold hs (hl.trans hlead))⟩
    · rintro (⟨hx, hne⟩ | ⟨-, rfl⟩)
      · have hneq : x ≠ old := by
          rintro rfl
          exact hne hlead.symm
        exact ⟨x, hx, if_neg hneq⟩
      · exact ⟨old, hold, if_pos rfl⟩
  | delete old =>
    simp only [applyWrite, Option.ite_none_right_eq_some, Option.some.injEq] at h
    obtain ⟨hold, rfl⟩ := h
    rw [List.mem_filter, decide_eq_true_eq]
    constructor
    · rintro ⟨hx, hne⟩
      exact .inl ⟨hx, fun hl => hne (keyed_inj hflat.1 hold hx hl)⟩
    · rintro (⟨hx, hne⟩ | ⟨hop, -⟩)
      · refine ⟨hx, ?_⟩
        rintro rfl
        exact hne rfl
      · exact absurd rfl hop

end Effects

/-- A source and the log its triggers write; `next` is the number of the next entry. -/
structure Recorded (next : ℕ) (log : List (Entry (ChangeRow κ ν))) (source : List (Row κ ν)) : Prop where
  positive : 0 < next
  numbered : Numbered log
  below : ∀ e ∈ log, e.seq < next
  sound : ∀ e ∈ log, Sound e.change
  flat : Flat source

section Recorded

variable {next : ℕ} {log log' : List (Entry (ChangeRow κ ν))} {source source' : List (Row κ ν)}

theorem recorded_empty (hpos : 0 < next) (hflat : Flat source) : Recorded next [] source :=
  ⟨hpos, List.nodup_nil, nofun, nofun, hflat⟩

theorem recorded_sublist (h : Recorded next log source) (hsub : log'.Sublist log) :
    Recorded next log' source where
  positive := h.positive
  numbered := h.numbered.sublist (hsub.map _)
  below e he := h.below e (hsub.subset he)
  sound e he := h.sound e (hsub.subset he)
  flat := h.flat

theorem recorded_append (h : Recorded next log source) {change : ChangeRow κ ν} (hsound : Sound change)
    (hflat : Flat source') : Recorded (next + 1) (log ++ [⟨next, change⟩]) source' := by
  have hmem : ∀ e ∈ log ++ [Entry.mk next change], e ∈ log ∨ e = Entry.mk next change := fun e he =>
    (List.mem_append.mp he).imp_right List.mem_singleton.mp
  refine ⟨Nat.succ_pos _, ?_, fun e he => ?_, fun e he => ?_, hflat⟩
  · refine numbered_append h.numbered (List.nodup_singleton _) fun a ha b hb => ?_
    rw [List.mem_singleton] at hb
    have hlt := h.below a ha
    subst hb
    exact Nat.ne_of_lt hlt
  · rcases hmem e he with hold | rfl
    · exact Nat.lt_succ_of_lt (h.below e hold)
    · exact Nat.lt_succ_self _
  · rcases hmem e he with hold | rfl
    · exact h.sound e hold
    · exact hsound

end Recorded

/-- The copy at position `cur`, for the keys it covers; the log counts from `base` on. -/
structure Synced (covers : κ → Prop) (log : List (Entry (ChangeRow κ ν))) (base cur : ℕ)
    (source dest : List (Row κ ν)) : Prop where
  /-- The last change of a key in the log is what the source has there. -/
  latest : ∀ e ∈ log, base < e.seq → (∀ e' ∈ log, e'.change.pk = e.change.pk → e'.seq ≤ e.seq) →
    ∀ x : Row κ ν, x.lead = e.change.pk → (x ∈ source ↔ e.change.op ≠ .D ∧ x = e.change.doc)
  agree : ∀ k, covers k → (∃ e ∈ log, e.change.pk = k ∧ cur < e.seq) ∨ AgreeAt k dest source

section Synced

variable {covers : κ → Prop} {log : List (Entry (ChangeRow κ ν))} {base cur : ℕ}
variable {source source' dest dest' : List (Row κ ν)}

theorem synced_empty (base cur : ℕ) (source dest : List (Row κ ν)) :
    Synced (fun _ => False) [] base cur source dest := ⟨nofun, nofun⟩

theorem synced_base {base' : ℕ} (h : Synced covers log base cur source dest) (hle : base ≤ base') :
    Synced covers log base' cur source dest :=
  ⟨fun e he hlt => h.latest e he (lt_of_le_of_lt hle hlt), h.agree⟩

theorem synced_mono {covers' : κ → Prop} (h : Synced covers log base cur source dest)
    (hsub : ∀ k, covers' k → covers k) : Synced covers' log base cur source dest :=
  ⟨h.latest, fun k hk => h.agree k (hsub k hk)⟩

theorem synced_write {n : ℕ} {c : ChangeRow κ ν} (h : Synced covers log base cur source dest)
    (hsound : Sound c) (heffect : Effect c source source') (hcur : cur < n)
    (hlog : ∀ e ∈ log, e.seq < n) : Synced covers (log ++ [⟨n, c⟩]) base cur source' dest := by
  constructor
  · intro e he hbase hlast x hx
    rcases List.mem_append.mp he with hold | hnew
    · have hne : e.change.pk ≠ c.pk := by
        intro heq
        have hle := hlast ⟨n, c⟩ (List.mem_append_right _ (List.mem_singleton_self _)) heq.symm
        have hlt := hlog e hold
        change n ≤ e.seq at hle
        omega
      have hlatest := h.latest e hold hbase (fun e' he' => hlast e' (List.mem_append_left _ he')) x hx
      exact (agreeAt_of_effect hsound heffect hne x hx).trans hlatest
    · rw [List.mem_singleton] at hnew
      subst hnew
      exact mem_at_effect heffect hx
  · intro k hk
    by_cases hpk : c.pk = k
    · exact .inl ⟨⟨n, c⟩, List.mem_append_right _ (List.mem_singleton_self _), hpk, hcur⟩
    · rcases h.agree k hk with ⟨e, he, hek, hlt⟩ | hagree
      · exact .inl ⟨e, List.mem_append_left _ he, hek, hlt⟩
      · refine .inr fun x hx => (hagree x hx).trans ?_
        exact (agreeAt_of_effect hsound heffect (fun heq => hpk heq.symm) x hx).symm

theorem synced_apply {e : Entry (ChangeRow κ ν)} (h : Synced covers log base cur source dest)
    (hnum : Numbered log) (he : e ∈ log) (hbase : base < e.seq) (hsound : Sound e.change)
    (hnext : ∀ e' ∈ log, cur < e'.seq → e.seq ≤ e'.seq) (heffect : Effect e.change dest dest') :
    Synced covers log base e.seq source dest' := by
  refine ⟨h.latest, fun k hk => ?_⟩
  by_cases hlater : ∃ e' ∈ log, e'.change.pk = k ∧ e.seq < e'.seq
  · exact .inl hlater
  · refine .inr ?_
    have hlast : ∀ e' ∈ log, e'.change.pk = k → e'.seq ≤ e.seq := by
      intro e' he' hpk
      by_contra hlt
      exact hlater ⟨e', he', hpk, by omega⟩
    by_cases hpk : k = e.change.pk
    · subst hpk
      intro x hx
      rw [mem_at_effect heffect hx, h.latest e he hbase hlast x hx]
    · refine agreeAt_trans (agreeAt_of_effect hsound heffect hpk) ?_
      rcases h.agree k hk with ⟨e', he', hek, hlt⟩ | hagree
      · have heq : e' = e :=
          numbered_inj hnum he' he (le_antisymm (hlast e' he' hek) (hnext e' he' hlt))
        exact absurd (heq ▸ hek.symm) hpk
      · exact hagree

theorem synced_prune {upTo : ℕ} (h : Synced covers log base cur source dest) (hle : upTo ≤ cur) :
    Synced covers (pruneUpTo log upTo) base cur source dest := by
  constructor
  · intro e he hbase hlast x hx
    rw [mem_pruneUpTo] at he
    refine h.latest e he.1 hbase (fun e' he' hpk => ?_) x hx
    by_cases hkept : upTo < e'.seq
    · exact hlast e' (mem_pruneUpTo.mpr ⟨he', hkept⟩) hpk
    · have hlt := he.2
      omega
  · intro k hk
    rcases h.agree k hk with ⟨e, he, hek, hlt⟩ | hagree
    · exact .inl ⟨e, mem_pruneUpTo.mpr ⟨he, by omega⟩, hek, hlt⟩
    · exact .inr hagree

theorem synced_lower {cur' : ℕ} (h : Synced covers log base cur source dest) (hle : cur' ≤ cur) :
    Synced covers log base cur' source dest := by
  refine ⟨h.latest, fun k hk => (h.agree k hk).imp_left ?_⟩
  rintro ⟨e, he, hek, hlt⟩
  exact ⟨e, he, hek, lt_of_le_of_lt hle hlt⟩

theorem synced_page {covers' : κ → Prop} {page : List (Row κ ν)}
    (h : Synced covers log base cur source dest) (hpage : ∀ x ∈ page, x ∈ source)
    (hdest : ∀ x, x ∈ dest' ↔ x ∈ dest ∨ x ∈ page) (hfresh : ∀ x ∈ page, ¬ covers x.lead)
    (hinside : ∀ x ∈ dest, covers x.lead)
    (hcovers : ∀ k, covers' k → covers k ∨ ∀ x ∈ source, x.lead = k → x ∈ page) :
    Synced covers' log base cur source dest' := by
  refine ⟨h.latest, fun k hk => ?_⟩
  by_cases hold : covers k
  · refine (h.agree k hold).imp_right fun hagree x hx => ?_
    rw [hdest x, ← hagree x hx]
    exact ⟨fun hx' => hx'.resolve_right fun hp => hfresh x hp (hx ▸ hold), .inl⟩
  · refine .inr fun x hx => ?_
    rw [hdest x]
    constructor
    · rintro (hx' | hx')
      · exact absurd (hx ▸ hinside x hx') hold
      · exact hpage x hx'
    · exact fun hx' => .inr ((hcovers k hk).resolve_left hold x hx' hx)

end Synced

section Pages

variable [LinearOrder κ]

def UpTo (cursor : Option κ) (k : κ) : Prop := ∃ c ∈ cursor, k ≤ c

/-- The keys a copy has reached behind a page: all of them behind a short one. -/
def Reached (cursor : Option κ) (limit : ℕ) (rows : List (Row κ ν)) (k : κ) : Prop :=
  rows.length < limit ∨ UpTo (lastKey Row.lead cursor rows) k

variable {cursor : Option κ} {limit : ℕ} {source dest : List (Row κ ν)}

theorem page_above {x : Row κ ν} (hx : x ∈ page Row.lead cursor limit source) : ¬ UpTo cursor x.lead := by
  rintro ⟨c, hc, hle⟩
  exact absurd ((mem_page hx).2 c hc) (not_lt.mpr hle)

theorem upTo_page {x : Row κ ν} (hx : x ∈ page Row.lead cursor limit source) :
    UpTo (lastKey Row.lead cursor (page Row.lead cursor limit source)) x.lead := by
  obtain ⟨k, hk, hle⟩ := le_lastKey (page_sorted Row.lead cursor limit source) hx
  exact ⟨k, hk, hle⟩

theorem upTo_next {k : κ} (hk : UpTo cursor k) :
    UpTo (lastKey Row.lead cursor (page Row.lead cursor limit source)) k := by
  obtain ⟨c, hc, hle⟩ := hk
  by_cases hnil : page Row.lead cursor limit source = []
  · rw [hnil]
    exact ⟨c, hc, hle⟩
  · obtain ⟨l, hl, hlast⟩ := lastKey_mem Row.lead cursor hnil
    exact ⟨l.lead, hlast, le_trans hle (le_of_lt ((mem_page hl).2 c hc))⟩

theorem reached_page (hkeyed : Keyed source) {k : κ}
    (hk : Reached cursor limit (page Row.lead cursor limit source) k) :
    UpTo cursor k ∨ ∀ x ∈ source, x.lead = k → x ∈ page Row.lead cursor limit source := by
  by_cases hold : UpTo cursor k
  · exact .inl hold
  · refine .inr fun x hx hxk => ?_
    have habove : ∀ c ∈ cursor, c < x.lead := by
      intro c hc
      by_contra hle
      exact hold ⟨c, hc, hxk ▸ not_lt.mp hle⟩
    rcases hk with hshort | ⟨l, hl, hle⟩
    · rw [page_short hshort]
      exact mem_beyond.mpr ⟨hx, habove⟩
    · rcases @page_rest _ _ _ Row.lead cursor source limit x hkeyed hx habove with hmem | hbehind
      · exact hmem
      · by_cases hnil : page Row.lead cursor limit source = []
        · rw [hnil] at hl
          exact absurd ⟨l, hl, hle⟩ hold
        · obtain ⟨r, hr, hlast⟩ := lastKey_mem Row.lead cursor hnil
          have hlr : l = r.lead := Option.some.inj (Eq.trans hl.symm hlast)
          have hlt := hbehind r hr
          rw [hxk, ← hlr] at hlt
          exact absurd hle (not_le.mpr hlt)

theorem page_keyed (hkeyed : Keyed source) : Keyed (page Row.lead cursor limit source) := by
  have hstrict := (beyond_strict hkeyed cursor).sublist (List.take_sublist limit _)
  exact List.pairwise_map.mpr (hstrict.imp fun hlt => ne_of_lt hlt)

end Pages

section Tracking

structure Tracking (covers : κ → Prop) (log : List (Entry (ChangeRow κ ν))) (source : List (Row κ ν))
    (c : Consumer (ChangeRow κ ν) (List (Row κ ν))) : Prop where
  inStep : CdcDrains.InStep c
  stored : ∀ e ∈ c.batch, e ∈ log
  ahead : CdcDrains.Ahead (fun e => e ∈ log ∧ c.current < e.seq) log c
  flat : Flat c.sink
  synced : Synced covers log c.saved c.current source c.sink

variable {covers : κ → Prop} {log log' : List (Entry (ChangeRow κ ν))} {source : List (Row κ ν)}
variable {c c' : Consumer (ChangeRow κ ν) (List (Row κ ν))}

theorem tracking_write {n : ℕ} {source' : List (Row κ ν)} {change : ChangeRow κ ν}
    (h : Tracking covers log source c) (hwithin : CdcDrains.Within n c) (hlog : ∀ e ∈ log, e.seq < n)
    (hsound : Sound change) (heffect : Effect change source source') :
    Tracking covers (log ++ [⟨n, change⟩]) source' c where
  inStep := h.inStep
  stored e he := List.mem_append_left _ (h.stored e he)
  ahead := by
    refine CdcDrains.ahead_append h.ahead (fun e he => ?_) fun e he => ?_
    · exact (List.mem_append.mp he.1).imp_left fun hold => ⟨hold, he.2⟩
    · rw [List.mem_singleton] at he
      subst he
      exact hwithin
  flat := h.flat
  synced := synced_write h.synced hsound heffect hwithin.1 hlog

theorem tracking_sink {covers' : κ → Prop} {sink : List (Row κ ν)} (h : Tracking covers log source c)
    (hflat : Flat sink) (hsynced : Synced covers' log c.saved c.current source sink) :
    Tracking covers' log source { c with sink } :=
  ⟨h.inStep, h.stored, ⟨h.ahead.stored, h.ahead.beyond, h.ahead.fetched⟩, hflat, hsynced⟩

theorem tracking_crash (h : Tracking covers log source c) : Tracking covers log source c.crash where
  inStep := trivial
  stored := nofun
  ahead := ⟨fun _ he => he.1, fun _ he => he.2, fun _ _ => .inr nofun⟩
  flat := h.flat
  synced := synced_lower h.synced (CdcDrains.crash_current_le h.inStep)

theorem perm_of_drained (hsource : Flat source) (h : Tracking (fun _ => True) log source c)
    (hidle : c.phase = .idle) (hexhausted : CdcDrains.Exhausted log c) : c.sink.Perm source := by
  refine perm_of_agree h.flat.1 hsource.1 fun k => ?_
  have hagree := h.synced.agree k trivial
  unfold CdcDrains.Exhausted at hexhausted
  unfold Consumer.current at hagree
  simp only [hidle] at hexhausted hagree
  refine hagree.resolve_left ?_
  rintro ⟨e, he, -, hlt⟩
  exact absurd (hexhausted e he) (not_le.mpr hlt)

variable [DecidableEq κ] {kind : DestKind} {t : TableInfo} {batchSize : ℕ+}

def applyTo (kind : DestKind) (t : TableInfo) (rows : List (Row κ ν)) (e : Entry (ChangeRow κ ν)) :
    Option (List (Row κ ν)) := applyChange kind t rows e.change

theorem tracking_consume (hplain : Plain kind t) (hnum : Numbered log)
    (hsound : ∀ e ∈ log, Sound e.change) (h : Tracking covers log source c)
    (hstep : consume (applyTo kind t) batchSize log c = some (log', c')) :
    Tracking covers log' source c' := by
  have hcurrent := CdcDrains.current_consume h.inStep hstep
  have hahead : CdcDrains.Ahead (fun e => e ∈ log' ∧ c'.current < e.seq) log' c' := by
    refine CdcDrains.ahead_mono (CdcDrains.ahead_consume hnum h.inStep h.ahead hstep) fun e he => ?_
    refine ⟨⟨(CdcDrains.log_consume hstep).subset he.1, lt_of_le_of_lt hcurrent.1 he.2⟩, ?_⟩
    intro htakes
    have hlt := he.2
    rw [hcurrent.2 e htakes] at hlt
    exact lt_irrefl _ hlt
  suffices hrest : (∀ e ∈ c'.batch, e ∈ log') ∧ Flat c'.sink ∧
      Synced covers log' c'.saved c'.current source c'.sink from
    ⟨CdcDrains.inStep_consume hnum h.inStep hstep, hrest.1, hahead, hrest.2.1, hrest.2.2⟩
  obtain ⟨hin, hstored, hbefore, hflat, hsynced⟩ := h
  have hfetched := hbefore.fetched
  unfold CdcDrains.InStep at hin
  unfold Consumer.current at hsynced hfetched
  unfold Consumer.batch at hstored hfetched
  unfold Consumer.current Consumer.batch
  rcases consume_cases hstep with ⟨hp, rfl, rfl⟩ | ⟨seq, applied, hp, -, rfl, rfl⟩ |
    ⟨seq, applied, hp, -, rfl, rfl⟩ | ⟨e, rest, seq, applied, short, sink, hp, hsink, rfl, rfl⟩ |
    ⟨seq, applied, short, hp, rfl, rfl⟩ | ⟨seq, hp, rfl, rfl⟩ <;>
    simp only [hp] at hin hstored hfetched hsynced ⊢
  · exact ⟨nofun, hflat, hsynced⟩
  · by_cases hzero : applied = 0
    · simp only [hzero, if_true]
      exact ⟨nofun, hflat, hin ▸ hsynced⟩
    · simp only [hzero, if_false]
      exact ⟨nofun, hflat, hsynced⟩
  · exact ⟨fun e he => (mem_readBatch he).1, hflat, hsynced⟩
  · have he : e ∈ log' := hstored e List.mem_cons_self
    obtain ⟨rows, hrows, heffect, hflat'⟩ := effect_apply hplain hflat (hsound e he)
    have heq : rows = sink := Option.some.inj (hrows.symm.trans hsink)
    subst heq
    refine ⟨fun x hx => hstored x (List.mem_cons_of_mem e hx), hflat', ?_⟩
    refine synced_apply hsynced hnum he (lt_of_le_of_lt hin.1 (hin.2.2 e List.mem_cons_self))
      (hsound e he) (fun e' he' hlt => ?_) heffect
    rcases hfetched e' ⟨he', hlt⟩ with hmem | hbehind
    · rcases List.mem_cons.mp hmem with rfl | hmem
      · exact le_rfl
      · exact le_of_lt ((List.pairwise_cons.mp hin.2.1).1 e' hmem)
    · exact le_of_lt (hbehind e List.mem_cons_self)
  · cases short <;> exact ⟨nofun, hflat, synced_base hsynced hin.1⟩
  · refine ⟨nofun, hflat, ?_⟩
    have hpruned := synced_prune hsynced le_rfl
    rwa [← hin] at hpruned ⊢

theorem tracking_drains {n : ℕ} (hplain : Plain kind t) (hnum : Numbered log)
    (hsound : ∀ e ∈ log, Sound e.change) (h : Tracking covers log source c)
    (hstart : c.phase = .idle ∨ CdcDrains.Exhausted log c)
    (hrun : drains (applyTo kind t) batchSize n (log, c) = some (log', c')) :
    Tracking covers log' source c' ∧ (0 < n → CdcDrains.Exhausted log' c') := by
  induction n generalizing log c with
  | zero =>
    obtain ⟨rfl, rfl⟩ := Prod.mk.inj (Option.some.inj hrun)
    exact ⟨h, nofun⟩
  | succ n ih =>
    rw [CdcDrains.drains_succ] at hrun
    obtain ⟨⟨mid, m⟩, hstep, hrest⟩ := Option.bind_eq_some_iff.mp hrun
    have hsub := CdcDrains.log_consume hstep
    have hexhausted := CdcDrains.exhausted_consume h.inStep hstart hstep
    have hnext := ih (hnum.sublist (hsub.map _)) (fun e he => hsound e (hsub.subset he))
      (tracking_consume hplain hnum hsound h hstep) (.inr hexhausted) hrest
    refine ⟨hnext.1, fun _ => ?_⟩
    cases n with
    | zero =>
      obtain ⟨rfl, rfl⟩ := Prod.mk.inj (Option.some.inj hrest)
      exact hexhausted
    | succ n => exact hnext.2 (Nat.succ_pos n)

theorem foldlM_applyTo (hplain : Plain kind t) {es : List (Entry (ChangeRow κ ν))}
    (hsound : ∀ e ∈ es, Sound e.change) {rows : List (Row κ ν)} (hflat : Flat rows) :
    ∃ rows', es.foldlM (applyTo kind t) rows = some rows' := by
  induction es generalizing rows with
  | nil => exact ⟨rows, rfl⟩
  | cons e es ih =>
    obtain ⟨mid, hmid, -, hflat'⟩ := effect_apply hplain hflat (hsound e List.mem_cons_self)
    obtain ⟨rows', hrows⟩ := ih (fun x hx => hsound x (List.mem_cons_of_mem e hx)) hflat'
    refine ⟨rows', ?_⟩
    rw [List.foldlM_cons]
    change (applyChange kind t rows e.change).bind _ = _
    rw [hmid]
    exact hrows

theorem drains_complete (hplain : Plain kind t) (hnum : Numbered log)
    (hsound : ∀ e ∈ log, Sound e.change) (hflat : Flat c.sink) (hidle : c.phase = .idle) :
    ∃ n log' c', 0 < n ∧ drains (applyTo kind t) batchSize n (log, c) = some (log', c') ∧
      c'.phase = .idle := by
  obtain ⟨rows, hrows⟩ := @foldlM_applyTo _ _ _ kind t hplain (pending log c.saved)
    (fun e he => hsound e (mem_pending.mp he).1) c.sink hflat
  obtain ⟨n, log', c', hn, hdone, -⟩ := @CdcDrains.drains_finish _ _ (applyTo kind t) batchSize log
    { c with phase := .reading c.saved 0 } hnum 0 rows rfl hrows
  refine ⟨n + 1, log', c', Nat.succ_pos n, ?_, hdone⟩
  rw [CdcDrains.drains_succ, consume_idle hidle]
  exact hn

end Tracking

end DataFabric.SyncedTables
