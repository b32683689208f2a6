import DataFabric.HubFrames
import DataFabric.ManifestPlans
import DataFabric.SeparatedNames
import DataFabric.TriggerSites

set_option autoImplicit false

/-!
# Names derived from the names of tables, columns and views

An index, trigger or foreign key without a name of its own is named after the objects it belongs to.
-/
namespace DataFabric.DerivedNames
open CharText JsValues TenantIdentifiers HubCatalog HubFrames ManifestPlans TriggerSites

inductive DerivedObject
  | columnIndex (table column : String)
  | viewIndex (view : String) (columns : List String)
  | defaultFunction (table column : String)
  | defaultTrigger (table column : String)
  | foreignKey (relationship : String)
  | bridgeKey (relationship : String)
  deriving DecidableEq, Repr

namespace DerivedObject

def namePrefix : DerivedObject → String
  | columnIndex _ _ => "idx"
  | viewIndex _ _ => "idx_mv"
  | defaultFunction _ _ => "fn_func"
  | defaultTrigger _ _ => "trg_func"
  | foreignKey _ | bridgeKey _ => "fk"

def parts : DerivedObject → List String
  | columnIndex table column | defaultFunction table column | defaultTrigger table column =>
    [table, column]
  | viewIndex view columns => view :: columns
  | foreignKey relationship => [relationship]
  | bridgeKey relationship => [relationship, "from"]

def nameParts (o : DerivedObject) : List String := o.namePrefix :: o.parts

def derived (md5 : String → String) (o : DerivedObject) : Except FabricError String :=
  (o.nameParts.mapM fun p => assertIdent (.str p) "name part").map (derivedName md5)

def Named (o : DerivedObject) : Prop := ∀ p ∈ o.nameParts, identRe p = true

def text (o : DerivedObject) : String := "_".intercalate o.nameParts

instance (o : DerivedObject) : Decidable o.Named :=
  inferInstanceAs (Decidable (∀ p ∈ o.nameParts, identRe p = true))

/-- The words between the underscores of all the parts, in order. -/
def words (o : DerivedObject) : List (List Char) := o.nameParts.flatMap (·.toList.splitOn '_')

end DerivedObject
open DerivedObject

variable (md5 : String → String)

def digits (s : String) : List Char := (md5 s).toList.take 10

/-- `s.slice(0, 50)`, the separator and the digits of the hash -/
def shortened (s : String) : List Char := s.toList.take 50 ++ '_' :: digits md5 s

/-- Two objects with the same prefix and different parts get different names. -/
def NamesApart (a b : DerivedObject) : Prop :=
  ∀ n m, a.derived md5 = .ok n → b.derived md5 = .ok m →
    a.namePrefix = b.namePrefix → a.parts ≠ b.parts → n ≠ m

/-- A text of at most 63 characters is not what a longer one is shortened to. -/
def Spared (s t : String) : Prop :=
  s.toList.length ≤ 63 → 63 < t.toList.length → s.toList ≠ shortened md5 t

/-- Two long texts that begin with the same 50 characters differ in the digits kept of the hash. -/
def HashesApart (s t : String) : Prop :=
  63 < s.toList.length → 63 < t.toList.length → s.toList.take 50 = t.toList.take 50 →
    digits md5 s ≠ digits md5 t

def Separable (a b : DerivedObject) : Prop :=
  a.words ≠ b.words ∧ HashesApart md5 a.text b.text ∧
    Spared md5 a.text b.text ∧ Spared md5 b.text a.text

variable {md5} {s t : String}

theorem toList_short {parts : List String} (short : ("_".intercalate parts).toList.length ≤ 63) :
    derivedName md5 parts = "_".intercalate parts := if_pos short

theorem toList_long {parts : List String} (long : 63 < ("_".intercalate parts).toList.length) :
    (derivedName md5 parts).toList = shortened md5 ("_".intercalate parts) := by
  have name : derivedName md5 parts = _ := if_neg (by omega)
  simp only [name, String.toList_append, String.toList_ofList, List.append_assoc]
  rfl

theorem shortened_inj (hs : 63 < s.toList.length) (ht : 63 < t.toList.length)
    (h : shortened md5 s = shortened md5 t) :
    s.toList.take 50 = t.toList.take 50 ∧ digits md5 s = digits md5 t := by
  have lengths : (s.toList.take 50).length = (t.toList.take 50).length := by
    simp only [List.length_take]
    omega
  have pieces := List.append_inj h lengths
  exact ⟨pieces.1, (List.cons.inj pieces.2).2⟩

theorem shortened_ne_iff (hs : 63 < s.toList.length) (ht : 63 < t.toList.length) :
    shortened md5 s ≠ shortened md5 t ↔ HashesApart md5 s t := by
  constructor
  · intro apart _ _ same digit
    apply apart
    rw [shortened, shortened, same, digit]
  · intro apart h
    have pieces := shortened_inj hs ht h
    exact apart hs ht pieces.1 pieces.2

theorem hashesApart_ne (hs : 63 < s.toList.length) (h : HashesApart md5 s t) : s ≠ t := by
  intro same
  subst same
  exact h hs hs rfl rfl

theorem hashesApart_left (hs : s.toList.length ≤ 63) : HashesApart md5 s t :=
  fun long => absurd long (by omega)

theorem hashesApart_right (ht : t.toList.length ≤ 63) : HashesApart md5 s t :=
  fun _ long => absurd long (by omega)

theorem spared_long (hs : 63 < s.toList.length) : Spared md5 s t :=
  fun short => absurd short (by omega)

theorem spared_short (ht : t.toList.length ≤ 63) : Spared md5 s t :=
  fun _ long => absurd long (by omega)

theorem ne_of_lengths (hs : s.toList.length ≤ 63) (ht : 63 < t.toList.length) : s ≠ t := by
  intro same
  subst same
  omega

theorem derivedName_ne_iff (md5 : String → String) {p q : List String} (hp : "_".intercalate p = s)
    (hq : "_".intercalate q = t) :
    derivedName md5 p ≠ derivedName md5 q ↔
      s ≠ t ∧ HashesApart md5 s t ∧ Spared md5 s t ∧ Spared md5 t s := by
  subst hp hq
  rcases Nat.lt_or_ge 63 ("_".intercalate p).toList.length with hs | hs
  · rcases Nat.lt_or_ge 63 ("_".intercalate q).toList.length with ht | ht
    · rw [ne_eq, ← String.toList_inj, toList_long hs, toList_long ht, ← ne_eq, shortened_ne_iff hs ht]
      exact ⟨fun h => ⟨hashesApart_ne hs h, h, spared_long hs, spared_long ht⟩, fun h => h.2.1⟩
    · rw [ne_eq, ← String.toList_inj, toList_long hs, toList_short ht, eq_comm]
      exact ⟨fun h => ⟨(ne_of_lengths ht hs).symm, hashesApart_right ht, spared_long hs, fun _ _ => h⟩,
        fun h => h.2.2.2 ht hs⟩
  · rcases Nat.lt_or_ge 63 ("_".intercalate q).toList.length with ht | ht
    · rw [ne_eq, ← String.toList_inj, toList_short hs, toList_long ht]
      exact ⟨fun h => ⟨ne_of_lengths hs ht, hashesApart_left hs, fun _ _ => h, spared_long ht⟩,
        fun h => h.2.2.1 hs ht⟩
    · rw [toList_short hs, toList_short ht]
      exact ⟨fun h => ⟨h, hashesApart_left hs, spared_short ht, spared_short hs⟩, fun h => h.1⟩

theorem identParts_ok {parts names : List String} :
    (parts.mapM fun p => assertIdent (.str p) "name part") = .ok names ↔
      (∀ p ∈ parts, identRe p = true) ∧ names = parts := by
  induction parts generalizing names with
  | nil =>
    rw [List.mapM_nil]
    exact ⟨fun h => ⟨by simp, (Except.ok.inj h).symm⟩, fun h => congrArg Except.ok h.2.symm⟩
  | cons p rest ih =>
    rw [List.mapM_cons]
    constructor
    · intro h
      obtain ⟨n, hn, h⟩ := ExceptRules.bind_ok h
      obtain ⟨ns, hns, h⟩ := ExceptRules.bind_ok h
      have first := assertIdent_ok hn
      have others := ih.mp hns
      cases first.1
      cases others.2
      cases h
      exact ⟨by simpa using ⟨first.2, others.1⟩, rfl⟩
    · rintro ⟨named, rfl⟩
      rw [assertIdent_str (named p List.mem_cons_self),
        ih.mpr ⟨fun q hq => named q (List.mem_cons_of_mem p hq), rfl⟩]
      rfl

theorem derived_ok {o : DerivedObject} {n : String} :
    o.derived md5 = .ok n ↔ o.Named ∧ n = derivedName md5 o.nameParts := by
  constructor
  · intro h
    obtain ⟨names, hnames, rfl⟩ := ExceptRules.map_ok h
    have checked := identParts_ok.mp hnames
    exact ⟨checked.1, by rw [checked.2]⟩
  · rintro ⟨named, rfl⟩
    rw [derived, identParts_ok.mpr ⟨named, rfl⟩]
    rfl

theorem text_eq_iff {a b : DerivedObject} : a.text = b.text ↔ a.words = b.words := by
  have joined : ['_'].intercalate (a.namePrefix.toList :: a.parts.map String.toList) =
      ['_'].intercalate (b.namePrefix.toList :: b.parts.map String.toList) ↔ _ :=
    SeparatedNames.joined_eq_iff (List.cons_ne_nil _ _) (List.cons_ne_nil _ _)
  rw [← List.map_cons, ← List.map_cons, List.flatMap_map, List.flatMap_map] at joined
  rw [← String.toList_inj, text, text, String.toList_intercalate, String.toList_intercalate]
  exact joined

/-- The names of two objects keep them apart when the words of the two objects do. -/
theorem namesApart_iff (md5 : String → String) (a b : DerivedObject) :
    NamesApart md5 a b ↔
      (a.Named → b.Named → a.namePrefix = b.namePrefix → a.parts ≠ b.parts → Separable md5 a b) := by
  have names := derivedName_ne_iff md5 (rfl : _ = a.text) (rfl : _ = b.text)
  rw [ne_eq a.text, text_eq_iff] at names
  constructor
  · intro apart ha hb hprefix hparts
    exact names.mp (apart _ _ (derived_ok.mpr ⟨ha, rfl⟩) (derived_ok.mpr ⟨hb, rfl⟩) hprefix hparts)
  · intro separable n m hn hm hprefix hparts
    obtain ⟨ha, rfl⟩ := derived_ok.mp hn
    obtain ⟨hb, rfl⟩ := derived_ok.mp hm
    exact names.mpr (separable ha hb hprefix hparts)

/-- Column `b_c` of table `a` and column `c` of table `a_b` get one index. -/
theorem index_shared :
    Named (.columnIndex "a" "b_c") ∧ Named (.columnIndex "a_b" "c") ∧
      ∀ md5, ¬ NamesApart md5 (.columnIndex "a" "b_c") (.columnIndex "a_b" "c") := by
  refine ⟨by decide, by decide, fun md5 apart => ?_⟩
  exact apart "idx_a_b_c" "idx_a_b_c" rfl rfl rfl (by decide) rfl

end DataFabric.DerivedNames
