import DataFabric.CharText
import DataFabric.ManifestInputs
import DataFabric.OrderedRecords

set_option autoImplicit false

/-!
# The shapes of a manifest

An older manifest has its resources at the root or in lists of their own kind. It is brought to the one shape that the
orchestrator reads, after the text has been parsed and found plain.
-/
namespace DataFabric.ManifestShapes
open CharText JsValues ManifestInputs OrderedRecords

abbrev Fields := List (String × JsValue)

def legacyKinds : List (String × String) :=
  [("enums", "ENUM"), ("sequences", "SEQUENCE"), ("functions", "FUNCTION"), ("procedures", "PROCEDURE"),
    ("tables", "TABLE"), ("views", "VIEW")]

def typed (type : String) : JsValue → Option JsValue
  | .prim _ => none
  | .arr vs => some (.obj (assignEntry "type" (.str type) (vs.zipIdx.map fun v => (toString v.2, v.1))))
  | .obj fields => some (.obj (assignEntry "type" (.str type) fields))

def legacyResources (schema : JsValue) : List JsValue :=
  legacyKinds.flatMap fun kind => (schema.get kind.1).elements.filterMap (typed kind.2)

/-- A schema without resources gets those of its legacy lists. -/
def foldLegacy : JsValue → JsValue
  | .obj fields =>
    if ((JsValue.obj fields).get "resources").truthy then .obj fields
    else .obj (assignEntry "resources" (.arr (legacyResources (.obj fields))) fields)
  | v => v

def setTarget (overrideSource : String) : JsValue → JsValue
  | .obj fields => .obj (assignEntry "targetSource" (.str overrideSource) fields)
  | v => v

/-- `for (const schema of manifest.schemas)`, where these are a list. -/
def mapSchemas (f : JsValue → JsValue) (manifest : Fields) : Fields :=
  match manifest.lookup "schemas" with
  | some (.arr schemas) => assignEntry "schemas" (.arr (schemas.map f)) manifest
  | _ => manifest

def wrapResources (manifest : Fields) : Fields :=
  let resources := (JsValue.obj manifest).get "resources"
  let namespace_ := (JsValue.obj manifest).get "namespace"
  if resources ≠ .undefined ∧ ((JsValue.obj manifest).get "schemas").truthy = false then
    (assignEntry "schemas" (.arr [.obj
      [("name", if namespace_.truthy then namespace_ else .str "default"), ("resources", resources)]]) manifest).filter
      fun f => f.1 ≠ "resources"
  else manifest

/-- `FABRIC_TARGET_SOURCE_OVERRIDE` is empty where it is not set. -/
def normalize (overrideSource : String) (manifest : Fields) : Fields :=
  let wrapped := wrapResources manifest
  let routed := if overrideSource = "" then wrapped
    else mapSchemas (setTarget overrideSource) (assignEntry "targetSource" (.str overrideSource) wrapped)
  mapSchemas foldLegacy routed

/-- `JSON.parse` and `yaml.load`: an error's text, or what was built. -/
structure Parsers where
  json : String → Except String (Heap × Value)
  yaml : String → Except String (Heap × Value)

def afterNewline : List Char → Option (List Char)
  | '\r' :: '\n' :: rest | '\n' :: rest => some rest
  | _ => none

def untilFence (text : List Char) : Option (List Char) :=
  if (afterNewline text).any fun rest => "```".toList.isPrefixOf rest then some []
  else match text with
    | [] => none
    | c :: rest => (untilFence rest).map (c :: ·)

/-- The first group of the pattern for a fenced block of JSON. -/
def fencedJson : List Char → Option (List Char)
  | [] => none
  | c :: rest =>
    let inside := if "```json".toList.isPrefixOf (c :: rest) then
      (afterNewline ((c :: rest).drop 7)).bind untilFence else none
    inside.orElse fun _ => fencedJson rest

/-- The value of an object below which no path is longer than `left`. -/
def read (heap : Heap) : ℕ → Value → Option JsValue
  | _, .prim p => some (.prim p)
  | 0, .ref _ => none
  | left + 1, .ref a =>
    match heap a with
    | .arr elems => (elems.mapM (read heap left)).map JsValue.arr
    | .obj _ fields => (fields.mapM fun f => (read heap left f.2).map fun v => (f.1, v)).map JsValue.obj

def invalid (message : String) : ManifestInputError := ⟨"INVALID_MANIFEST", message, 400⟩

def parseText (parsers : Parsers) (text : String) : Except ManifestInputError (Heap × Value) :=
  match parsers.json text with
  | .ok built => .ok built
  | .error jsonErr =>
    let fenced := (fencedJson text.toList).getD []
    if fenced ≠ [] then
      (parsers.json (String.ofList fenced)).mapError fun err =>
        invalid ("Failed to parse JSON within Markdown: " ++ err)
    else if startsWith (trim text) "\x7b" || startsWith (trim text) "[" then
      .error (invalid ("Manifest is not valid JSON: " ++ jsonErr))
    else (parsers.yaml text).mapError fun err =>
      invalid ("Manifest format not recognized. Provide valid JSON or YAML (" ++
        String.ofList (err.toList.takeWhile (· ≠ '\n')) ++ ").")

/-- `ManifestParser.parse`; `maxBytes` is `MANIFEST_MAX_BYTES`. -/
def parse (parsers : Parsers) (maxBytes : ℕ) (overrideSource raw : String) : Except ManifestInputError Fields := do
  if maxBytes < raw.utf8ByteSize then
    .error ⟨"MANIFEST_TOO_LARGE",
      "Manifest exceeds the " ++ toString (maxBytes / 1024 / 1024) ++ " MB limit", 413⟩
  else if containsChar '\x00' raw then .error (invalid "Manifest contains NUL bytes")
  else
    let text := if raw.toList.head? = some (Char.ofNat 0xFEFF) then String.ofList (raw.toList.drop 1) else raw
    let (heap, root) ← parseText parsers text
    match root with
    | .prim _ => .error (invalid "Manifest must be a JSON/YAML object")
    | .ref a =>
      match heap a with
      | .arr _ => .error (invalid "Manifest must be a JSON/YAML object")
      | .obj _ _ =>
        assertPlainTree heap root
        match read heap (maxDepth + 1) root with
        | some (.obj fields) => .ok (normalize overrideSource fields)
        -- an accepted tree is read as an object
        | _ => .error (invalid "Manifest must be a JSON/YAML object")

section Normalise
variable {m : Fields} {o k : String} {v : JsValue}

theorem assignEntry_self {es : Fields} (h : es.lookup k = some v) : assignEntry k v es = es := by
  induction es with
  | nil => cases h
  | cons e es ih =>
    obtain ⟨l, w⟩ := e
    rw [lookup_cons_ite] at h
    unfold assignEntry
    by_cases same : l = k
    · rw [if_pos same.symm, Option.some.injEq] at h
      rw [if_pos same, h]
    · rw [if_neg (Ne.symm same)] at h
      rw [if_neg same, ih h]

theorem lookup_filter_ne {es : Fields} {l : String} (other : k ≠ l) :
    (es.filter fun f => f.1 ≠ l).lookup k = es.lookup k := by
  induction es with
  | nil => rfl
  | cons e es ih =>
    by_cases own : e.1 = l
    · rw [List.filter_cons_of_neg (by simpa using own), ih, lookup_cons_ite, if_neg (own ▸ other)]
    · rw [List.filter_cons_of_pos (by simpa using own), lookup_cons_ite, lookup_cons_ite, ih]

theorem lookup_filter_self {es : Fields} : (es.filter fun f => f.1 ≠ k).lookup k = none := by
  induction es with
  | nil => rfl
  | cons e es ih =>
    by_cases own : e.1 = k
    · rw [List.filter_cons_of_neg (by simpa using own), ih]
    · rw [List.filter_cons_of_pos (by simpa using own), lookup_cons_ite, if_neg (Ne.symm own), ih]

theorem mapSchemas_lookup (f : JsValue → JsValue) (other : k ≠ "schemas") :
    (mapSchemas f m).lookup k = m.lookup k := by
  unfold mapSchemas
  split
  · rw [lookup_assignEntry, if_neg other]
  · rfl

theorem mapSchemas_schemas (f : JsValue → JsValue) : (mapSchemas f m).lookup "schemas" =
    match m.lookup "schemas" with
    | some (.arr schemas) => some (.arr (schemas.map f))
    | other => other := by
  unfold mapSchemas
  split
  · rw [lookup_assignEntry, if_pos rfl]
  · rfl

theorem mapSchemas_self {f : JsValue → JsValue}
    (fixed : ∀ schemas, m.lookup "schemas" = some (.arr schemas) → ∀ s ∈ schemas, f s = s) : mapSchemas f m = m := by
  unfold mapSchemas
  split
  · rename_i schemas own
    rw [List.map_congr_left (fixed schemas own), List.map_id']
    exact assignEntry_self own
  · rfl

/-- Neither the wrapping nor the routing nor the legacy lists have more to do. -/
structure Normalized (o : String) (m : Fields) : Prop where
  wrapped : (JsValue.obj m).get "resources" = .undefined ∨ ((JsValue.obj m).get "schemas").truthy = true
  routed : o ≠ "" → m.lookup "targetSource" = some (.str o)
  schemas : ∀ schemas, m.lookup "schemas" = some (.arr schemas) → ∀ s ∈ schemas,
    (o ≠ "" → setTarget o s = s) ∧ foldLegacy s = s

theorem normalize_eq (h : Normalized o m) : normalize o m = m := by
  have wrapped : wrapResources m = m := by
    unfold wrapResources
    rw [if_neg]
    rintro ⟨present, missing⟩
    rcases h.wrapped with absent | there
    · exact present absent
    · rw [missing] at there
      cases there
  unfold normalize
  dsimp only
  rw [wrapped]
  by_cases none : o = ""
  · rw [if_pos none]
    exact mapSchemas_self fun schemas own s hs => (h.schemas schemas own s hs).2
  · rw [if_neg none, assignEntry_self (h.routed none),
      mapSchemas_self fun schemas own s hs => (h.schemas schemas own s hs).1 none]
    exact mapSchemas_self fun schemas own s hs => (h.schemas schemas own s hs).2

theorem get_obj (m : Fields) (k : String) : (JsValue.obj m).get k = (m.lookup k).getD .undefined := rfl

theorem get_lookup {m' : Fields} (same : m'.lookup k = m.lookup k) : (JsValue.obj m').get k = (JsValue.obj m).get k := by
  rw [get_obj, get_obj, same]

theorem wrapResources_done : (JsValue.obj (wrapResources m)).get "resources" = .undefined ∨
    ((JsValue.obj (wrapResources m)).get "schemas").truthy = true := by
  unfold wrapResources
  dsimp only
  split
  · left
    rw [get_obj, lookup_filter_self]
    rfl
  · rename_i h
    by_cases absent : (JsValue.obj m).get "resources" = .undefined
    · exact .inl absent
    · right
      cases there : ((JsValue.obj m).get "schemas").truthy with
      | true => rfl
      | false => exact absurd ⟨absent, there⟩ h

theorem mapSchemas_truthy (f : JsValue → JsValue) :
    ((JsValue.obj (mapSchemas f m)).get "schemas").truthy = ((JsValue.obj m).get "schemas").truthy := by
  rw [get_obj, get_obj, mapSchemas_schemas]
  split
  · rename_i schemas own
    rw [own]
    rfl
  · rfl

theorem foldLegacy_obj (fields : Fields) : foldLegacy (.obj fields) = .obj fields ∨
    foldLegacy (.obj fields) = .obj (assignEntry "resources" (.arr (legacyResources (.obj fields))) fields) := by
  by_cases own : ((JsValue.obj fields).get "resources").truthy = true
  · exact .inl (if_pos own)
  · exact .inr (if_neg own)

theorem foldLegacy_twice (v : JsValue) : foldLegacy (foldLegacy v) = foldLegacy v := by
  cases v with
  | obj fields =>
    rcases foldLegacy_obj fields with same | folded
    · rw [same, same]
    · rw [folded]
      apply if_pos
      rw [get_obj, lookup_assignEntry, if_pos rfl]
      rfl
  | _ => rfl

theorem setTarget_fold (v : JsValue) :
    setTarget o (foldLegacy (setTarget o v)) = foldLegacy (setTarget o v) := by
  cases v with
  | obj fields =>
    have fixed : ∀ fs : Fields, fs.lookup "targetSource" = some (.str o) → setTarget o (.obj fs) = .obj fs :=
      fun fs own => congrArg JsValue.obj (assignEntry_self own)
    have routed : (assignEntry "targetSource" (.str o) fields).lookup "targetSource" = some (.str o) := by
      rw [lookup_assignEntry, if_pos rfl]
    change setTarget o (foldLegacy (.obj (assignEntry "targetSource" (.str o) fields))) =
      foldLegacy (.obj (assignEntry "targetSource" (.str o) fields))
    rcases foldLegacy_obj (assignEntry "targetSource" (.str o) fields) with same | folded
    · rw [same]
      exact fixed _ routed
    · rw [folded]
      apply fixed
      rw [lookup_assignEntry, if_neg (by decide), routed]
  | _ => rfl

theorem normalized (o : String) (m : Fields) : Normalized o (normalize o m) := by
  have done := wrapResources_done (m := m)
  unfold normalize
  dsimp only
  by_cases none : o = ""
  · rw [if_pos none]
    refine ⟨done.imp (fun h => ?_) fun h => ?_, fun h => absurd none h, fun schemas own s hs =>
      ⟨fun h => absurd none h, ?_⟩⟩
    · rwa [get_lookup (mapSchemas_lookup foldLegacy (by decide))]
    · rwa [mapSchemas_truthy]
    · rw [mapSchemas_schemas] at own
      split at own
      · cases own
        obtain ⟨t, _, rfl⟩ := List.mem_map.mp hs
        exact foldLegacy_twice t
      · rename_i other
        exact absurd own (other schemas)
  · rw [if_neg none]
    refine ⟨done.imp (fun h => ?_) fun h => ?_, fun _ => ?_, fun schemas own s hs => ?_⟩
    · rw [get_lookup (mapSchemas_lookup foldLegacy (by decide)), get_lookup (mapSchemas_lookup _ (by decide)),
        get_lookup (m := wrapResources m) (by rw [lookup_assignEntry, if_neg (by decide)])]
      exact h
    · rw [mapSchemas_truthy, mapSchemas_truthy,
        get_lookup (m := wrapResources m) (by rw [lookup_assignEntry, if_neg (by decide)])]
      exact h
    · rw [mapSchemas_lookup _ (by decide), mapSchemas_lookup _ (by decide), lookup_assignEntry, if_pos rfl]
    · rw [mapSchemas_schemas, mapSchemas_schemas] at own
      split at own
      · rename_i inner found
        cases own
        split at found
        · cases found
          obtain ⟨t, ht, rfl⟩ := List.mem_map.mp hs
          obtain ⟨u, _, rfl⟩ := List.mem_map.mp ht
          exact ⟨fun _ => setTarget_fold u, foldLegacy_twice _⟩
        · rename_i other
          exact absurd found (other inner)
      · rename_i other
        exact absurd own (other schemas)

/-- Normalising again changes nothing, and no field but those of the old shape is touched. -/
theorem normalize_stable (o : String) (m : Fields) :
    normalize o (normalize o m) = normalize o m ∧
      ∀ k, k ∉ ["resources", "schemas", "targetSource"] → (normalize o m).lookup k = m.lookup k := by
  refine ⟨normalize_eq (normalized o m), fun k other => ?_⟩
  simp only [List.mem_cons, List.not_mem_nil, or_false, not_or] at other
  have wrapped : (wrapResources m).lookup k = m.lookup k := by
    unfold wrapResources
    dsimp only
    split
    · rw [lookup_filter_ne other.1, lookup_assignEntry, if_neg other.2.1]
    · rfl
  unfold normalize
  dsimp only
  rw [mapSchemas_lookup _ other.2.1]
  split
  · exact wrapped
  · rw [mapSchemas_lookup _ other.2.1, lookup_assignEntry, if_neg other.2.2, wrapped]

end Normalise

mutual

def free : JsValue → Bool
  | .prim _ => true
  | .arr vs => freeAll vs
  | .obj fields => freeFields fields

def freeAll : List JsValue → Bool
  | [] => true
  | v :: vs => free v && freeAll vs

def freeFields : Fields → Bool
  | [] => true
  | (k, v) :: fields => decide (k ∉ forbiddenKeys) && free v && freeFields fields

end

section Free
variable {fields : Fields} {k : String} {v w : JsValue}

theorem freeAll_iff {vs : List JsValue} : freeAll vs = true ↔ ∀ v ∈ vs, free v = true := by
  induction vs with
  | nil => simp [freeAll]
  | cons v vs ih => rw [freeAll, Bool.and_eq_true, ih, List.forall_mem_cons]

theorem freeFields_iff : freeFields fields = true ↔ ∀ f ∈ fields, f.1 ∉ forbiddenKeys ∧ free f.2 = true := by
  induction fields with
  | nil => simp [freeFields]
  | cons f fields ih =>
    rw [freeFields, Bool.and_eq_true, Bool.and_eq_true, decide_eq_true_eq, ih, List.forall_mem_cons]

theorem mapM_all {α β : Type*} {f : α → Option β} {Q : β → Prop} {vs : List α}
    (each : ∀ v ∈ vs, ∃ w, f v = some w ∧ Q w) : ∃ ws, vs.mapM f = some ws ∧ ∀ w ∈ ws, Q w := by
  induction vs with
  | nil => exact ⟨[], rfl, by simp⟩
  | cons v vs ih =>
    rw [List.forall_mem_cons] at each
    obtain ⟨w, own, good⟩ := each.1
    obtain ⟨ws, rest, all⟩ := ih each.2
    refine ⟨w :: ws, ?_, List.forall_mem_cons.mpr ⟨good, all⟩⟩
    rw [List.mapM_cons, own, rest]
    rfl

theorem read_free {heap : Heap} {left : ℕ} {v : Value} {as : List ℕ} (visited : visits heap left v = some as)
    (plain : ∀ a ∈ as, Plain (heap a)) : ∃ t, read heap left v = some t ∧ free t = true := by
  induction left generalizing v as with
  | zero =>
    cases v with
    | prim p => exact ⟨.prim p, rfl, rfl⟩
    | ref a => cases visited
  | succ left ih =>
    cases v with
    | prim p => exact ⟨.prim p, rfl, rfl⟩
    | ref a =>
      rw [visits] at visited
      obtain ⟨parts, inner, rfl⟩ := Option.map_eq_some_iff.mp visited
      rw [List.forall_mem_cons] at plain
      have below : ∀ v ∈ (heap a).values, ∃ t, read heap left v = some t ∧ free t = true := by
        intro v hv
        obtain ⟨i, at_⟩ := List.mem_iff_getElem?.mp hv
        obtain ⟨part, place, own⟩ := mapM_some inner at_
        exact ih own fun b hb =>
          plain.2 b (List.mem_flatten.mpr ⟨part, List.mem_of_getElem? place, hb⟩)
      have self := plain.1
      rw [read]
      cases hcell : heap a with
      | arr elems =>
        rw [hcell] at below
        obtain ⟨ts, all, good⟩ := mapM_all below
        refine ⟨.arr ts, ?_, freeAll_iff.mpr good⟩
        change (elems.mapM (read heap left)).map JsValue.arr = _
        rw [show elems.mapM (read heap left) = some ts from all]
        rfl
      | obj isPlain fs =>
        rw [hcell] at below self
        have each : ∀ f ∈ fs, ∃ g, (read heap left f.2).map (fun v => (f.1, v)) = some g ∧
            (g.1 ∉ forbiddenKeys ∧ free g.2 = true) := by
          intro f hf
          obtain ⟨t, own, good⟩ := below f.2 (List.mem_map_of_mem hf)
          exact ⟨(f.1, t), by rw [own]; rfl, self.2 f hf, good⟩
        obtain ⟨gs, all, good⟩ := mapM_all each
        refine ⟨.obj gs, ?_, freeFields_iff.mpr good⟩
        dsimp only
        rw [all]
        rfl

theorem assignEntry_free (h : freeFields fields = true) (key : k ∉ forbiddenKeys) (good : free v = true) :
    freeFields (assignEntry k v fields) = true := by
  induction fields with
  | nil => simp [assignEntry, freeFields, key, good]
  | cons f fields ih =>
    obtain ⟨l, w⟩ := f
    rw [freeFields, Bool.and_eq_true, Bool.and_eq_true] at h
    unfold assignEntry
    by_cases same : l = k
    · rw [if_pos same, freeFields, h.1.1, good, h.2]
      rfl
    · rw [if_neg same, freeFields, h.1.1, h.1.2, ih h.2]
      rfl

theorem get_free (h : freeFields fields = true) (k : String) : free ((JsValue.obj fields).get k) = true := by
  rw [get_obj]
  cases own : fields.lookup k with
  | none => rfl
  | some v =>
    obtain ⟨front, back, rfl, _⟩ := List.lookup_eq_some_iff.mp own
    exact (freeFields_iff.mp h (k, v) (by simp)).2

theorem index_free (i : ℕ) : toString i ∉ forbiddenKeys := by
  have digits : ∀ c ∈ (toString i).toList, c.isDigit = true := by
    intro c hc
    rw [Nat.toString_eq_repr, Nat.toList_repr] at hc
    exact Nat.isDigit_of_mem_toDigits (by decide) (by decide) hc
  have letters : ∀ s ∈ forbiddenKeys, s.toList.all Char.isDigit = false := by decide
  intro inside
  have none := letters _ inside
  rw [List.all_eq_true.mpr digits] at none
  cases none

theorem typed_free {type : String} (good : free v = true) (h : typed type v = some w) : free w = true := by
  cases v with
  | prim p => cases h
  | arr vs =>
    cases h
    refine assignEntry_free (freeFields_iff.mpr fun f hf => ?_) (by decide) rfl
    obtain ⟨e, he, rfl⟩ := List.mem_map.mp hf
    exact ⟨index_free e.2, freeAll_iff.mp good e.1 (List.fst_mem_of_mem_zipIdx he)⟩
  | obj fields =>
    cases h
    exact assignEntry_free good (by decide) rfl

theorem elements_free (good : free v = true) : ∀ e ∈ v.elements, free e = true := by
  cases v with
  | arr vs => exact freeAll_iff.mp good
  | _ => exact fun e he => by cases he

theorem foldLegacy_free (good : free v = true) : free (foldLegacy v) = true := by
  cases v with
  | obj fields =>
    rcases foldLegacy_obj fields with same | folded
    · rwa [same]
    · rw [folded]
      refine assignEntry_free good (by decide) (freeAll_iff.mpr fun w hw => ?_)
      obtain ⟨kind, _, inside⟩ := List.mem_flatMap.mp hw
      obtain ⟨item, own, h⟩ := List.mem_filterMap.mp inside
      exact typed_free (elements_free (get_free good kind.1) item own) h
  | _ => exact good

theorem setTarget_free (o : String) (good : free v = true) : free (setTarget o v) = true := by
  cases v with
  | obj fields => exact assignEntry_free good (by decide) rfl
  | _ => exact good

theorem mapSchemas_free {f : JsValue → JsValue} (keeps : ∀ v, free v = true → free (f v) = true)
    (h : freeFields fields = true) : freeFields (mapSchemas f fields) = true := by
  unfold mapSchemas
  split
  · rename_i schemas own
    have inner := get_free h "schemas"
    rw [get_obj, own] at inner
    refine assignEntry_free h (by decide) (freeAll_iff.mpr fun w hw => ?_)
    obtain ⟨s, hs, rfl⟩ := List.mem_map.mp hw
    exact keeps s (freeAll_iff.mp inner s hs)
  · exact h

theorem wrapResources_free (h : freeFields fields = true) : freeFields (wrapResources fields) = true := by
  unfold wrapResources
  dsimp only
  split
  · have made : freeFields (assignEntry "schemas" (.arr [.obj [("name",
        if ((JsValue.obj fields).get "namespace").truthy then (JsValue.obj fields).get "namespace" else .str "default"),
        ("resources", (JsValue.obj fields).get "resources")]]) fields) = true := by
      refine assignEntry_free h (by decide) (freeAll_iff.mpr fun w hw => ?_)
      rw [List.mem_singleton.mp hw]
      refine freeFields_iff.mpr fun f hf => ?_
      rcases List.mem_cons.mp hf with rfl | hf
      · refine ⟨show "name" ∉ forbiddenKeys by decide, ?_⟩
        dsimp only
        split
        · exact get_free h "namespace"
        · rfl
      · rw [List.mem_singleton.mp hf]
        exact ⟨show "resources" ∉ forbiddenKeys by decide, get_free h "resources"⟩
    exact freeFields_iff.mpr fun f hf => freeFields_iff.mp made f (List.mem_of_mem_filter hf)
  · exact h

theorem normalize_free (o : String) (h : freeFields fields = true) : freeFields (normalize o fields) = true := by
  have wrapped := wrapResources_free h
  unfold normalize
  dsimp only
  split
  · exact mapSchemas_free (fun _ => foldLegacy_free) wrapped
  · exact mapSchemas_free (fun _ => foldLegacy_free)
      (mapSchemas_free (fun _ => setTarget_free o) (assignEntry_free wrapped (by decide) rfl))

/-- Whatever the parsers build of a text, what `parse` lets out has no forbidden key at any depth, and is in the shape
that normalising leaves. -/
theorem parse_free {parsers : Parsers} {maxBytes : ℕ} {o raw : String}
    (h : parse parsers maxBytes o raw = .ok fields) :
    raw.utf8ByteSize ≤ maxBytes ∧ containsChar '\x00' raw = false ∧ free (.obj fields) = true ∧
      normalize o fields = fields := by
  unfold parse at h
  split at h
  · cases h
  · rename_i small
    split at h
    · cases h
    · rename_i text
      dsimp only at h
      cases hbuilt : parseText parsers
        (if raw.toList.head? = some (Char.ofNat 0xFEFF) then String.ofList (raw.toList.drop 1) else raw) with
      | error e =>
        rw [hbuilt] at h
        cases h
      | ok built =>
        rw [hbuilt] at h
        obtain ⟨heap, root⟩ := built
        cases root with
        | prim p => cases h
        | ref a =>
          change (match heap a with
            | .arr _ => Except.error (invalid "Manifest must be a JSON/YAML object")
            | .obj _ _ => do
              assertPlainTree heap (.ref a)
              match read heap (maxDepth + 1) (.ref a) with
              | some (.obj fields) => .ok (normalize o fields)
              | _ => .error (invalid "Manifest must be a JSON/YAML object")) = .ok fields at h
          cases hcell : heap a with
          | arr elems =>
            rw [hcell] at h
            cases h
          | obj isPlain fs =>
            rw [hcell] at h
            cases htree : assertPlainTree heap (.ref a) with
            | error e =>
              rw [htree] at h
              cases h
            | ok _ =>
              rw [htree] at h
              obtain ⟨as, visited, _, _, plain⟩ := (plainTree_iff heap (.ref a)).1.mp htree
              obtain ⟨t, readAs, good⟩ := read_free visited plain
              change (match read heap (maxDepth + 1) (.ref a) with
                | some (.obj fields) => Except.ok (normalize o fields)
                | _ => .error (invalid "Manifest must be a JSON/YAML object")) = .ok fields at h
              rw [readAs] at h
              cases t with
              | obj inner =>
                cases h
                exact ⟨Nat.not_lt.mp small, Bool.eq_false_iff.mpr text, normalize_free o good,
                  (normalize_stable o inner).1⟩
              | _ => cases h

end Free

/-- A manifest with its resources at the root, as a parser builds it. -/
def rootManifest : Heap
  | 0 => .obj true [("namespace", .prim (.string "shop")), ("resources", .ref 1)]
  | 1 => .arr [.ref 2]
  | _ => .obj true [("name", .prim (.string "orders"))]

def rootText : String := "\x7b\"namespace\": \"shop\", \"resources\": [\x7b\"name\": \"orders\"\x7d]\x7d"

def rootParsers : Parsers where
  json text := if text = rootText then .ok (rootManifest, .ref 0) else .error "Unexpected token"
  yaml _ := .error ""

theorem parse_free_root : ∃ fields,
    parse rootParsers 5242880 "Shop_Mongo" rootText = .ok fields ∧
      fields.map Prod.fst = ["namespace", "schemas", "targetSource"] ∧ free (.obj fields) = true := by
  have parsed : parse rootParsers 5242880 "Shop_Mongo" rootText =
      .ok (normalize "Shop_Mongo" [("namespace", .str "shop"), ("resources", .arr [.obj [("name", .str "orders")]])]) :=
    rfl
  exact ⟨_, parsed, rfl, (parse_free parsed).2.2.1⟩

end DataFabric.ManifestShapes
