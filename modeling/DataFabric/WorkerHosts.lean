import DataFabric.HostClasses
import DataFabric.JsValues

set_option autoImplicit false

/-!
# The hosts of worker nodes

The check of a worker's host knows an IPv4 address by its four decimal parts. Whatever else has the form of a name is
taken for one.
-/
namespace DataFabric.WorkerHosts
open CharText JsValues NetGuard HostSpellings HostClasses

structure WorkerError where
  status : ℕ
  code : String
  message : String
  deriving DecidableEq

def invalidWorker (message : String) : WorkerError := ⟨400, "INVALID_WORKER", message⟩

def isLabel (p : List Char) : Bool :=
  p.length ≤ 63 && p.all (fun c => c.isAlphanum || c = '-') && p.head?.any Char.isAlphanum &&
    p.getLast?.any Char.isAlphanum

def hostRe (h : List Char) : Bool := h.length ≤ 253 && (splitChars '.' h).all isLabel

def blockedHosts : List (List Char) :=
  ["metadata.google.internal".toList, "metadata".toList, "instance-data".toList, "0.0.0.0".toList]

def isQuadPart (p : List Char) : Bool := p ≠ [] && p.length ≤ 3 && p.all Char.isDigit

def quadMatch (h : List Char) : Option (List ℕ) :=
  let parts := splitChars '.' h
  if parts.length = 4 && parts.all isQuadPart then some (parts.map (positional 10)) else none

def checkQuad (loopback : Bool) (o : List ℕ) : Except WorkerError Unit :=
  let first := o.getD 0 0
  if o.any (255 < ·) then .error (invalidWorker "host is not a valid IPv4 address")
  else if first = 169 && o.getD 1 0 = 254 then .error (invalidWorker "link-local addresses are not allowed")
  else if first = 0 || 224 ≤ first then .error (invalidWorker "host is not a routable address")
  else if first = 127 && !loopback then
    .error (invalidWorker "loopback addresses are not allowed (set ALLOW_LOOPBACK_WORKERS=true for development)")
  else .ok ()

def validateHost (loopback : Bool) : JsValue → Except WorkerError (List Char)
  | .str raw =>
    let host := lower (trim raw)
    if host = [] || !hostRe host then
      .error (invalidWorker "host must be a plain hostname or IPv4 address (no scheme, port, path or spaces)")
    else if blockedHosts.contains host then .error (invalidWorker "host is not allowed")
    else match quadMatch host with
      | some o => (checkQuad loopback o).map fun _ => host
      | none =>
        if host = "localhost".toList && !loopback then
          .error (invalidWorker "localhost is not allowed (set ALLOW_LOOPBACK_WORKERS=true for development)")
        else .ok host
  | _ => .error (invalidWorker "host must be a string")

def Reserved (loopback : Bool) (o : Octets) : Prop :=
  o.1 = 169 ∧ o.2.1 = 254 ∨ o.1 = 0 ∨ 224 ≤ o.1 ∨ o.1 = 127 ∧ loopback = false

variable {h text : List Char} {loopback : Bool} {o : Octets}

theorem positional_cons (base : ℕ) (d : Char) (ds : List Char) :
    positional base (d :: ds) = positional base ds + base ^ ds.length * digitOf d := by
  unfold positional
  rw [List.reverse_cons, List.map_append, Nat.ofDigits_append, List.length_map, List.length_reverse, List.map_singleton,
    Nat.ofDigits_singleton]

theorem digit_pos {d : Char} (digit : d.isDigit = true) (other : d ≠ '0') : 1 ≤ digitOf d := by
  have ascii := isWord_ascii (partChar_word (digit_hex digit))
  apply ascii_forall (p := fun c => c.isDigit = true → c ≠ '0' → 1 ≤ digitOf c) _ ascii digit other
  decide

theorem octet_quadPart {p : List Char} (octet : isOctet p = true) : isQuadPart p = true := by
  have digits := octet_digits octet
  simp only [isQuadPart, Bool.and_eq_true, decide_eq_true_eq]
  refine ⟨⟨digits.1, ?_⟩, digits.2.1⟩
  rw [isOctet, Bool.and_eq_true] at octet
  obtain ⟨d, ds, rfl, all, lead⟩ := decimalRe_iff.mp octet.1
  by_contra long
  have several : 3 ≤ ds.length := by
    rw [List.length_cons] at long
    omega
  have nonzero : 1 ≤ digitOf d := by
    have isDigit := List.all_eq_true.mp all d List.mem_cons_self
    have notZero : d ≠ '0' := fun zero => by
      rw [lead zero] at several
      exact absurd several (by decide)
    exact digit_pos isDigit notZero
  have large := positional_cons 10 d ds
  have power : 10 ^ 3 ≤ 10 ^ ds.length := Nat.pow_le_pow_right (by omega) several
  have product : 10 ^ 3 * 1 ≤ 10 ^ ds.length * digitOf d := Nat.mul_le_mul power nonzero
  have small := digits.2.2
  omega

theorem digits_label {p : List Char} (filled : p ≠ []) (short : p.length ≤ 63)
    (alnum : ∀ c ∈ p, c.isAlphanum = true) : isLabel p = true := by
  have first : p.head?.any Char.isAlphanum = true := by
    obtain ⟨c, cs, rfl⟩ := List.exists_cons_of_ne_nil filled
    exact alnum c List.mem_cons_self
  have last : p.getLast?.any Char.isAlphanum = true := by
    rw [List.getLast?_eq_some_getLast filled]
    exact alnum _ (List.getLast_mem filled)
  simp only [isLabel, first, last, Bool.and_true, Bool.and_eq_true, decide_eq_true_eq, List.all_eq_true]
  exact ⟨short, fun c hc => by rw [alnum c hc]; rfl⟩

theorem partChar_alnum {c : Char} (part : isPartChar c = true) : c.isAlphanum = true := by
  have ascii := isWord_ascii (partChar_word part)
  apply ascii_forall (p := fun c => isPartChar c = true → c.isAlphanum = true) _ ascii part
  decide

theorem quad_match (dotted : DottedQuad text o) :
    hostRe text = true ∧ quadMatch text = some [o.1, o.2.1, o.2.2.1, o.2.2.2] := by
  have quad := quad_shape dotted
  have parts : ∀ p ∈ splitChars '.' text, isQuadPart p = true := fun p hp => octet_quadPart (quad.octets p hp)
  have size : text.length ≤ 253 := by
    obtain ⟨w, x, y, z, rfl, octets, _⟩ := dotted
    have short : ∀ p ∈ [w, x, y, z], p.length ≤ 3 := by
      intro p hp
      have own := octet_quadPart (octets p hp)
      simp only [isQuadPart, Bool.and_eq_true, decide_eq_true_eq] at own
      exact own.1.2
    have hw := short w (by simp)
    have hx := short x (by simp)
    have hy := short y (by simp)
    have hz := short z (by simp)
    simp only [List.intercalate_cons_cons, List.intercalate_singleton, List.length_append, List.length_singleton]
    omega
  constructor
  · rw [hostRe, Bool.and_eq_true, decide_eq_true_eq, List.all_eq_true]
    refine ⟨size, fun p hp => ?_⟩
    have own := parts p hp
    simp only [isQuadPart, Bool.and_eq_true, decide_eq_true_eq, List.all_eq_true] at own
    exact digits_label own.1.1 (by omega) fun c hc => partChar_alnum (digit_hex (own.2 c hc))
  · rw [quadMatch, quad.parts, List.all_eq_true.mpr parts, quad.values]
    rfl

theorem checkQuad_iff (small : ∀ n ∈ [o.1, o.2.1, o.2.2.1, o.2.2.2], n ≤ 255) :
    checkQuad loopback [o.1, o.2.1, o.2.2.1, o.2.2.2] = .ok () ↔ ¬ Reserved loopback o := by
  have bytes : [o.1, o.2.1, o.2.2.1, o.2.2.2].any (255 < ·) = false := by
    rw [List.any_eq_false]
    intro n hn
    have own := small n hn
    rw [decide_eq_true_eq]
    omega
  unfold checkQuad Reserved
  rw [bytes]
  simp only [List.getD_cons_zero, List.getD_cons_succ, Bool.and_eq_true, Bool.or_eq_true, decide_eq_true_eq,
    Bool.not_eq_true', Bool.false_eq_true, if_false]
  by_cases link : o.1 = 169 ∧ o.2.1 = 254
  · rw [if_pos link]
    constructor
    · intro h
      cases h
    · exact fun h => absurd (.inl link) h
  · rw [if_neg link]
    by_cases range : o.1 = 0 ∨ 224 ≤ o.1
    · rw [if_pos range]
      constructor
      · intro h
        cases h
      · exact fun h => absurd (.inr (range.imp_right .inl)) h
    · rw [if_neg range]
      by_cases own : o.1 = 127 ∧ loopback = false
      · rw [if_pos own]
        constructor
        · intro h
          cases h
        · exact fun h => absurd (.inr (.inr (.inr own))) h
      · rw [if_neg own]
        simp only [true_iff]
        rintro (bad | bad | bad | bad)
        · exact link bad
        · exact range (.inl bad)
        · exact range (.inr bad)
        · exact own bad

theorem validateHost_dotted (dotted : DottedQuad text o) :
    validateHost loopback (.str (String.ofList text)) = .ok text ↔ ¬ Reserved loopback o := by
  have quad := quad_shape dotted
  have plain : ∀ c ∈ text, isPlain c = true := by
    intro c hc
    rcases quad.chars c hc with part | rfl
    · simp [isPlain, part]
    · decide
  have matched := quad_match dotted
  have filled : text ≠ [] := List.ne_nil_of_mem quad.dot
  have small : ∀ n ∈ [o.1, o.2.1, o.2.2.1, o.2.2.2], n ≤ 255 := by
    intro n hn
    rw [← quad.values] at hn
    obtain ⟨p, hp, rfl⟩ := List.mem_map.mp hn
    exact (octet_digits (quad.octets p hp)).2.2
  rw [← checkQuad_iff small]
  simp only [validateHost, lower_trim_plain plain, matched.1, matched.2, filled, Bool.not_true, Bool.or_false,
    decide_false, Bool.false_eq_true, if_false, List.contains_iff_mem]
  by_cases blocked : text ∈ blockedHosts
  · -- of the blocked names only the zero address has this form
    rw [if_pos blocked]
    have zero : o.1 = 0 := by
      have none : ∀ name ∈ blockedHosts, quadMatch name = none ∨ quadMatch name = some [0, 0, 0, 0] := by decide
      rcases none text blocked with apart | same
      · rw [matched.2] at apart
        cases apart
      · rw [matched.2, Option.some.injEq, List.cons.injEq] at same
        exact same.1
    constructor
    · intro h
      cases h
    · intro h
      rw [checkQuad_iff small] at h
      exact absurd (.inr (.inl zero)) h
  · rw [if_neg blocked]
    cases hcheck : checkQuad loopback [o.1, o.2.1, o.2.2.1, o.2.2.2] with
    | error e =>
      constructor
      · intro h
        cases h
      · intro h
        cases h
    | ok _ => exact ⟨fun _ => rfl, fun _ => rfl⟩

theorem hexText_shape {n : ℕ} (small : n < 16 ^ 8) :
    ∃ d ds, hexText n = d :: ds ∧ (d :: ds).all isHexDigit = true ∧ (d :: ds).length ≤ 8 := by
  unfold hexText
  by_cases zero : n = 0
  · rw [if_pos zero]
    exact ⟨'0', [], rfl, by decide, by decide⟩
  · have size : (Nat.digits 16 n).length ≤ 8 := (Nat.digits_length_le_iff (by omega) n).mpr small
    have filled : (Nat.digits 16 n).reverse.map hexChar ≠ [] := by
      simpa using Nat.digits_ne_nil_iff_ne_zero.mpr zero
    obtain ⟨d, ds, same⟩ := List.exists_cons_of_ne_nil filled
    rw [if_neg zero]
    refine ⟨d, ds, same, ?_, ?_⟩
    · rw [← same, List.all_eq_true]
      intro c hc
      obtain ⟨x, hx, rfl⟩ := List.mem_map.mp hc
      exact (hexChar_digit (Nat.digits_lt_base (by omega) (List.mem_reverse.mp hx))).2
    · rw [← same, List.length_map, List.length_reverse]
      exact size

/-- The address as one hexadecimal number. -/
def hexHost (address : ℕ) : List Char := '0' :: 'x' :: hexText address

theorem validateHost_hex {address : ℕ} (range : address < 2 ^ 32) :
    SpellsAddress (hexHost address) address ∧ lower (trim (String.ofList (hexHost address))) = hexHost address ∧
      validateHost false (.str (String.ofList (hexHost address))) = .ok (hexHost address) := by
  obtain ⟨d, ds, same, hex, size⟩ := hexText_shape (n := address) range
  rw [hexHost, same]
  have partChars : ∀ c ∈ '0' :: 'x' :: d :: ds, isPartChar c = true := by
    intro c hc
    rw [List.mem_cons, List.mem_cons] at hc
    rcases hc with rfl | rfl | inside
    · decide
    · decide
    · rw [isPartChar, List.all_eq_true.mp hex c inside]
      rfl
  have plain : ∀ c ∈ '0' :: 'x' :: d :: ds, isPlain c = true := by
    intro c hc
    rw [isPlain, partChars c hc]
    rfl
  have apart : '.' ∉ '0' :: 'x' :: d :: ds := not_partChar (by decide) partChars
  have whole : splitChars '.' ('0' :: 'x' :: d :: ds) = ['0' :: 'x' :: d :: ds] := splitChars_plain apart
  have spelled : SpellsAddress ('0' :: 'x' :: d :: ds) address := by
    refine ⟨['0' :: 'x' :: d :: ds], [address], List.intercalate_singleton.symm, ?_, .one range⟩
    have value : positional 16 (d :: ds) = address := by rw [← same, hexText_value]
    exact .cons (value ▸ .hexadecimal hex) .nil
  refine ⟨spelled, lower_trim_plain plain, ?_⟩
  have label : isLabel ('0' :: 'x' :: d :: ds) = true := by
    refine digits_label (List.cons_ne_nil _ _) ?_ fun c hc => partChar_alnum (partChars c hc)
    rw [List.length_cons, List.length_cons]
    omega
  have named : hostRe ('0' :: 'x' :: d :: ds) = true := by
    rw [hostRe, whole, Bool.and_eq_true, decide_eq_true_eq, List.all_eq_true, List.forall_mem_singleton]
    refine ⟨?_, label⟩
    rw [List.length_cons, List.length_cons]
    omega
  have unmatched : quadMatch ('0' :: 'x' :: d :: ds) = none := by
    rw [quadMatch, whole]
    rfl
  have unblocked : '0' :: 'x' :: d :: ds ∉ blockedHosts := by
    have none : ∀ name ∈ blockedHosts, name.take 2 ≠ ['0', 'x'] := by decide
    exact fun inside => none _ inside rfl
  simp only [validateHost, lower_trim_plain plain, named, unmatched, List.contains_iff_mem]
  rw [if_neg (by simp), if_neg unblocked, if_neg (by simp)]

/-- A host in four decimal parts is let in exactly when its address is not reserved. But every address, reserved or
not, is let in as one hexadecimal number, which the guard of outgoing requests reads as that address. -/
theorem workerHosts_spelled :
    (∀ text o loopback, DottedQuad text o →
      (validateHost loopback (.str (String.ofList text)) = .ok text ↔ ¬ Reserved loopback o)) ∧
    ∀ address < 2 ^ 32, validateHost false (.str (String.ofList (hexHost address))) = .ok (hexHost address) ∧
      parseIPv4Loose (String.ofList (hexHost address)) = some (octetsOf address) ∧
      classifyHost (String.ofList (hexHost address)) = classifyV4 (octetsOf address) := by
  refine ⟨fun text o loopback dotted => validateHost_dotted dotted, fun address range => ?_⟩
  obtain ⟨spelled, written, accepted⟩ := validateHost_hex range
  refine ⟨accepted, ?_, classify_spelling ⟨_, spelled, .inl written⟩⟩
  rw [parseIPv4Loose, written]
  exact parse_spelling spelled

end DataFabric.WorkerHosts
