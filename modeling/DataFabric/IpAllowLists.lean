import DataFabric.HostClasses

set_option autoImplicit false

/-!
# The IP allow-list of a workspace

The validator takes addresses and ranges of both families; an IPv4 range is matched by its prefix, an
IPv6 rule by its text.
-/
namespace DataFabric.IpAllowLists
open CharText NetGuard HostSpellings HostClasses

def isIPv4 (ip : List Char) : Bool := isDottedQuad ip

def isZone (zone : List Char) : Bool :=
  zone ≠ [] && zone.all fun c => c.isAlphanum || c = '-' || c = '.' || c = ':'

def isIP (ip : List Char) : ℕ :=
  if isIPv4 ip then 4
  else match splitChars '%' (ip.map Char.toLower) with
    | [address] => if isIPv6 address then 6 else 0
    | [address, zone] => if isIPv6 address && isZone zone then 6 else 0
    | _ => 0

def isPrefixLength (bits : List Char) : Bool := bits ≠ [] && bits.length ≤ 3 && bits.all Char.isDigit

def width (family : ℕ) : ℕ := if family = 4 then 32 else 128

def isValidIpOrCidr (v : String) : Bool :=
  match splitChars '/' v.toList with
  | [ip] => isIP ip ≠ 0
  | [ip, bits] => isIP ip ≠ 0 && isPrefixLength bits && positional 10 bits ≤ width (isIP ip)
  | _ => false

def toInt32 (n : ℤ) : ℤ :=
  if n % 4294967296 < 2147483648 then n % 4294967296 else n % 4294967296 - 4294967296

def toUint32 (n : ℤ) : ℕ := (n % 4294967296).toNat

def shiftLeft (n k : ℤ) : ℤ := toInt32 (toInt32 n * 2 ^ (k % 32).toNat)

def ip4ToInt (ip : List Char) : ℕ :=
  toUint32 ((splitChars '.' ip).foldl (fun a o => shiftLeft a 8 + positional 10 o) 0)

def maskOf (b : ℕ) : ℕ := if b = 0 then 0 else toUint32 (shiftLeft (-1) (32 - b))

def clean (ip : List Char) : List Char := if "::ffff:".toList.isPrefixOf ip then ip.drop 7 else ip

def ruleMatches (address : List Char) (rule : String) : Bool :=
  match splitChars '/' rule.toList with
  | base :: rest =>
    if isIPv4 address && isIPv4 base then
      let mask := maskOf (rest.head?.elim 32 (positional 10))
      ip4ToInt address &&& mask = ip4ToInt base &&& mask
    else address = base
  | [] => false

def ipAllowed (ip : Option String) (allowed : List String) : Bool :=
  if allowed = [] then true
  else match ip with
    | none => false
    | some ip => if ip = "" then false else allowed.any (ruleMatches (clean ip.toList))

def number (o : Octets) : ℕ := ((o.1 * 256 + o.2.1) * 256 + o.2.2.1) * 256 + o.2.2.2

def Dotted (text : List Char) (address : ℕ) : Prop := ∃ o, DottedQuad text o ∧ address = number o

/-- The text is the address in the form of IPv6, in any letter case. -/
def Literal (text : List Char) (address : ℕ) : Prop :=
  ∃ groups, Denotes (text.map Char.toLower) groups ∧ address = groups.foldl (fun n g => n * 2 ^ 16 + g) 0

/-- The rule is the base alone, or the base and the length of a prefix. -/
def Ruled (bound : ℕ) (rule : String) (base : List Char) (len : ℕ) : Prop :=
  len ≤ bound ∧ (rule.toList = base ∧ len = bound ∨
    ∃ bits, rule.toList = base ++ '/' :: bits ∧ isPrefixLength bits = true ∧ len = positional 10 bits)

/-- The addresses that agree with the base of the rule in the leading bits. -/
def Covers (bound : ℕ) (spelled : List Char → ℕ → Prop) (rule : String) (address : ℕ) : Prop :=
  ∃ base len first, Ruled bound rule base len ∧ spelled base first ∧
    address / 2 ^ (bound - len) = first / 2 ^ (bound - len)

def ruleBase (rule : String) : Option (List Char) := (splitChars '/' rule.toList).head?

theorem toInt32_mod (n : ℤ) : toInt32 n % 4294967296 = n % 4294967296 := by
  unfold toInt32
  split <;> omega

theorem maskOf_eq {b : ℕ} (hb : b ≤ 32) : maskOf b = (2 ^ b - 1) <<< (32 - b) := by
  revert b
  decide

theorem and_mask {x b : ℕ} (hx : x < 2 ^ 32) (hb : b ≤ 32) : x &&& maskOf b = x / 2 ^ (32 - b) * 2 ^ (32 - b) := by
  rw [maskOf_eq hb]
  apply Nat.eq_of_testBit_eq
  intro i
  rw [Nat.testBit_and, Nat.testBit_shiftLeft, Nat.testBit_two_pow_sub_one, ← Nat.shiftRight_eq_div_pow,
    ← Nat.shiftLeft_eq, Nat.testBit_shiftLeft, Nat.testBit_shiftRight]
  by_cases low : 32 - b ≤ i
  · by_cases high : i < 32
    · have inside : i - (32 - b) < b := by omega
      have back : 32 - b + (i - (32 - b)) = i := by omega
      simp [low, inside, back]
    · have zero : x.testBit i = false := Nat.testBit_lt_two_pow (hx.trans_le (Nat.pow_le_pow_right (by decide) (by omega)))
      have back : 32 - b + (i - (32 - b)) = i := by omega
      simp [zero, back]
  · simp [low]

theorem and_mask_iff {x y b : ℕ} (hx : x < 2 ^ 32) (hy : y < 2 ^ 32) (hb : b ≤ 32) :
    x &&& maskOf b = y &&& maskOf b ↔ x / 2 ^ (32 - b) = y / 2 ^ (32 - b) := by
  rw [and_mask hx hb, and_mask hy hb]
  exact Nat.mul_left_inj (by positivity)

theorem shiftLeft_eight (n : ℤ) : shiftLeft n 8 % 4294967296 = n * 256 % 4294967296 := by
  have word := toInt32_mod n
  have shifted := toInt32_mod (toInt32 n * 256)
  change toInt32 (toInt32 n * 256) % 4294967296 = _
  omega

variable {text base : List Char} {a len bound : ℕ} {rule : String}

theorem dotted_octets (dotted : Dotted text a) :
    ∃ w x y z, (splitChars '.' text).map (positional 10) = [w, x, y, z] ∧ w ≤ 255 ∧ x ≤ 255 ∧ y ≤ 255 ∧ z ≤ 255 ∧
      a = ((w * 256 + x) * 256 + y) * 256 + z := by
  obtain ⟨o, quad, rfl⟩ := dotted
  have shape := quad_shape quad
  have small : ∀ n ∈ (splitChars '.' text).map (positional 10), n ≤ 255 := by
    intro n hn
    obtain ⟨q, hq, rfl⟩ := List.mem_map.mp hn
    exact (octet_digits (shape.octets q hq)).2.2
  rw [shape.values] at small
  exact ⟨_, _, _, _, shape.values, small _ (by simp), small _ (by simp), small _ (by simp), small _ (by simp), rfl⟩

theorem octets_fold (parts : List (List Char)) (m n : ℤ) (h : m % 4294967296 = n % 4294967296) :
    parts.foldl (fun a o => shiftLeft a 8 + positional 10 o) m % 4294967296 =
      (parts.map (positional 10)).foldl (fun (a : ℤ) (o : ℕ) => a * 256 + o) n % 4294967296 := by
  induction parts generalizing m n with
  | nil => exact h
  | cons o rest ih =>
    apply ih
    have shifted := shiftLeft_eight m
    change (shiftLeft m 8 + positional 10 o) % 4294967296 = (n * 256 + positional 10 o) % 4294967296
    omega

theorem ip4ToInt_dotted (dotted : Dotted text a) : ip4ToInt text = a ∧ a < 2 ^ 32 := by
  obtain ⟨w, x, y, z, values, hw, hx, hy, hz, rfl⟩ := dotted_octets dotted
  have sums := octets_fold (splitChars '.' text) 0 0 rfl
  rw [values] at sums
  simp only [List.foldl_cons, List.foldl_nil] at sums
  rw [ip4ToInt, toUint32, sums]
  omega

theorem dotted_isIPv4 (dotted : Dotted text a) : isIPv4 text = true := by
  obtain ⟨o, quad, rfl⟩ := dotted
  have shape := quad_shape quad
  rw [isIPv4, isDottedQuad, shape.parts, Bool.and_eq_true, List.all_eq_true]
  exact ⟨rfl, shape.octets⟩

theorem isIPv4_dotted (h : isIPv4 text = true) : ∃ a, Dotted text a := by
  rw [isIPv4, isDottedQuad, Bool.and_eq_true, decide_eq_true_iff, List.all_eq_true] at h
  obtain ⟨w, x, y, z, parts⟩ := List.length_eq_four.mp h.1
  rw [parts] at h
  refine ⟨_, _, ⟨w, x, y, z, ?_, h.2, rfl⟩, rfl⟩
  rw [← parts, intercalate_splitChars]

theorem dotted_apart (dotted : Dotted text a) : ':' ∉ text ∧ '/' ∉ text := by
  obtain ⟨o, quad, rfl⟩ := dotted
  have shape := quad_shape quad
  refine ⟨quad_no_colon shape, fun inside => ?_⟩
  rcases shape.chars _ inside with part | dot
  · exact absurd part (by decide)
  · exact absurd dot (by decide)

theorem isIP_four (h : isIPv4 text = true) : isIP text = 4 := if_pos h

theorem isIP_six (h : isIPv4 text = false) : width (isIP text) = 128 := by
  rw [isIP, h, if_neg Bool.false_ne_true]
  split <;> first | rfl | (split <;> rfl)

/-- The length of a rule's prefix, from what follows its base. -/
def prefixLength (bound : ℕ) (rest : List (List Char)) : ℕ := rest.head?.elim bound (positional 10)

theorem accepted_ruled (accepted : isValidIpOrCidr rule = true) :
    ∃ base rest, splitChars '/' rule.toList = base :: rest ∧
      Ruled (width (isIP base)) rule base (prefixLength (width (isIP base)) rest) := by
  rw [isValidIpOrCidr] at accepted
  have whole := intercalate_splitChars '/' rule.toList
  split at accepted
  · rename_i ip parts
    rw [parts, List.intercalate_singleton] at whole
    exact ⟨ip, [], parts, le_rfl, .inl ⟨whole.symm, rfl⟩⟩
  · rename_i ip bits parts
    rw [parts, List.intercalate_cons_cons, List.intercalate_singleton] at whole
    rw [Bool.and_eq_true, Bool.and_eq_true, decide_eq_true_iff (p := _ ≤ _)] at accepted
    exact ⟨ip, [bits], parts, accepted.2, .inr ⟨bits, by simpa using whole.symm, accepted.1.2, rfl⟩⟩
  · cases accepted

theorem ruled_split (apart : '/' ∉ base) (ruled : Ruled bound rule base len) :
    ∃ rest, splitChars '/' rule.toList = base :: rest ∧ len = prefixLength bound rest := by
  rcases ruled.2 with ⟨whole, same⟩ | ⟨bits, whole, digits, same⟩
  · exact ⟨[], by rw [whole, splitChars_plain apart], same⟩
  · refine ⟨[bits], ?_, same⟩
    have plain : '/' ∉ bits := by
      intro inside
      rw [isPrefixLength, Bool.and_eq_true, List.all_eq_true] at digits
      exact absurd (digits.2 _ inside) (by decide)
    rw [whole, splitChars_append_cons, splitChars_plain apart, splitChars_plain plain]
    rfl

theorem ruleMatches_four {first : ℕ} {rest : List (List Char)} (parts : splitChars '/' rule.toList = base :: rest)
    (dotted : Dotted text a) (own : Dotted base first) (small : prefixLength 32 rest ≤ 32) :
    ruleMatches text rule = true ↔
      a / 2 ^ (32 - prefixLength 32 rest) = first / 2 ^ (32 - prefixLength 32 rest) := by
  have address := ip4ToInt_dotted dotted
  have start := ip4ToInt_dotted own
  rw [ruleMatches, parts]
  simp only [dotted_isIPv4 dotted, dotted_isIPv4 own, Bool.and_self, if_true, decide_eq_true_iff, address.1, start.1]
  exact and_mask_iff address.2 start.2 small

theorem ruleMatches_text {rest : List (List Char)} (parts : splitChars '/' rule.toList = base :: rest)
    (other : (isIPv4 text && isIPv4 base) = false) : ruleMatches text rule = true ↔ text = base := by
  rw [ruleMatches, parts]
  simp [other]

theorem ruleMatches_dotted (accepted : isValidIpOrCidr rule = true) (dotted : Dotted text a) :
    ruleMatches text rule = true ↔ Covers 32 Dotted rule a := by
  obtain ⟨base, rest, parts, ruled⟩ := accepted_ruled accepted
  have unique : ∀ {base' len first}, Ruled 32 rule base' len → Dotted base' first →
      base' = base ∧ len = prefixLength 32 rest := by
    intro base' len first ruled' own
    obtain ⟨rest', parts', same⟩ := ruled_split (dotted_apart own).2 ruled'
    obtain ⟨rfl, rfl⟩ := List.cons.inj (parts'.symm.trans parts)
    exact ⟨rfl, same⟩
  by_cases family : isIPv4 base = true
  · obtain ⟨first, own⟩ := isIPv4_dotted family
    rw [isIP_four family] at ruled
    rw [ruleMatches_four parts dotted own ruled.1]
    constructor
    · intro same
      exact ⟨base, _, first, ruled, own, same⟩
    · rintro ⟨base', len, first', ruled', own', same⟩
      obtain ⟨rfl, rfl⟩ := unique ruled' own'
      rw [← (ip4ToInt_dotted own).1, (ip4ToInt_dotted own').1]
      exact same
  · rw [ruleMatches_text parts (by rw [Bool.not_eq_true] at family; rw [family, Bool.and_false])]
    constructor
    · rintro rfl
      exact absurd (dotted_isIPv4 dotted) family
    · rintro ⟨base', len, first', ruled', own', same⟩
      obtain ⟨rfl, _⟩ := unique ruled' own'
      exact absurd (dotted_isIPv4 own') family

theorem colon_of_lower {c : Char} (h : c.toLower = ':') : c = ':' := by
  have letters : ∀ i < 26, (Char.ofNat (65 + i)).toLower ≠ ':' := by decide
  by_cases upper : 65 ≤ c.toNat ∧ c.toNat ≤ 90
  · have own := letters (c.toNat - 65) (by omega)
    rw [show 65 + (c.toNat - 65) = c.toNat by omega, Char.ofNat_toNat] at own
    exact absurd h own
  · have plain : c.toLower = c := dif_neg fun h' : c.val ≥ 'A'.val ∧ c.val ≤ 'Z'.val => upper ⟨h'.1, h'.2⟩
    rwa [plain] at h

theorem literal_colon (literal : Literal text a) : ':' ∈ text := by
  obtain ⟨groups, denotes, _⟩ := literal
  by_contra apart
  have lowered : ':' ∉ text.map Char.toLower := by
    intro inside
    obtain ⟨c, hc, same⟩ := List.mem_map.mp inside
    rw [colon_of_lower same] at hc
    exact apart hc
  have read := isIPv6_denotes denotes
  rw [not_isIPv6 lowered] at read
  cases read

theorem literal_not_four (literal : Literal text a) : isIPv4 text = false := by
  rw [← Bool.not_eq_true]
  intro four
  obtain ⟨b, dotted⟩ := isIPv4_dotted four
  exact (dotted_apart dotted).1 (literal_colon literal)

theorem ruleMatches_literal (accepted : isValidIpOrCidr rule = true) (literal : Literal text a) :
    (ruleMatches text rule = true ↔ ruleBase rule = some text) ∧
      (ruleMatches text rule = true → Covers 128 Literal rule a) := by
  obtain ⟨base, rest, parts, ruled⟩ := accepted_ruled accepted
  have four := literal_not_four literal
  rw [ruleMatches_text parts (by rw [four, Bool.false_and]), ruleBase, parts, List.head?_cons, Option.some_inj,
    eq_comm]
  refine ⟨Iff.rfl, ?_⟩
  rintro rfl
  rw [isIP_six four] at ruled
  exact ⟨base, _, a, ruled, literal, rfl⟩

section List
variable {rules : List String}

theorem clean_dotted {client : String} (dotted : Dotted text a)
    (spelled : client.toList = text ∨ client.toList = "::ffff:".toList ++ text) : clean client.toList = text := by
  rcases spelled with bare | mapped
  · rw [bare]
    apply if_neg
    intro start
    have leading := List.isPrefixOf_iff_prefix.mp start
    exact (dotted_apart dotted).1 (leading.subset (by decide))
  · rw [mapped]
    exact if_pos (List.isPrefixOf_iff_prefix.mpr (List.prefix_append _ _))

theorem ipAllowed_any {client : String} (some : rules ≠ []) (filled : client.toList ≠ []) :
    ipAllowed client rules = true ↔ ∃ r ∈ rules, ruleMatches (clean client.toList) r = true := by
  have nonempty : client ≠ "" := fun empty => filled (by rw [empty]; rfl)
  rw [ipAllowed, if_neg some]
  simp only [if_neg nonempty, List.any_eq_true]

/-- An IPv4 client is let in by the ranges that cover it, an IPv6 client by the rule of its text; an empty list
lets everyone in. -/
theorem ipAllowed_correct {rules : List String} (accepted : ∀ r ∈ rules, isValidIpOrCidr r = true) (client : String) :
    (rules = [] → ipAllowed client rules = true) ∧
    (rules ≠ [] → ∀ text a, Dotted text a →
      client.toList = text ∨ client.toList = "::ffff:".toList ++ text →
        (ipAllowed client rules = true ↔ ∃ r ∈ rules, Covers 32 Dotted r a)) ∧
    (rules ≠ [] → ∀ a, Literal client.toList a → ¬ "::ffff:".toList <+: client.toList →
      (ipAllowed client rules = true ↔ ∃ r ∈ rules, ruleBase r = some client.toList) ∧
        (ipAllowed client rules = true → ∃ r ∈ rules, Covers 128 Literal r a)) := by
  refine ⟨fun empty => if_pos empty, fun some text a dotted spelled => ?_, fun some a literal unmapped => ?_⟩
  · have filled : client.toList ≠ [] := by
      intro empty
      obtain ⟨o, quad, _⟩ := dotted
      have dot := (quad_shape quad).dot
      rw [empty] at spelled
      rcases spelled with same | same
      · rw [← same] at dot
        cases dot
      · cases same
    rw [ipAllowed_any some filled, clean_dotted dotted spelled]
    exact exists_congr fun r => and_congr_right fun hr => ruleMatches_dotted (accepted r hr) dotted
  · have filled : client.toList ≠ [] := fun empty => by
      have colon := literal_colon literal
      rw [empty] at colon
      cases colon
    have same : clean client.toList = client.toList :=
      if_neg fun start => unmapped (List.isPrefixOf_iff_prefix.mp start)
    rw [ipAllowed_any some filled, same]
    constructor
    · exact exists_congr fun r => and_congr_right fun hr => (ruleMatches_literal (accepted r hr) literal).1
    · rintro ⟨r, hr, matched⟩
      exact ⟨r, hr, (ruleMatches_literal (accepted r hr) literal).2 matched⟩

/-- An IPv4 client, dotted or dotted after `::ffff:`. -/
def AsFour (client : String) (a : ℕ) : Prop :=
  ∃ text, Dotted text a ∧ (client.toList = text ∨ client.toList = "::ffff:".toList ++ text)

/-- The client's address, as a 32-bit or a 128-bit number, lies in the range of a rule. -/
def InRange (rules : List String) (client : String) : Prop :=
  ∃ r ∈ rules, (∃ a, AsFour client a ∧ Covers 32 Dotted r a) ∨ ∃ a, Literal client.toList a ∧ Covers 128 Literal r a

/-- There are rules, and a client in the range of an IPv6 rule is in that of an IPv4 rule too, or a rule is spelled as
the client without `::ffff:` before it. -/
def HoldsWhen (rules : List String) (client : String) : Prop :=
  rules ≠ [] ∧ ((∃ r ∈ rules, ∃ a, Literal client.toList a ∧ Covers 128 Literal r a) →
    (∃ r ∈ rules, ∃ a, AsFour client a ∧ Covers 32 Dotted r a) ∨
      ∃ r ∈ rules, ruleBase r = some (clean client.toList))

theorem percent_of_lower {c : Char} (h : c.toLower = '%') : c = '%' := by
  have letters : ∀ i < 26, (Char.ofNat (65 + i)).toLower ≠ '%' := by decide
  by_cases upper : 65 ≤ c.toNat ∧ c.toNat ≤ 90
  · have own := letters (c.toNat - 65) (by omega)
    rw [show 65 + (c.toNat - 65) = c.toNat by omega, Char.ofNat_toNat] at own
    exact absurd h own
  · have plain : c.toLower = c := dif_neg fun h' : c.val ≥ 'A'.val ∧ c.val ≤ 'Z'.val => upper ⟨h'.1, h'.2⟩
    rwa [plain] at h

theorem accepted_base (accepted : isValidIpOrCidr rule = true) (same : ruleBase rule = some base) : isIP base ≠ 0 := by
  rw [isValidIpOrCidr] at accepted
  split at accepted
  · rename_i ip parts
    rw [ruleBase, parts, List.head?_cons, Option.some_inj] at same
    exact same ▸ of_decide_eq_true accepted
  · rename_i ip bits parts
    rw [ruleBase, parts, List.head?_cons, Option.some_inj] at same
    rw [Bool.and_eq_true, Bool.and_eq_true] at accepted
    exact same ▸ of_decide_eq_true accepted.1.1
  · cases accepted

theorem standard_ne_nil {client : String} (standard : (∃ a, AsFour client a) ∨ ∃ a, Literal client.toList a) :
    client.toList ≠ [] := by
  intro empty
  rcases standard with ⟨a, text, ⟨o, quad, _⟩, spelled⟩ | ⟨a, literal⟩
  · have dot := (quad_shape quad).dot
    rw [empty] at spelled
    rcases spelled with same | same
    · rw [← same] at dot
      cases dot
    · cases same
  · have colon := literal_colon literal
    rw [empty] at colon
    cases colon

theorem clean_not_four {client : String} (none : ∀ a, ¬ AsFour client a) : isIPv4 (clean client.toList) = false := by
  rw [← Bool.not_eq_true]
  intro four
  obtain ⟨a, dotted⟩ := isIPv4_dotted four
  refine none a ⟨_, dotted, ?_⟩
  unfold clean
  split
  · rename_i start
    obtain ⟨rest, whole⟩ := List.isPrefixOf_iff_prefix.mp start
    right
    rw [← whole]
    rfl
  · exact .inl rfl

theorem splitDouble_mapped {rest : List Char} (single : rest.head? ≠ some ':') :
    splitDouble ("::ffff:".toList ++ rest) = [] :: prepend "ffff:".toList (splitDouble rest) := by
  have colon : splitDouble (':' :: rest) = prepend [':'] (splitDouble rest) := splitDouble_cons fun _ => single
  change [] :: splitDouble ("ffff".toList ++ ':' :: rest) = _
  rw [splitDouble_plain (by decide), colon, prepend_prepend]
  rfl

theorem splitDouble_mapped_more {rest : List Char} :
    splitDouble ("::ffff:".toList ++ ':' :: rest) = [] :: "ffff".toList :: splitDouble rest := by
  change [] :: splitDouble ("ffff".toList ++ ':' :: ':' :: rest) = _
  rw [splitDouble_plain (by decide), splitDouble]
  rfl

/-- What stands behind `::ffff:` in a literal is no literal itself. -/
theorem mapped_no_literal {rest : List Char} (whole : isIPv6 ("::ffff:".toList ++ rest) = true) : isIPv6 rest = false := by
  rw [← Bool.not_eq_true]
  intro own
  by_cases more : rest.head? = some ':'
  · obtain ⟨cs, rfl⟩ : ∃ cs, rest = ':' :: cs := by
      cases rest with
      | nil => cases more
      | cons c cs => exact ⟨cs, by rw [Option.some.inj more]⟩
    rw [isIPv6, splitDouble_mapped_more] at whole
    cases parts : splitDouble cs with
    | nil => exact splitDouble_ne_nil cs parts
    | cons p ps =>
      rw [parts] at whole
      cases whole
  · rw [isIPv6, splitDouble_mapped more] at whole
    cases parts : splitDouble rest with
    | nil => exact splitDouble_ne_nil rest parts
    | cons p ps =>
      cases ps with
      | cons q qs =>
        rw [parts] at whole
        cases whole
      | nil =>
        rw [parts] at whole
        rw [isIPv6, parts] at own
        dsimp only at own
        rw [decide_eq_true_iff] at own
        have ffff : sideCount true ("ffff:".toList ++ p) = some 9 := by
          have split : splitChars ':' ("ffff:".toList ++ p) = "ffff".toList :: splitChars ':' p := by
            change splitChars ':' ("ffff".toList ++ ':' :: p) = _
            rw [splitChars_append_cons, splitChars_plain (by decide)]
            rfl
          rw [sideCount, if_neg (by simp), split]
          cases tail : splitChars ':' p with
          | nil => exact absurd tail (splitChars_ne_nil ':' p)
          | cons w ws =>
            rw [tail] at own
            rw [groupCount.eq_3 _ _ _ (by simp), own]
            rfl
        have none : sideCount false [] = some 0 := rfl
        simp only [prepend, none, ffff] at whole
        cases whole

theorem literal_plain (literal : Literal text a) : '%' ∉ text := by
  obtain ⟨groups, denotes, _⟩ := literal
  intro inside
  have plain := (bare_literal denotes).plain _ (List.mem_map_of_mem inside)
  exact absurd plain (by decide)

/-- A rule is no literal if its base stands behind `::ffff:` in one. -/
theorem mapped_base {rest : List Char} (literal : Literal ("::ffff:".toList ++ rest) a) (other : isIPv4 rest = false) :
    isIP rest = 0 := by
  have plain : '%' ∉ rest.map Char.toLower := by
    intro inside
    obtain ⟨c, hc, same⟩ := List.mem_map.mp inside
    have kept : c = '%' := percent_of_lower same
    exact literal_plain literal (List.mem_append_right _ (kept ▸ hc))
  obtain ⟨groups, denotes, _⟩ := literal
  have whole := isIPv6_denotes denotes
  rw [List.map_append] at whole
  rw [isIP, other, if_neg Bool.false_ne_true, splitChars_plain plain]
  exact if_neg (by rw [mapped_no_literal whole]; exact Bool.false_ne_true)

theorem same_base_matches {rest : List (List Char)} (parts : splitChars '/' rule.toList = base :: rest) :
    ruleMatches base rule = true := by
  rw [ruleMatches, parts]
  dsimp only
  split <;> exact decide_eq_true rfl

theorem dotted_host : Dotted "203.0.113.7".toList 3405803783 :=
  ⟨(203, 0, 113, 7), ⟨"203".toList, "0".toList, "113".toList, "7".toList, rfl, by decide, rfl⟩, rfl⟩

theorem literal_mapped : Literal "::ffff:10.0.0.5".toList (0xffff * 2 ^ 32 + 0x0a000005) :=
  ⟨[0, 0, 0, 0, 0, 0xffff, 0x0a00, 0x0005],
    .gap .nil (.cons (p := "ffff".toList) rfl (.quad (p := "10.0.0.5".toList) rfl
      ⟨"10".toList, "0".toList, "0".toList, "5".toList, rfl, by decide, rfl⟩)) (by decide), by decide⟩

end List

end DataFabric.IpAllowLists
