import Mathlib.Data.Nat.Digits.Defs
import DataFabric.CharText
import DataFabric.Doubles

set_option autoImplicit false

/-!
# The classes of outbound hosts

The outbound-target guard reads a host as an IPv6 literal or as one of the loose spellings of an IPv4
address before it looks at the ranges.
-/
namespace DataFabric.NetGuard
open CharText Doubles

inductive HostClass | metadata | loopback | privateRange | publicRange
  deriving DecidableEq, Repr

abbrev Octets := ℕ × ℕ × ℕ × ℕ

/-- `toLowerCase`, exact wherever the result is compared with ASCII: besides the capitals only the Kelvin
sign becomes a letter of it. -/
def lowerChar (c : Char) : Char := if c.toNat = 0x212A then 'k' else c.toLower

def lower (s : String) : List Char := s.toList.map lowerChar

def isHexDigit (c : Char) : Bool := c.isDigit || ('a' ≤ c && c ≤ 'f')

def isOctalDigit (c : Char) : Bool := '0' ≤ c && c ≤ '7'

def digitOf (c : Char) : ℕ := if c.isDigit then c.toNat - 48 else c.toNat - 87

def positional (base : ℕ) (ds : List Char) : ℕ := Nat.ofDigits base (ds.reverse.map digitOf)

def infinity : ℕ := 2 ^ 1024 - 2 ^ 970

def parseInt (base : ℕ) (ds : List Char) : Option ℕ :=
  if positional base ds < infinity then some (toDouble (positional base ds)).toNat else none

def hexRe : List Char → Bool
  | '0' :: 'x' :: d :: ds => (d :: ds).all isHexDigit
  | _ => false

def octalRe : List Char → Bool
  | '0' :: d :: ds => (d :: ds).all isOctalDigit
  | _ => false

def decimalRe : List Char → Bool
  | [] => false
  | d :: ds => d.isDigit && ds.all Char.isDigit && (d ≠ '0' || ds = [])

def parsePart (p : List Char) : Option ℕ :=
  if hexRe p then parseInt 16 (p.drop 2)
  else if octalRe p then parseInt 8 p
  else if decimalRe p then parseInt 10 p
  else none

/-- `[Math.floor(value / 2 ** 24) & 255, (value >>> 16) & 255, (value >>> 8) & 255, value & 255]` -/
def octets (value : ℕ) : Octets :=
  (value / 2 ^ 24 &&& 255, value >>> 16 &&& 255, value >>> 8 &&& 255, value &&& 255)

def assemble (nums : List ℕ) : Option Octets :=
  let last := nums.getLastD 0
  let lead := nums.dropLast
  if lead.any (255 < ·) then none
  else if 2 ^ (8 * (5 - nums.length)) ≤ last then none
  else some (octets (last + (lead.zipIdx.map fun n => n.1 * 2 ^ (8 * (3 - n.2))).sum))

def isLoose (c : Char) : Bool := isHexDigit c || c = 'x' || c = '.'

def parseIPv4Chars (h : List Char) : Option Octets :=
  if h = [] || h.any (!isLoose ·) then none
  else
    let parts := splitChars '.' h
    if 4 < parts.length || parts.any (· = []) then none
    else (parts.mapM parsePart).bind assemble

def parseIPv4Loose (host : String) : Option Octets := parseIPv4Chars (lower (trim host))

def classifyV4 : Octets → HostClass
  | (a, b, c, d) =>
    if a = 169 && b = 254 then .metadata
    else if a = 100 && b = 100 && c = 100 && d = 200 then .metadata
    else if a = 127 || a = 0 then .loopback
    else if a = 10 || (a = 172 && 16 ≤ b && b ≤ 31) || (a = 192 && b = 168) || (a = 100 && 64 ≤ b && b ≤ 127) then
      .privateRange
    else .publicRange

def stripBrackets (h : List Char) : List Char :=
  if h.head? = some '[' && h.getLast? = some ']' then (h.drop 1).dropLast else h

def isSegment (p : List Char) : Bool := p ≠ [] && p.length ≤ 4 && p.all isHexDigit

def isOctet (p : List Char) : Bool := decimalRe p && positional 10 p ≤ 255

def isDottedQuad (p : List Char) : Bool := (splitChars '.' p).length = 4 && (splitChars '.' p).all isOctet

def splitDouble : List Char → List (List Char)
  | ':' :: ':' :: cs => [] :: splitDouble cs
  | c :: cs =>
    match splitDouble cs with
    | [] => [[c]]
    | part :: parts => (c :: part) :: parts
  | [] => [[]]

/-- How many groups of 16 bits the parts stand for; only the last may be a dotted address. -/
def groupCount (dotted : Bool) : List (List Char) → Option ℕ
  | [] => none
  | [p] => if isSegment p then some 1 else if dotted && isDottedQuad p then some 2 else none
  | p :: ps => if isSegment p then (groupCount dotted ps).map (· + 1) else none

def sideCount (dotted : Bool) (side : List Char) : Option ℕ :=
  if side = [] then some 0 else groupCount dotted (splitChars ':' side)

def isIPv6 (h : List Char) : Bool :=
  match splitDouble h with
  | [whole] => groupCount true (splitChars ':' whole) = some 8
  | [head, tail] =>
    match sideCount false head, sideCount true tail with
    | some n, some m => n + m ≤ 7
    | _, _ => false
  | _ => false

def hexChar (d : ℕ) : Char := Char.ofNat (if d < 10 then 48 + d else 87 + d)

def hexText (n : ℕ) : List Char := if n = 0 then ['0'] else (Nat.digits 16 n).reverse.map hexChar

def replaceFirst (needle fresh : List Char) : List Char → List Char
  | [] => if needle = [] then fresh else []
  | c :: cs => if needle.isPrefixOf (c :: cs) then fresh ++ (c :: cs).drop needle.length else c :: replaceFirst needle fresh cs

def dottedRe (t : List Char) : Bool :=
  (splitChars '.' t).length = 4 && (splitChars '.' t).all fun p => p ≠ [] && p.all Char.isDigit

def quadGroups (t : List Char) : List Char :=
  match (splitChars '.' t).map (positional 10) with
  | [a, b, c, d] => hexText (a <<< 8 ||| b) ++ ':' :: hexText (c <<< 8 ||| d)
  | _ => []

def expandTail (h : List Char) : List Char :=
  match h.tails.find? dottedRe with
  | some t => replaceFirst t (quadGroups t) h
  | none => h

def sideParts (side : List Char) : List (List Char) := if side = [] then [] else splitChars ':' side

def hextet (x : List Char) : ℕ := if x = [] then 0 else positional 16 x

def hextets (h : List Char) : List ℕ :=
  match splitDouble h with
  | [] => []
  | [head] => (sideParts head).map hextet
  | head :: tail :: _ =>
    ((sideParts head) ++ List.replicate (8 - (sideParts head).length - (sideParts tail).length) ['0'] ++
      sideParts tail).map hextet

def parseIPv6 (host : String) : Option (List ℕ) :=
  let h := (splitChars '%' (stripBrackets (lower (trim host)))).headD []
  if !isIPv6 h then none
  else if (hextets (expandTail h)).length = 8 then some (hextets (expandTail h))
  else none

def classifyV6 (v6 : List ℕ) : HostClass :=
  let group i := v6.getD i 0
  if (v6.take 7).all (· = 0) && (group 7 = 0 || group 7 = 1) then .loopback
  else if (v6.take 5).all (· = 0) && group 5 = 0xffff then
    classifyV4 (group 6 >>> 8, group 6 &&& 255, group 7 >>> 8, group 7 &&& 255)
  else if group 0 &&& 0xffc0 = 0xfe80 then .metadata
  else if group 0 = 0xfd00 && group 1 = 0x0ec2 then .metadata
  else if group 0 &&& 0xfe00 = 0xfc00 then .privateRange
  else .publicRange

def metadataHosts : List String :=
  ["metadata.google.internal", "metadata", "metadata.goog", "instance-data", "instance-data.ec2.internal",
    "kubernetes.default", "kubernetes.default.svc"]

def localNames : List String := ["localhost", "localhost.localdomain", "ip6-localhost", "ip6-loopback"]

def stripDot (h : List Char) : List Char := if h.getLast? = some '.' then h.dropLast else h

def classifyHost (rawHost : String) : HostClass :=
  let host := stripDot (stripBrackets (lower (trim rawHost)))
  if host = [] then .loopback
  else if host ∈ metadataHosts.map String.toList then .metadata
  else if host ∈ localNames.map String.toList || ".localhost".toList.isSuffixOf host then .loopback
  else
    match parseIPv6 (String.ofList host) with
    | some v6 => classifyV6 v6
    | none =>
      match parseIPv4Loose (String.ofList host) with
      | some v4 => classifyV4 v4
      | none => .publicRange

end DataFabric.NetGuard
