import Mathlib.Data.Rat.Defs

set_option autoImplicit false

/-! # The values a request, a catalog row or a source row is made of -/
namespace DataFabric.JsValues

inductive Primitive
  | undefined
  | null
  | boolean (b : Bool)
  | number (q : ℚ)
  | string (s : String)
  deriving DecidableEq, Repr

/-- A JSON value, `undefined` included for an absent property. -/
inductive JsValue
  | prim (p : Primitive)
  | arr (vs : List JsValue)
  | obj (fields : List (String × JsValue))
  deriving Repr

namespace JsValue

@[match_pattern] abbrev undefined : JsValue := .prim .undefined
@[match_pattern] abbrev null : JsValue := .prim .null
@[match_pattern] abbrev bool (b : Bool) : JsValue := .prim (.boolean b)
@[match_pattern] abbrev num (q : ℚ) : JsValue := .prim (.number q)
@[match_pattern] abbrev str (s : String) : JsValue := .prim (.string s)

mutual

def decEq : (v w : JsValue) → Decidable (v = w)
  | .prim p, .prim q =>
    if h : p = q then isTrue (h ▸ rfl) else isFalse fun e => h (JsValue.prim.inj e)
  | .arr vs, .arr ws =>
    match decEqList vs ws with
    | isTrue h => isTrue (h ▸ rfl)
    | isFalse h => isFalse fun e => h (JsValue.arr.inj e)
  | .obj fs, .obj gs =>
    match decEqFields fs gs with
    | isTrue h => isTrue (h ▸ rfl)
    | isFalse h => isFalse fun e => h (JsValue.obj.inj e)
  | .prim _, .arr _ | .prim _, .obj _ | .arr _, .prim _
  | .arr _, .obj _ | .obj _, .prim _ | .obj _, .arr _ => isFalse nofun

def decEqList : (vs ws : List JsValue) → Decidable (vs = ws)
  | [], [] => isTrue rfl
  | v :: vs, w :: ws =>
    match decEq v w, decEqList vs ws with
    | isTrue h, isTrue hs => isTrue (h ▸ hs ▸ rfl)
    | isFalse h, _ => isFalse fun e => h (List.cons.inj e).1
    | _, isFalse hs => isFalse fun e => hs (List.cons.inj e).2
  | [], _ :: _ | _ :: _, [] => isFalse nofun

def decEqFields : (fs gs : List (String × JsValue)) → Decidable (fs = gs)
  | [], [] => isTrue rfl
  | (k, v) :: fs, (l, w) :: gs =>
    match decEq v w, decEqFields fs gs with
    | isTrue h, isTrue hs =>
      if hk : k = l then isTrue (hk ▸ h ▸ hs ▸ rfl)
      else isFalse fun e => hk (Prod.mk.inj (List.cons.inj e).1).1
    | isFalse h, _ => isFalse fun e => h (Prod.mk.inj (List.cons.inj e).1).2
    | _, isFalse hs => isFalse fun e => hs (List.cons.inj e).2
  | [], _ :: _ | _ :: _, [] => isFalse nofun

end

instance : DecidableEq JsValue := decEq

def truthy : JsValue → Bool
  | .undefined | .null => false
  | .bool b => b
  | .num q => q ≠ 0
  | .str s => s ≠ ""
  | .arr _ | .obj _ => true

def isNullish : JsValue → Bool
  | .undefined | .null => true
  | _ => false

/-- `v.key`, `undefined` on a missing field and on anything but an object. -/
def get (v : JsValue) (key : String) : JsValue :=
  match v with
  | .obj fields => (fields.lookup key).getD .undefined
  | _ => .undefined

/-- The digits after the decimal point, at most `n` of them. -/
def fractionDigits (den : ℕ) : ℕ → ℕ → List Char
  | 0, _ => []
  | n + 1, rem =>
    if rem = 0 then []
    else Nat.digitChar (10 * rem / den) :: fractionDigits den n (10 * rem % den)

/-- `String(n)` of a number written with at most 17 decimals. -/
def numberText (q : ℚ) : String :=
  let whole := toString (q.num.natAbs / q.den)
  let sign := if q < 0 then "-" else ""
  if q.den = 1 then sign ++ whole
  else sign ++ whole ++ "." ++ String.ofList (fractionDigits q.den 17 (q.num.natAbs % q.den))

def primText : Primitive → String
  | .undefined => "undefined"
  | .null => "null"
  | .boolean b => if b then "true" else "false"
  | .number q => numberText q
  | .string s => s

mutual

def text : JsValue → String
  | .prim p => primText p
  | .arr vs => ",".intercalate (elementTexts vs)
  | .obj _ => "[object Object]"

def elementTexts : List JsValue → List String
  | [] => []
  | v :: vs => (if isNullish v then "" else text v) :: elementTexts vs

end

def isObj : JsValue → Bool
  | .obj _ => true
  | _ => false

def elements : JsValue → List JsValue
  | .arr vs => vs
  | _ => []

def isArray : JsValue → Bool
  | .arr _ => true
  | _ => false

end JsValue

end DataFabric.JsValues
