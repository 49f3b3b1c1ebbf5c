import Mathlib.Tactic.SplitIfs
import Soika.Domain.Stacktrace

/-! # JSON values in the viewer

The same payloads as the browser sees them: `JSON.parse` makes doubles of the numbers, and
`String.prototype.trim`, `Number.parseInt` and `String` follow their own rules.
-/

namespace Soika.Frontend

/-- White space and line terminators: the byte order mark is one, `U+0085` is not. -/
def isWhitespace (c : Char) : Bool :=
  let n := c.toNat
  (9 ≤ n && n ≤ 13) || n = 0x20 || n = 0xA0 || n = 0x1680 || (0x2000 ≤ n && n ≤ 0x200A) ||
    n = 0x2028 || n = 0x2029 || n = 0x202F || n = 0x205F || n = 0x3000 || n = 0xFEFF

/-- `String.prototype.trim`. -/
def trim (s : String) : String :=
  String.ofList ((s.toList.dropWhile isWhitespace).reverse.dropWhile isWhitespace).reverse

/-- The double next to a natural number, ties to even. -/
def roundNat (n : ℕ) : ℕ :=
  let excess := n.log2 + 1 - 53
  let unit := 2 ^ excess
  let quotient := n / unit
  if unit < 2 * (n % unit) ∨ unit = 2 * (n % unit) ∧ quotient % 2 = 1 then (quotient + 1) * unit
  else quotient * unit

/-- The double next to an integer; none where it is infinite. -/
def double (n : ℤ) : Option ℤ :=
  if 2 ^ 1024 ≤ roundNat n.natAbs then none
  else some (if n < 0 then -(roundNat n.natAbs : ℤ) else roundNat n.natAbs)

/-- `Math.trunc` of a float given by its bits; none where it is not finite. -/
def truncDouble (bits : UInt64) : Option ℤ :=
  let negative := bits.toNat / 2 ^ 63 = 1
  let exponent := bits.toNat / 2 ^ 52 % 2 ^ 11
  let fraction := bits.toNat % 2 ^ 52
  if exponent = 2047 then none
  else
    let magnitude : ℕ :=
      if exponent = 0 then 0
      else if 1075 ≤ exponent then (2 ^ 52 + fraction) * 2 ^ (exponent - 1075)
      else (2 ^ 52 + fraction) / 2 ^ (1075 - exponent)
    some (if negative then -(magnitude : ℤ) else magnitude)

/-- `Math.trunc` of a parsed number. -/
def truncNumber : Number → Option ℤ
  | .posInt n => double n.toNat
  | .negInt n => double n.toInt
  | .float bits => truncDouble bits

def decimal (digits : List Char) : ℕ :=
  digits.foldl (fun n c => n * 10 + (c.toNat - '0'.toNat)) 0

/-- The integer that `Number.parseInt(s, 10)` reads from the front of a text; none for NaN. -/
def parseInt (s : String) : Option ℤ :=
  let (negative, rest) := match s.toList.dropWhile isWhitespace with
    | '-' :: rest => (true, rest)
    | '+' :: rest => (false, rest)
    | rest => (false, rest)
  match rest.takeWhile Char.isDigit with
  | [] => none
  | digits => double (if negative then -(decimal digits : ℤ) else decimal digits)

/-- `String(n)` of an integer; that of a large one has the digits of its shortest form. -/
def integerText (largeText : ℤ → String) (n : ℤ) : String :=
  if n.natAbs ≤ 2 ^ 53 then toString n else largeText n

def asObject : Option Value → Option Value
  | some (.object members) => some (.object members)
  | _ => none

/-- `obj[key]` of an object; no member that is read has the name of one that all objects inherit. -/
def prop (obj : Option Value) (key : String) : Option Value := obj.bind fun v => v.get key

theorem prop_asObject (v : Value) (key : String) : prop (asObject (some v)) key = v.get key := by
  cases v <;> rfl

/-- `Array.isArray` -/
def asArray (value : Option Value) : Option (List Value) := value.bind Value.asArray

def trimmed (s : String) : Option String := if trim s = "" then none else some (trim s)

def stringField (obj : Option Value) (key : String) : Option String :=
  match prop obj key with
  | some (.string s) => trimmed s
  | _ => none

def intField (obj : Option Value) (key : String) : Option ℤ :=
  match prop obj key with
  | some (.number n) => truncNumber n
  | some (.string s) => parseInt (trim s)
  | _ => none

def stringArray (obj : Option Value) (key : String) : List String :=
  match asArray (prop obj key) with
  | some elems => elems.filterMap Value.asStr
  | none => []

end Soika.Frontend
