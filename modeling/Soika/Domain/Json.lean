import Mathlib.Data.Nat.Notation

/-! # JSON values

The values of `serde_json` and the accessors the server reads them with. A number
is an unsigned integer, a negative integer or a float; an object is the list of
its members.
-/

namespace Soika

/-- `serde_json::Number`: a float is kept by its bits, nothing computes with it. -/
inductive Number where
  | posInt (n : UInt64)
  | negInt (n : Int64)
  | float (bits : UInt64)
  deriving DecidableEq

/-- `serde_json::Value`. -/
inductive Value where
  | null
  | bool (b : Bool)
  | number (n : Number)
  | string (s : String)
  | array (elems : List Value)
  | object (members : List (String × Value))

namespace Value

/-- `Value::get` with a string index. -/
def get (v : Value) (key : String) : Option Value :=
  match v with
  | object members => (members.find? fun m => m.1 = key).map Prod.snd
  | _ => none

def asStr : Value → Option String
  | string s => some s
  | _ => none

def asU64 : Value → Option UInt64
  | number (.posInt n) => some n
  | _ => none

def asBool : Value → Option Bool
  | bool b => some b
  | _ => none

def asArray : Value → Option (List Value)
  | array elems => some elems
  | _ => none

def isObject : Value → Bool
  | object _ => true
  | _ => false

end Value

/-- `char::is_whitespace`, the Unicode property `White_Space`. -/
def isWhitespace (c : Char) : Bool :=
  let n := c.toNat
  (9 ≤ n && n ≤ 13) || n = 0x20 || n = 0x85 || n = 0xA0 || n = 0x1680 ||
    (0x2000 ≤ n && n ≤ 0x200A) || n = 0x2028 || n = 0x2029 || n = 0x202F || n = 0x205F || n = 0x3000

/-- `str::trim`. -/
def trim (s : String) : String :=
  String.ofList ((s.toList.dropWhile isWhitespace).reverse.dropWhile isWhitespace).reverse

end Soika
