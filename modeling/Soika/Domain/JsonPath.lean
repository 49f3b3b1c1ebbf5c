import Soika.Domain.Json

/-! # Paths into JSON values -/

namespace Soika

/-- A step into a value: to a member of an object, or to an element of an array. -/
inductive Segment where
  | key (key : String)
  | index (i : ℕ)
  deriving DecidableEq

namespace Value

def child (v : Value) : Segment → Option Value
  | .key key => v.get key
  | .index i => v.asArray.bind fun elems => elems[i]?

def atPath (v : Value) : List Segment → Option Value
  | [] => some v
  | segment :: path => (v.child segment).bind fun u => u.atPath path

@[simp] theorem atPath_nil (v : Value) : v.atPath [] = some v := rfl

theorem atPath_key (v : Value) (key : String) (path : List Segment) :
    v.atPath (.key key :: path) = (v.get key).bind fun u => u.atPath path := rfl

theorem atPath_index (elems : List Value) (i : ℕ) (path : List Segment) :
    (array elems).atPath (.index i :: path) = elems[i]?.bind fun u => u.atPath path := rfl

theorem atPath_cons_eq_none {v : Value} (hobject : v.isObject = false) (harray : v.asArray = none)
    (segment : Segment) (path : List Segment) : v.atPath (segment :: path) = none := by
  cases segment with
  | key key =>
    cases v with
    | object members => cases hobject
    | _ => rfl
  | index i => simp [atPath, child, harray]

end Value

end Soika
