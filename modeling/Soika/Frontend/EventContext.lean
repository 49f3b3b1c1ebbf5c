import Soika.Frontend.Values

/-! # The tags that the viewer shows -/

namespace Soika.Frontend

/-- How the browser prints the numbers that are not small integers. -/
structure Printer where
  largeText : ℤ → String
  floatText : UInt64 → String

/-- `String(n)` of a parsed number. -/
def numberText (print : Printer) : Number → String
  | .posInt n => ((double n.toNat).map (integerText print.largeText)).getD "Infinity"
  | .negInt n => ((double n.toInt).map (integerText print.largeText)).getD "-Infinity"
  | .float bits => print.floatText bits

def str (print : Printer) : Option Value → Option String
  | some (.string s) => trimmed s
  | some (.number n) => some (numberText print n)
  | some (.bool b) => some (toString b)
  | _ => none

mutual

/-- `String(value)`; none where it throws, at an object that hides the inherited `toString`. -/
def stringOf (print : Printer) : Value → Option String
  | .null => some "null"
  | .bool b => some (toString b)
  | .number n => some (numberText print n)
  | .string s => some s
  | .array elems => (joined print elems).map (String.intercalate ",")
  | .object members =>
    if members.any fun m => m.1 = "toString" then none else some "[object Object]"

/-- The texts that `join` puts between its commas. -/
def joined (print : Printer) : List Value → Option (List String)
  | [] => some []
  | elem :: elems => do
    let text ← match elem with
      | .null => some ""
      | _ => stringOf print elem
    let texts ← joined print elems
    return text :: texts

end

structure KeyValue where
  key : String
  value : String
  deriving DecidableEq

/-- The row of an entry of the array form; the outer none is a throw. -/
def tagRow (print : Printer) : Value → Option (Option KeyValue)
  | .array [key, value] =>
    (stringOf print key).map fun key => some ⟨key, (str print (some value)).getD ""⟩
  | .object members =>
    let obj := some (Value.object members)
    some (some ⟨(str print (prop obj "key")).getD "", (str print (prop obj "value")).getD ""⟩)
  | _ => some none

/-- Normalize `tags` to rows; none where it throws. -/
def extractTags (print : Printer) : Option Value → Option (List KeyValue)
  | some (.object members) =>
    some ((members.map fun m => ⟨m.1, (str print (some m.2)).getD ""⟩).filter
      fun t => t.value ≠ "")
  | some (.array entries) => do
    let rows ← entries.mapM (tagRow print)
    return (rows.filterMap id).filter fun t => t.key ≠ "" ∧ t.value ≠ ""
  | _ => some []

end Soika.Frontend
