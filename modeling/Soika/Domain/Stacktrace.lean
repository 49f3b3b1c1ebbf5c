import Soika.Domain.Event

/-! # Normalizing an event payload

What grouping and display take from a raw payload: the exception that was thrown,
the message, one stack trace out of the places an SDK may put it, and the
fingerprint of the client.
-/

namespace Soika

/-- Trim a string and return `none` when it is empty. -/
def nonEmpty (s : String) : Option String :=
  let trimmed := trim s
  if trimmed = "" then none else some trimmed

def stringField (value : Value) (key : String) : Option String :=
  ((value.get key).bind Value.asStr).bind nonEmpty

/-- The strings of an array field; entries that are not strings are skipped. -/
def stringArray (value : Value) (key : String) : List String :=
  match (value.get key).bind Value.asArray with
  | some arr => arr.filterMap Value.asStr
  | none => []

/-- `f as i64` of a float given by its bits: towards zero, saturating, 0 for NaN. -/
def truncF64 (bits : UInt64) : ℤ :=
  let negative := bits.toNat / 2 ^ 63 = 1
  let exponent := bits.toNat / 2 ^ 52 % 2 ^ 11
  let fraction := bits.toNat % 2 ^ 52
  if exponent = 2047 ∧ fraction ≠ 0 then 0
  else
    let magnitude : ℕ :=
      if exponent = 0 then 0
      else if 1075 ≤ exponent then (2 ^ 52 + fraction) * 2 ^ (exponent - 1075)
      else (2 ^ 52 + fraction) / 2 ^ (1075 - exponent)
    if negative then max i64Min (-(magnitude : ℤ)) else min i64Max magnitude

/-- `str::parse::<i64>`. -/
def parseI64 (s : String) : Option ℤ :=
  let (negative, digits) := match s.toList with
    | '-' :: digits => (true, digits)
    | '+' :: digits => (false, digits)
    | digits => (false, digits)
  if digits = [] ∨ ¬ digits.all Char.isDigit then none
  else
    let magnitude : ℕ := digits.foldl (fun n c => n * 10 + (c.toNat - '0'.toNat)) 0
    let n := if negative then -(magnitude : ℤ) else magnitude
    if i64Min ≤ n ∧ n ≤ i64Max then some n else none

def intField (value : Value) (key : String) : Option ℤ := do
  match ← value.get key with
  | .number (.posInt n) => return min i64Max n.toNat
  | .number (.negInt n) => return n.toInt
  | .number (.float bits) => return truncF64 bits
  | .string s => parseI64 (trim s)
  | _ => none

namespace Frame

/-- Only an explicit `true` counts as in-app. -/
def isInApp (frame : Frame) : Bool := frame.inApp = some true

/-- The most specific file label: `filename`, else `abs_path`. -/
def displayFile (frame : Frame) : Option String :=
  (frame.filename.filter (· ≠ "")).or (frame.absPath.filter (· ≠ ""))

/-- A location for display, such as `module in function` or `filename:lineno`. -/
def location (frame : Frame) : Option String :=
  match frame.function.filter (· ≠ "") with
  | some function =>
    match frame.module.filter (· ≠ "") with
    | some module => some (module ++ " in " ++ function)
    | none =>
      match frame.displayFile with
      | some file => some (file ++ " in " ++ function)
      | none => some function
  | none =>
    match frame.displayFile with
    | some file =>
      match frame.lineno with
      | some line => some (file ++ ":" ++ toString line)
      | none => some file
    | none => frame.module.filter (· ≠ "")

end Frame

def parseFrame (value : Value) : Frame where
  module := stringField value "module"
  function := stringField value "function"
  filename := stringField value "filename"
  absPath := stringField value "abs_path"
  lineno := intField value "lineno"
  colno := intField value "colno"
  inApp := (value.get "in_app").bind Value.asBool
  contextLine := stringField value "context_line"
  preContext := stringArray value "pre_context"
  postContext := stringArray value "post_context"

namespace Stacktrace

/-- A stack trace from its raw value, an object with an array `frames`. -/
def fromValue (value : Value) : Stacktrace :=
  match (value.get "frames").bind Value.asArray with
  | some arr => ⟨arr.map parseFrame⟩
  | none => ⟨[]⟩

def isEmpty (stacktrace : Stacktrace) : Bool := stacktrace.frames.isEmpty

def inAppFrames (stacktrace : Stacktrace) : List Frame := stacktrace.frames.filter Frame.isInApp

def mostRelevantFrame (stacktrace : Stacktrace) : Option Frame :=
  (stacktrace.frames.reverse.find? Frame.isInApp).or stacktrace.frames.getLast?

end Stacktrace

/-- The `stacktrace` of an exception, a thread or the payload itself, where it is an object. -/
def stacktraceField (value : Value) : Option Stacktrace :=
  ((value.get "stacktrace").filter Value.isObject).map Stacktrace.fromValue

/-- The array `values` of an object field. -/
def valuesField (event : Value) (key : String) : Option (List Value) :=
  ((event.get key).bind (·.get "values")).bind Value.asArray

structure ExceptionValue where
  ty : Option String
  value : Option String
  module : Option String
  stacktrace : Option Stacktrace

def parseException (value : Value) : ExceptionValue where
  ty := stringField value "type"
  value := stringField value "value"
  module := stringField value "module"
  stacktrace := stacktraceField value

/-- All `exception.values[]`, in payload order. -/
def parseExceptions (event : Value) : List ExceptionValue :=
  match valuesField event "exception" with
  | some values => values.map parseException
  | none => []

/-- `Some(st)` only if it has frames. -/
def withFrames (stacktrace : Option Stacktrace) : Option Stacktrace :=
  stacktrace.filter fun st => ¬ st.isEmpty

def threadStacktrace (event : Value) : Option Stacktrace := do
  let values ← valuesField event "threads"
  let crashed := values.find? fun t => (t.get "crashed").bind Value.asBool = some true
  let candidates := crashed.toList ++ values
  candidates.findSome? fun thread => withFrames (stacktraceField thread)

/-- The stack trace to use: of the thrown exception, of any exception, of a thread, or the
top-level one. -/
def resolveStacktrace (event : Value) (exceptions : List ExceptionValue) : Option Stacktrace :=
  (withFrames (exceptions.getLast?.bind (·.stacktrace))).or <|
    (exceptions.findSome? fun exc => withFrames exc.stacktrace).or <|
      (withFrames (threadStacktrace event)).or (withFrames (stacktraceField event))

/-- `formatted` (preferred) or `message` of a message object. -/
def messageObject (value : Value) : Option String :=
  (stringField value "formatted").or (stringField value "message")

/-- The log message: `message` as a string or an object, or else `logentry`. -/
def parseMessage (event : Value) : Option String :=
  match event.get "message" with
  | none => (event.get "logentry").bind messageObject
  | some msg =>
    match msg.asStr with
    | some s => nonEmpty s
    | none => (messageObject msg).or ((event.get "logentry").bind messageObject)

namespace NormalizedEvent

/-- Parse and normalize a raw event payload. -/
def fromValue (event : Value) : NormalizedEvent :=
  let exceptions := parseExceptions event
  -- The thrown exception is the last one.
  let thrown := exceptions.getLast?
  { exceptionType := thrown.bind (·.ty)
    exceptionValue := thrown.bind (·.value)
    message := parseMessage event
    level := stringField event "level"
    stacktrace := resolveStacktrace event exceptions
    fingerprint := stringArray event "fingerprint" }

/-- The SDK supplied an explicit custom fingerprint. -/
def hasCustomFingerprint (event : NormalizedEvent) : Bool := ¬ event.fingerprint.isEmpty

end NormalizedEvent

end Soika
