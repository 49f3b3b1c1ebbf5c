import Soika.Frontend.Values

/-! # The viewer's reading of an event

The display-relevant slice of a payload, as the issue page takes it out by itself.
-/

namespace Soika.Frontend

def parseFrame (raw : Value) : Frame :=
  let obj := asObject (some raw)
  { module := stringField obj "module"
    function := stringField obj "function"
    filename := stringField obj "filename"
    absPath := stringField obj "abs_path"
    lineno := intField obj "lineno"
    colno := intField obj "colno"
    inApp := (prop obj "in_app").bind Value.asBool
    contextLine := stringField obj "context_line"
    preContext := stringArray obj "pre_context"
    postContext := stringArray obj "post_context" }

def parseStacktrace (raw : Option Value) : Option Stacktrace :=
  match asObject raw with
  | none => none
  | some obj =>
    match asArray (prop (some obj) "frames") with
    | none => none
    | some frames =>
      if (frames.map parseFrame).length = 0 then none else some ⟨frames.map parseFrame⟩

/-- `asObject(…)?.stacktrace` of an exception or a thread. -/
def stacktraceOf (raw : Value) : Option Stacktrace :=
  parseStacktrace (prop (asObject (some raw)) "stacktrace")

def parseException (raw : Value) : ExceptionValue :=
  let obj := asObject (some raw)
  { ty := stringField obj "type"
    value := stringField obj "value"
    module := stringField obj "module"
    stacktrace := stacktraceOf raw }

def parseExceptions (payload : Option Value) : List ExceptionValue :=
  match asArray (prop (asObject (prop payload "exception")) "values") with
  | some values => values.map parseException
  | none => []

def threadStacktrace (payload : Option Value) : Option Stacktrace :=
  match asArray (prop (asObject (prop payload "threads")) "values") with
  | none => none
  | some threads =>
    let crashed := threads.find? fun t =>
      (prop (asObject (some t)) "crashed").bind Value.asBool = some true
    (crashed.toList ++ threads).findSome? stacktraceOf

def resolveStacktrace (payload : Option Value) (exceptions : List ExceptionValue) :
    Option Stacktrace :=
  match exceptions.getLast?.bind (·.stacktrace) with
  | some st => some st
  | none =>
    match exceptions.findSome? (·.stacktrace) with
    | some st => some st
    | none =>
      match threadStacktrace payload with
      | some st => some st
      | none => parseStacktrace (prop payload "stacktrace")

def messageObject (obj : Option Value) : Option String :=
  (stringField obj "formatted").or (stringField obj "message")

/-- A message from `message` (string or object) or `logentry`; a blank string is passed over. -/
def parseMessage (payload : Option Value) : Option String :=
  let fromString := match prop payload "message" with
    | some (.string s) => trimmed s
    | _ => none
  fromString.or <| (messageObject (asObject (prop payload "message"))).or
    (messageObject (asObject (prop payload "logentry")))

structure ParsedEvent where
  exceptionType : Option String
  exceptionValue : Option String
  message : Option String
  level : Option String
  stacktrace : Option Stacktrace

/-- Parse the display-relevant slice of a raw event payload. -/
def parseEvent (payload : Value) : ParsedEvent :=
  let obj := asObject (some payload)
  let exceptions := parseExceptions obj
  let thrown := exceptions.getLast?
  { exceptionType := thrown.bind (·.ty)
    exceptionValue := thrown.bind (·.value)
    message := parseMessage obj
    level := stringField obj "level"
    stacktrace := resolveStacktrace obj exceptions }

def isInApp (frame : Frame) : Bool := frame.inApp = some true

def frameFile (frame : Frame) : Option String := frame.filename.or frame.absPath

/-- A field that is set and not empty, as a condition takes it. -/
def truthy (field : Option String) : Option String := field.filter (· ≠ "")

def frameLocation (largeText : ℤ → String) (frame : Frame) : Option String :=
  match truthy frame.function with
  | some function =>
    match truthy frame.module with
    | some module => some (module ++ " in " ++ function)
    | none =>
      match truthy (frameFile frame) with
      | some file => some (file ++ " in " ++ function)
      | none => some function
  | none =>
    match truthy (frameFile frame) with
    | some file =>
      match frame.lineno with
      | none => some file
      | some line => some (file ++ ":" ++ integerText largeText line)
    | none => frame.module

/-- The most relevant frame: the last in-app frame, else the last frame overall. -/
def mostRelevantFrame (stacktrace : Stacktrace) : Option Frame :=
  match stacktrace.frames.reverse.find? isInApp with
  | some frame => some frame
  | none => stacktrace.frames.getLast?

end Soika.Frontend
