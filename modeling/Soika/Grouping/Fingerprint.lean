import Soika.Grouping.Normalize
import Soika.Grouping.Pipeline
import Soika.Library.Separated

/-! # Fingerprint, title and culprit

The key an event is grouped by: the fingerprint of the client, or material derived
from exception type, in-app frames and texts, hashed; and the title and culprit an
issue shows.
-/

namespace Soika

open Separated

def hexDigits (hash : UInt64) : List Char :=
  (List.range 16).map fun i => Nat.digitChar (hash.toNat / 16 ^ (15 - i) % 16)

/-- 64-bit FNV-1a of the UTF-8 bytes, in hex. -/
def hashHex (input : String) : String :=
  let hash := (input.toList.flatMap String.utf8EncodeChar).foldl
    (fun hash byte => (hash ^^^ byte.toUInt64) * 0x100000001b3) (0xcbf29ce484222325 : UInt64)
  String.ofList (hexDigits hash)

def groupingFrameSignatures (stacktrace : Stacktrace) : List String :=
  let inApp := stacktrace.inAppFrames
  let frames := if inApp.isEmpty then stacktrace.frames else inApp
  (frames.filterMap frameSignature).map ("frame:" ++ ·)

def typeComponents (event : NormalizedEvent) : List String :=
  match event.exceptionType.filter (· ≠ "") with
  | some ty => ["type:" ++ normalizeType ty]
  | none => []

def frameComponents (event : NormalizedEvent) : List String :=
  match event.stacktrace with
  | some st => groupingFrameSignatures st
  | none => []

/-- The message, or else the exception value, as a last resort. -/
def textComponents (event : NormalizedEvent) : List String :=
  match event.message.filter (· ≠ "") with
  | some msg => ["message:" ++ normalizeMessage msg]
  | none =>
    match event.exceptionValue.filter (· ≠ "") with
    | some val => ["value:" ++ normalizeMessage val]
    | none => []

def defaultMaterial (event : NormalizedEvent) : String :=
  let components := typeComponents event ++ frameComponents event
  "\n".intercalate (if components.isEmpty then textComponents event else components)

def defaultPlaceholder : String := "\x7b\x7b default \x7d\x7d"
def defaultPlaceholderTight : String := "\x7b\x7bdefault\x7d\x7d"

def isPlaceholder (component : String) : Bool :=
  let trimmed := trim component
  trimmed = defaultPlaceholder || trimmed = defaultPlaceholderTight

def expandComponents (event : NormalizedEvent) : List String :=
  event.fingerprint.map fun component =>
    if isPlaceholder component then defaultMaterial event else component

/-- The control character between the components of a custom fingerprint. -/
def separator : Char := Char.ofNat 0x1f

def customMaterial (event : NormalizedEvent) : String :=
  let defaultMaterial := defaultMaterial event
  let parts := expandComponents event
  -- A lone placeholder must equal the default fingerprint exactly.
  if parts = [defaultMaterial] then defaultMaterial
  else (String.singleton separator).intercalate parts

def customFingerprint (event : NormalizedEvent) : String := hashHex (customMaterial event)

def defaultFingerprint (event : NormalizedEvent) : String := hashHex (defaultMaterial event)

/-- The grouping fingerprint of an event. -/
def fingerprintNormalized (event : NormalizedEvent) : String :=
  if event.hasCustomFingerprint then customFingerprint event else defaultFingerprint event

/-- The grouping fingerprint of a raw payload. -/
def fingerprint (event : Value) : String := fingerprintNormalized (.fromValue event)

def maxTitle : ℕ := 200

def truncateTitle (s : String) : String :=
  let s := trim s
  if s.toList.length ≤ maxTitle then s else String.ofList (s.toList.take maxTitle) ++ "…"

def titleFromNormalized (event : NormalizedEvent) : String :=
  match event.exceptionType.filter (· ≠ "") with
  | some ty =>
    match event.exceptionValue.filter (· ≠ "") with
    | some value => ty ++ ": " ++ truncateTitle (normalizeMessage value)
    | none => ty
  | none =>
    match event.message.filter (· ≠ "") with
    | some msg => truncateTitle (normalizeMessage msg)
    | none =>
      match event.exceptionValue.filter (· ≠ "") with
      | some val => truncateTitle (normalizeMessage val)
      | none => "Unknown error"

def culpritFromNormalized (event : NormalizedEvent) : Option String :=
  (event.stacktrace.bind Stacktrace.mostRelevantFrame).bind Frame.location

def eventGrouping : Grouping where
  fingerprintNormalized := fingerprintNormalized
  titleFromNormalized := titleFromNormalized
  culpritFromNormalized := culpritFromNormalized

end Soika
