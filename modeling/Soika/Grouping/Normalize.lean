import Soika.Domain.Stacktrace
import Soika.Domain.Text

/-! # Normalization for grouping

What is stripped from a frame or a message before it becomes part of a grouping key:
addresses, hashes, query strings and volatile tokens. Where the source counts bytes, it
then asks for ASCII characters only.
-/

namespace Soika

def isAsciiHexdigit (c : Char) : Bool :=
  c.isDigit || ('a' ≤ c && c ≤ 'f') || ('A' ≤ c && c ≤ 'F')

/-- Strip a Rust symbol hash suffix like `::h1a2b3c4d5e6f7a8b`. -/
def stripRustHashSuffix (symbol : List Char) : List Char :=
  match rfindText "::h".toList symbol with
  | none => symbol
  | some i =>
    let suffix := symbol.drop (i + 3)
    if 12 ≤ suffix.length ∧ suffix.all isAsciiHexdigit then symbol.take i else symbol

def isHashLike (token : List Char) : Bool :=
  6 ≤ token.length && token.length ≤ 24 && token.all Char.isAlphanum && token.any Char.isDigit

/-- Strip a content hash from a bundle filename, such as `main.4f3a9b2c.js`. -/
def stripBundleHash (path : List Char) : List Char :=
  let (dir, file) := match rfindText ['/'] path with
    | some i => (path.take (i + 1), path.drop (i + 1))
    | none => ([], path)
  match rfindText ['.'] file with
  | none => path
  | some i =>
    let stem := file.take i
    let ext := file.drop i
    -- The hash is the last part of the stem behind a dot, or else behind a dash.
    let strip (sep : Char) : Option (List Char) := do
      let j ← rfindText [sep] stem
      if isHashLike (stem.drop (j + 1)) then return dir ++ stem.take j ++ ext else none
    ((strip '.').or (strip '-')).getD path

def normalizeType (ty : String) : String := trim ty

def normalizeFunction (function : String) : String :=
  String.ofList (trimChars (cutAt "+0x".toList (stripRustHashSuffix (trimChars function.toList))))

def normalizeModule (module : String) : String :=
  String.ofList (stripRustHashSuffix (trimChars module.toList))

def normalizePath (path : String) : String :=
  let p := cutAt ['#'] (cutAt ['?'] (trimChars path.toList))
  let p := stripPrefix "webpack://".toList p
  let p := stripPrefix "webpack-internal:///".toList p
  let p := stripPrefix "app://".toList p
  String.ofList (stripBundleHash p)

/-- The grouping signature of a frame: its symbol, or else its path. -/
def frameSignature (frame : Frame) : Option String :=
  let module := (frame.module.map normalizeModule).filter (· ≠ "")
  let function := (frame.function.map normalizeFunction).filter (· ≠ "")
  match function with
  | some function =>
    some (match module with
      | some module => module ++ "." ++ function
      | none => function)
  | none =>
    let path := ((frame.filename.or frame.absPath).map normalizePath).filter (· ≠ "")
    match module, path with
    | some module, some path => some (module ++ "@" ++ path)
    | some module, none => some module
    | none, some path => some path
    | none, none => none

def placeholderInt : List Char := "<int>".toList
def placeholderUuid : List Char := "<uuid>".toList
def placeholderId : List Char := "<id>".toList

def minRandomTokenLen : ℕ := 6

/-- Replace each maximal run of digits with `<int>`. -/
def collapseDigitRuns : (prevDigit : Bool) → List Char → List Char
  | _, [] => []
  | prevDigit, c :: cs =>
    if c.isDigit then
      (if prevDigit then [] else placeholderInt) ++ collapseDigitRuns true cs
    else c :: collapseDigitRuns false cs

def normalizeToken (token : List Char) : List Char :=
  let hasDigit := token.any Char.isDigit
  let hasAlpha := token.any Char.isAlpha
  if hasDigit && !hasAlpha then placeholderInt
  else if hasDigit && hasAlpha && minRandomTokenLen ≤ token.length then placeholderId
  else collapseDigitRuns false token

/-- A canonical `8-4-4-4-12` hex UUID. -/
def isUuid (s : List Char) : Bool :=
  s.length = 36 && s.zipIdx.all fun (c, i) =>
    if i = 8 ∨ i = 13 ∨ i = 18 ∨ i = 23 then c = '-' else isAsciiHexdigit c

/-- The loop of `normalize_message`; `skip` characters are already part of the output. -/
def normalizeChars : (skip : ℕ) → (prevSpace : Bool) → List Char → List Char
  | _, _, [] => []
  | skip + 1, prevSpace, _ :: cs => normalizeChars skip prevSpace cs
  | 0, prevSpace, c :: cs =>
    if isWhitespace c then (if prevSpace then [] else [' ']) ++ normalizeChars 0 true cs
    else if isUuid ((c :: cs).take 36) then placeholderUuid ++ normalizeChars 35 false cs
    else if c.isAlphanum then
      let token := (c :: cs).takeWhile Char.isAlphanum
      normalizeToken token ++ normalizeChars (token.length - 1) false cs
    else c :: normalizeChars 0 false cs

/-- Normalize a message into a stable grouping key and display form. -/
def normalizeMessage (message : String) : String :=
  String.ofList (trimChars (normalizeChars 0 false (trimChars message.toList)))

example : normalizeMessage "Not found: /download/oW2Euf6y8" = "Not found: /download/<id>" := by
  decide

end Soika
