import Soika.Domain.Project
import Soika.Domain.Text
import Soika.Error
import Soika.Library.OrdMap

/-! # Notification configuration

Alert names, label and annotation templates with their strict, scalar-only
substitution, and the alerts that are rendered from them.
-/

namespace Soika

def VARIABLES : List String :=
  ["project_name", "project_slug", "project_id", "team_id", "issue_id", "issue_short_id", "title",
    "culprit", "level", "environment", "release", "event_count", "first_seen", "last_seen",
    "issue_url", "org_name", "trigger"]

def opening : List Char := ['\x7b', '\x7b']

def closing : List Char := ['\x7d', '\x7d']

/-- The loop of `render_template` from the text that remains; a text has fewer placeholders
than characters. -/
def renderRounds (vars : OrdMap String String) : ℕ → List Char → Except Error (List Char)
  | 0, remaining =>
    if hasText closing remaining then .error (.validation "invalid notification placeholder")
    else .ok remaining
  | rounds + 1, remaining =>
    match cutText opening remaining with
    | none =>
      if hasText closing remaining then .error (.validation "invalid notification placeholder")
      else .ok remaining
    | some (before, tail) =>
      if hasText closing before then .error (.validation "invalid notification placeholder")
      else
        match cutText closing tail with
        | none => .error (.validation "unclosed notification placeholder")
        | some (inner, rest) =>
          let name := String.ofList (trimChars inner)
          if name ∉ VARIABLES then
            .error (.validation ("unknown notification variable: " ++ name))
          else
            match vars.get name with
            | none => .error (.validation "missing notification variable")
            | some value =>
              match renderRounds vars rounds rest with
              | .ok out => .ok (before ++ value.toList ++ out)
              | .error e => .error e

/-- No evaluation, loops, filters, escaping or recursive expansion. -/
def renderTemplate (template : String) (vars : OrdMap String String) : Except Error String :=
  let chars := template.toList
  if hasText ['\x7b', '%'] chars || hasText ['\x7b', '#'] chars then
    .error (.validation "only \x7b\x7b variable \x7d\x7d placeholders are supported")
  else (renderRounds vars chars.length chars).map String.ofList

def sampleValue (key : String) : String :=
  match key with
  | "project_name" => "Example project"
  | "project_slug" => "example"
  | "project_id" => "00000000-0000-0000-0000-000000000001"
  | "team_id" => "00000000-0000-0000-0000-000000000002"
  | "issue_id" => "00000000-0000-0000-0000-000000000003"
  | "issue_short_id" => "iss001"
  | "title" => "ValueError: example error"
  | "culprit" => "app.checkout"
  | "level" => "error"
  | "environment" => "production"
  | "release" => "1.0.0"
  | "event_count" => "42"
  | "first_seen" => "2026-01-01T12:00:00Z"
  | "last_seen" => "2026-01-01T12:00:00Z"
  | "issue_url" => "https://errors.example.com/projects/web001/issues/iss001"
  | "org_name" => "soika"
  | "trigger" => "new_issue"
  | _ => ""

def sampleVariables : OrdMap String String :=
  .ofList (VARIABLES.map fun key => (key, sampleValue key))

namespace AlertSeverity

def alertName : AlertSeverity → String
  | critical => "SoikaIssueCritical"
  | warning => "SoikaIssueWarning"
  | info => "SoikaIssueInfo"

def asStr : AlertSeverity → String
  | critical => "critical"
  | warning => "warning"
  | info => "info"

end AlertSeverity

/-- Service-owned names for issue alerts and the project test button. -/
structure AlertmanagerNames where
  critical : String
  warning : String
  info : String
  projectTest : String
  deriving DecidableEq

namespace AlertmanagerNames

def default : AlertmanagerNames where
  critical := AlertSeverity.critical.alertName
  warning := AlertSeverity.warning.alertName
  info := AlertSeverity.info.alertName
  projectTest := "SoikaIssueCritical"

def forSeverity (names : AlertmanagerNames) : AlertSeverity → String
  | .critical => names.critical
  | .warning => names.warning
  | .info => names.info

def normalizedName (value : String) : Except Error String :=
  let value := trim value
  if value = "" then .error (.validation "alert names must not be empty") else .ok value

def normalized (names : AlertmanagerNames) : Except Error AlertmanagerNames := do
  let critical ← normalizedName names.critical
  let warning ← normalizedName names.warning
  let info ← normalizedName names.info
  let projectTest ← normalizedName names.projectTest
  return ⟨critical, warning, info, projectTest⟩

end AlertmanagerNames

/-- The parts of a parsed URL that the configuration is checked for. -/
structure Url where
  scheme : String
  hostStr : Option String
  username : String
  password : Option String
  query : Option String
  fragment : Option String

structure AlertmanagerConfig where
  enabled : Bool
  /-- Alertmanager base URL, optionally including a reverse-proxy path prefix. -/
  url : String
  labels : OrdMap String String
  annotations : OrdMap String String
  deriving DecidableEq

/-- `str::len`, in bytes. -/
def byteLen (s : String) : ℕ := (s.toList.map Char.utf8Size).sum

def isLabelName (key : String) : Bool :=
  match key.toList with
  | [] => false
  | c :: cs =>
    (c.isAlpha || c = '_') && cs.all (fun c => c.isAlphanum || c = '_') && byteLen key ≤ 128

namespace AlertmanagerConfig

def default : AlertmanagerConfig where
  enabled := false
  url := ""
  labels := .ofList
    [("alertname", "SoikaIssue"),
      ("project", "\x7b\x7b project_slug \x7d\x7d"),
      ("severity", "\x7b\x7b level \x7d\x7d")]
  annotations := .ofList
    [("summary", "\x7b\x7b title \x7d\x7d"),
      ("description", "\x7b\x7b culprit \x7d\x7d"),
      ("issue_url", "\x7b\x7b issue_url \x7d\x7d"),
      ("trigger", "\x7b\x7b trigger \x7d\x7d"),
      ("environment", "\x7b\x7b environment \x7d\x7d"),
      ("release", "\x7b\x7b release \x7d\x7d"),
      ("event_count", "\x7b\x7b event_count \x7d\x7d")]

section

-- `reqwest::Url::parse`
variable (parseUrl : String → Option Url)

def validateUrl (url : String) : Except Error Unit :=
  match parseUrl url with
  | none => .error (.validation "invalid Alertmanager base URL")
  | some u =>
    if (u.scheme ≠ "http" ∧ u.scheme ≠ "https") ∨ u.hostStr = none ∨ u.username ≠ "" ∨
        u.password.isSome ∨ u.query.isSome ∨ u.fragment.isSome then
      .error (.validation
        "Alertmanager requires an HTTP(S) base URL without credentials, query or fragment")
    else .ok ()

def validateChannelUrl (config : AlertmanagerConfig) : Except Error Unit :=
  if config.enabled ∨ config.url ≠ "" then validateUrl parseUrl config.url else .ok ()

def validateEntry (key value : String) : Except Error Unit :=
  if ¬ isLabelName key then .error (.validation "invalid label or annotation name")
  else if 8192 < byteLen value then .error (.validation "notification template is too long")
  else (renderTemplate value sampleVariables).map fun _ => ()

def validateEntries : List (String × String) → Except Error Unit
  | [] => .ok ()
  | (key, value) :: es => do
    validateEntry key value
    validateEntries es

def validateMap (map : OrdMap String String) : Except Error Unit :=
  if 64 < map.size then .error (.validation "at most 64 labels or annotations are allowed")
  else validateEntries map.entries

def validate (config : AlertmanagerConfig) : Except Error Unit := do
  validateChannelUrl parseUrl config
  validateMap config.labels
  validateMap config.annotations
  rejectIf (config.labels.containsKey "issue_id" ∨ config.labels.containsKey "project_id")
    "issue_id and project_id labels are reserved"
  rejectIf ((config.labels.get "alertname").all fun s => trim s = "")
    "alertname label is required"

end

end AlertmanagerConfig

structure NotificationConfig where
  alertmanager : AlertmanagerConfig
  deriving DecidableEq

namespace NotificationConfig

def validateStored (parseUrl : String → Option Url) (config : NotificationConfig) :
    Except Error Unit :=
  ({ config.alertmanager with enabled := false } : AlertmanagerConfig).validate parseUrl

def effective (parseUrl : String → Option Url) (config : NotificationConfig)
    (defaultUrl : Option String) : Except Error NotificationConfig := do
  let config :=
    if trim config.alertmanager.url = "" then
      { config with alertmanager := { config.alertmanager with url := defaultUrl.getD "" } }
    else config
  config.alertmanager.validate parseUrl
  return config

end NotificationConfig

structure AlertmanagerAlert where
  labels : OrdMap String String
  annotations : OrdMap String String
  startsAt : Timestamp
  endsAt : Timestamp
  generatorUrl : String
  deriving DecidableEq

/-- Saved before HTTP delivery, retaining the exact identity across retries, restarts,
template edits, resolution and deletion of the originating issue. -/
structure ActiveAlert where
  lastSentAt : Option Timestamp
  issueId : Id
  endpoint : String
  trigger : String
  alert : AlertmanagerAlert
  deriving DecidableEq

end Soika
