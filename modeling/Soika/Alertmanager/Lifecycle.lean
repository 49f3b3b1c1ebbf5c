import Soika.Alertmanager.Alert
import Soika.Library.Serial
import Soika.Library.Table

/-! # The lifecycle of an alert

An alert is saved before it is sent, sent again while its issue is live, and resolved
when it is not. Each operation holds one lock while it reads the configuration, its
row and the issue, writes the row, and sends messages; all of these may fail, and the
process may die between any two of them.
-/

namespace Soika

open Interaction Table

/-- A message to Alertmanager: an alert that fires, or one that ends. -/
inductive Message where
  | firing (alert : AlertmanagerAlert)
  | resolved (alert : AlertmanagerAlert)
  deriving DecidableEq

namespace Message

def alert : Message → AlertmanagerAlert
  | firing alert => alert
  | resolved alert => alert

def isFiring : Message → Bool
  | firing _ => true
  | resolved _ => false

end Message

/-- What an operation asks of the repositories, the settings, the clock and the transport. -/
inductive AlertCmd where
  | config
  | orgName
  | names
  | projectLabels
  | severity (projectId : Option Id)
  | interval (projectId : Id)
  | now
  | findIssue (id : Id)
  | findProject (id : Id)
  | findAlert (issueId : Id)
  | saveAlert (alert : ActiveAlert)
  | removeAlert (issueId : Id)
  | send (endpoint : String) (message : Message)

def alertCalls : Signature where
  Cmd := AlertCmd
  Reply
    | .config => NotificationConfig
    | .orgName => String
    | .names => AlertmanagerNames
    | .projectLabels => OrdMap String (OrdMap String String)
    | .severity _ => Option AlertSeverity
    | .interval _ => RefreshInterval
    | .now => Timestamp
    | .findIssue _ => Option Issue
    | .findProject _ => Option ProjectRow
    | .findAlert _ => Option ActiveAlert
    | .saveAlert _ => Unit
    | .removeAlert _ => Unit
    | .send _ _ => Unit

abbrev AlertProg := Prog alertCalls Error

section

def ofExcept {α : Type} : Except Error α → AlertProg α
  | .ok a => .ret a
  | .error e => .fail e

def ask (c : AlertCmd) : AlertProg (alertCalls.Reply c) := Prog.ask (S := alertCalls) c

def alertTtl (intervalSeconds : ℤ) : ℤ := max ALERT_TTL (intervalSeconds * 3)

def effectiveNames (settings : AlertSettings) : AlertProg AlertmanagerNames :=
  match settings.envNames with
  | some names => .ret names
  | none => ask .names

def effectiveSeverity (projectId : Id) : AlertProg (Option AlertSeverity) := do
  let own ← ask (.severity (some projectId))
  let global ← ask (.severity none)
  return own.or global

/-- The alert of an issue and the interval of its project, as `notify` and `reconcile` compute
them. -/
def renderIssue (idText : Id → String) (settings : AlertSettings) (config : AlertmanagerConfig)
    (org : String) (project : ProjectRow) (issue : Issue) (trigger : String) :
    AlertProg (AlertmanagerAlert × ℤ) := do
  let names ← effectiveNames settings
  let severity ← effectiveSeverity project.id
  let projectLabels ← ask .projectLabels
  let projectConfig := config.forProject projectLabels project.slug names severity
  let now ← ask .now
  let rendered ← Prog.orAbort (renderAlert projectConfig
    (variablesOf idText settings.baseUrl org project issue trigger) now)
  let alert ← ofExcept rendered
  let interval ← ask (.interval project.id)
  let now ← ask .now
  let endsAt ← Prog.orAbort (secondsAfter now (alertTtl interval.seconds))
  return ({ alert with endsAt }, interval.seconds)

def resolve (active : ActiveAlert) : AlertProg Unit := do
  let now ← ask .now
  ask (.send active.endpoint (.resolved { active.alert with endsAt := now }))

def closeOld : Option ActiveAlert → AlertProg Unit
  | some old => resolve old
  | none => .ret ()

/-- Persist before HTTP: a failed delivery is retried by reconciliation. -/
def deliver (pending : ActiveAlert) : AlertProg Unit := do
  ask (.saveAlert pending)
  ask (.send pending.endpoint (.firing pending.alert))
  let now ← ask .now
  ask (.saveAlert { pending with lastSentAt := some now })

/-- Called for a new issue or regression. An old alert is closed before it is replaced. -/
def notify (parseUrl : String → Option Url) (idText : Id → String) (settings : AlertSettings)
    (project : ProjectRow) (issue : Issue) (trigger : String) : AlertProg Unit :=
  if ¬ settings.enabled then .ret ()
  else do
    let stored ← ask .config
    let effective ← ofExcept (stored.effective parseUrl settings.alertmanagerUrl)
    let config := effective.alertmanager
    if ¬ config.enabled then .ret ()
    else do
      let org ← ask .orgName
      let (alert, _) ← renderIssue idText settings config org project issue trigger
      let old ← ask (.findAlert issue.id)
      closeOld old
      deliver ⟨none, issue.id, config.endpoint, trigger, alert⟩

/-- Nothing is due: the identity is the same, the last send lies within the interval and the lease
outlasts the interval. `none` is a panic of the clock arithmetic. -/
def nothingDue (saved : ActiveAlert) (endpoint : String) (labels : OrdMap String String)
    (seconds : ℤ) (now now' : Timestamp) : Option Bool :=
  if saved.endpoint ≠ endpoint ∨ saved.alert.labels ≠ labels then some false
  else
    match saved.lastSentAt with
    | none => some false
    | some sent => do
      let due ← secondsAfter sent seconds
      if now < due then
        let limit ← secondsAfter now' seconds
        return limit < saved.alert.endsAt
      else return false

/-- The alert of a live issue: left alone, extended, or replaced when its identity changed. -/
def refreshLive (idText : Id → String) (settings : AlertSettings) (config : AlertmanagerConfig)
    (org : String) (project : ProjectRow) (issue : Issue) (saved : ActiveAlert) :
    AlertProg Unit := do
  let (alert, seconds) ← renderIssue idText settings config org project issue saved.trigger
  let now ← ask .now
  let now' ← ask .now
  let skip ← Prog.orAbort (nothingDue saved config.endpoint alert.labels seconds now now')
  if skip then .ret ()
  else if saved.endpoint ≠ config.endpoint ∨ saved.alert.labels ≠ alert.labels then do
    closeOld (some saved)
    deliver ⟨none, saved.issueId, config.endpoint, saved.trigger, alert⟩
  else
    deliver ⟨none, saved.issueId, config.endpoint, saved.trigger,
      { alert with startsAt := saved.alert.startsAt }⟩

/-- The alert of an issue that is not live is resolved and forgotten. -/
def close (saved : ActiveAlert) : AlertProg Unit := do
  resolve saved
  ask (.removeAlert saved.issueId)

def reconcile (idText : Id → String) (settings : AlertSettings) (config : AlertmanagerConfig)
    (org : String) (saved : ActiveAlert) : AlertProg Unit := do
  let issue ← ask (.findIssue saved.issueId)
  match issue with
  | none => close saved
  | some issue =>
    let project ← ask (.findProject issue.projectId)
    match project with
    | none => close saved
    | some project =>
      if config.enabled ∧ ¬ project.muted ∧ project.orphanedAt = none ∧
          issue.status = .unresolved then
        refreshLive idText settings config org project issue saved
      else close saved

/-- One round of the loop of `refresh`, with the configuration and organization name that the
pass read before its first round; a failed reconciliation is logged. -/
def refreshEntry (idText : Id → String) (settings : AlertSettings) (config : AlertmanagerConfig)
    (org : String) (issueId : Id) : AlertProg Unit := do
  let saved ← ask (.findAlert issueId)
  match saved with
  | none => .ret ()
  | some saved =>
    let _ ← (reconcile idText settings config org saved).result
    return ()

end

/-- What operators, ingestion and the clock decide, at the moment of one call. -/
structure World where
  config : NotificationConfig
  orgName : String
  names : AlertmanagerNames
  projectLabels : OrdMap String (OrdMap String String)
  defaultSeverity : Option AlertSeverity
  globalInterval : RefreshInterval
  now : Timestamp
  issues : List Issue
  projects : List ProjectRow

/-- A call is answered, is lost, or takes effect and its answer is lost. -/
inductive Mishap where
  | none
  | lost (e : Error)
  | unanswered (e : Error)

inductive Effect where
  | sent (endpoint : String) (message : Message) (delivered : Bool)
  | saved (alert : ActiveAlert)
  | removed (issueId : Id)
  deriving DecidableEq

structure AlertState where
  /-- The table `notification_alerts`. -/
  rows : List ActiveAlert
  /-- Newest first. -/
  history : List Effect

namespace AlertState

def empty : AlertState := ⟨[], []⟩

def rowOf (s : AlertState) (issueId : Id) : Option ActiveAlert :=
  lookup ActiveAlert.issueId issueId s.rows

/-- `INSERT ... ON CONFLICT (issue_id) DO UPDATE` -/
def save (s : AlertState) (a : ActiveAlert) : AlertState where
  rows :=
    match s.rowOf a.issueId with
    | some _ => modify ActiveAlert.issueId a.issueId (fun _ => a) s.rows
    | none => s.rows ++ [a]
  history := .saved a :: s.history

def remove (s : AlertState) (issueId : Id) : AlertState where
  rows := Table.remove ActiveAlert.issueId issueId s.rows
  history := .removed issueId :: s.history

def sent (s : AlertState) (endpoint : String) (message : Message) (delivered : Bool) :
    AlertState :=
  { s with history := .sent endpoint message delivered :: s.history }

end AlertState

namespace Mishap

def read {α : Type} (mishap : Mishap) (s : AlertState) (a : Except Error α) :
    Except Error α × AlertState :=
  match mishap with
  | none => (a, s)
  | lost e => (.error e, s)
  | unanswered e => (.error e, s)

/-- A write that a mishap keeps from taking effect, or from being answered. -/
def write (mishap : Mishap) (s s' : AlertState) : Except Error Unit × AlertState :=
  match mishap with
  | none => (.ok (), s')
  | lost e => (.error e, s)
  | unanswered e => (.error e, s')

end Mishap

/-- Answer a call. The clock and the labels in memory cannot fail. -/
def alertStep (w : World) (mishap : Mishap) :
    (c : AlertCmd) → AlertState → Except Error (alertCalls.Reply c) × AlertState
  | .config, s => mishap.read s (.ok w.config)
  | .orgName, s => mishap.read s (.ok w.orgName)
  | .names, s => mishap.read s (.ok w.names)
  | .projectLabels, s => (.ok w.projectLabels, s)
  | .severity none, s => mishap.read s (.ok w.defaultSeverity)
  | .severity (some id), s =>
    mishap.read s <|
      match lookup (fun p : ProjectRow => p.id) id w.projects with
      | some project => .ok project.alertmanagerSeverity
      | none => .error (.db .rowNotFound)
  | .interval id, s =>
    mishap.read s <|
      match lookup (fun p : ProjectRow => p.id) id w.projects with
      | some project => .ok (project.alertmanagerInterval.getD w.globalInterval)
      | none => .error (.db .rowNotFound)
  | .now, s => (.ok w.now, s)
  | .findIssue id, s => mishap.read s (.ok (lookup Issue.id id w.issues))
  | .findProject id, s => mishap.read s (.ok (lookup (fun p : ProjectRow => p.id) id w.projects))
  | .findAlert issueId, s => mishap.read s (.ok (s.rowOf issueId))
  | .saveAlert a, s => mishap.write s (s.save a)
  | .removeAlert issueId, s => mishap.write s (s.remove issueId)
  | .send endpoint message, s =>
    match mishap with
    | .none => (.ok (), s.sent endpoint message true)
    | .lost e => (.error e, s.sent endpoint message false)
    | .unanswered e => (.error e, s.sent endpoint message true)

/-- The store of the alerts, in a world and with a mishap. -/
def alertStore (w : World × Mishap) : Machine alertCalls Error AlertState where
  step := alertStep w.1 w.2

/-- An operation, with what its caller holds: configuration that was read before may be stale. -/
inductive AlertOperation where
  | notify (settings : AlertSettings) (project : ProjectRow) (issue : Issue) (trigger : String)
  | refresh (settings : AlertSettings) (config : AlertmanagerConfig) (org : String) (issueId : Id)

def AlertOperation.prog (parseUrl : String → Option Url) (idText : Id → String) :
    AlertOperation → AlertProg Unit
  | notify settings project issue trigger =>
    Soika.notify parseUrl idText settings project issue trigger
  | refresh settings config org issueId => refreshEntry idText settings config org issueId

/-- Operations take the lock one after another, each call in any world and with any mishap, and
the process dies whenever it likes. -/
abbrev AlertMove := Serial.Move AlertOperation (World × Mishap)

/-- The state after a run that begins without alerts. -/
def afterAlerts (parseUrl : String → Option Url) (idText : Id → String) (moves : List AlertMove) :
    Serial alertCalls Error AlertState :=
  Serial.run alertStore (AlertOperation.prog parseUrl idText) moves ⟨.empty, none⟩

end Soika
