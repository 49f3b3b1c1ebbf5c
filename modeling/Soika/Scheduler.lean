import Soika.Ports

/-! # Retention sweep

The scheduler's sweep over all projects with events: one deletion by count and,
where the project or the configuration sets an age, one by age. A cutoff that
chrono cannot represent is a panic.
-/

namespace Soika

open Interaction

/-- The retention limit of a project, or the default when its own value is non-positive. -/
def effectiveRetention (projectRetention defaultRetention : ℤ) : ℤ :=
  if projectRetention > 0 then projectRetention else max defaultRetention 0

/-- The age limit of a project in days, or the default; 0 means disabled. -/
def effectiveRetentionDays (projectDays defaultDays : ℤ) : ℤ :=
  if projectDays > 0 then projectDays else max defaultDays 0

/-- The instant `days` before `now`; `none` where chrono panics. -/
def retentionCutoff (days : ℤ) (now : Timestamp) : Option Timestamp :=
  (Duration.days days).bind now.sub

/-- The age limit that a sweep applies to a project; one that is gone counts as zeros. -/
def Config.daysOf (config : Config) (project : Option Project) : ℤ :=
  effectiveRetentionDays ((project.map Project.retentionDays).getD 0) config.defaultRetentionDays

def Config.limitOf (config : Config) (project : Option Project) : ℤ :=
  effectiveRetention ((project.map Project.retentionEvents).getD 0) config.defaultEventsRetention

/-- The cutoff `days` before `now` is an instant of chrono. -/
def AgeInRange (days : ℤ) (now : Timestamp) : Prop :=
  days * 86400 ≤ maxSeconds ∧ minUtc ≤ now.nanos - days * 86400 * 1000000000

theorem retentionCutoff_eq_none {days : ℤ} {now : Timestamp} (h : 0 < days) :
    retentionCutoff days now = none ↔ ¬ AgeInRange days now := by
  have hhigh := now.inRange.2
  unfold retentionCutoff Duration.days Duration.seconds AgeInRange
  split_ifs with hs
  · rw [Option.bind_some, Timestamp.sub, Timestamp.ofNanos_eq_none]
    omega
  · simp only [Option.bind_none, true_iff]
    unfold maxSeconds at *
    omega

section Programs

variable {S : Signature} (projects : ProjectRepository S) (events : EventRepository S)
  (config : Config) (clock : Id → Timestamp)

def sweepProject (projectId : Id) : Prog S Error ℕ := do
  let project ← projects.findById projectId
  let deleted ← events.pruneEventsOverRetention projectId (config.limitOf project)
  let days := config.daysOf project
  if days > 0 then do
    let cutoff ← Prog.orAbort (retentionCutoff days (clock projectId))
    let deletedByAge ← events.deleteOlderThan projectId cutoff
    return deleted + deletedByAge
  else return deleted

def sweepProjects : List Id → Prog S Error ℕ
  | [] => return 0
  | projectId :: rest => do
    let deleted ← sweepProject projects events config clock projectId
    let total ← sweepProjects rest
    return deleted + total

def runRetention : Prog S Error ℕ := do
  let projectIds ← events.projectIdsWithEvents
  sweepProjects projects events config clock projectIds

end Programs

end Soika
