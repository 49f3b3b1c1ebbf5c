import Mathlib.Data.List.Dedup
import Soika.Adapters.Store

/-! # Event adapter

Inserting, counting and pruning events, and the rows of projects that retention
reads.
-/

namespace Soika

open Table

variable (B : Backend)

/-- The row of a new event. -/
def NewEvent.row (new : NewEvent) (id : Id) : Event where
  id := id
  eventId := new.eventId
  issueId := new.issueId
  projectId := new.projectId
  payload := new.payload
  receivedAt := B.ts new.receivedAt

def Store.withEvent (s : Store) (event : Event) : Store :=
  { s with events := s.events ++ [event], nextId := s.nextId + 1 }

@[simp] theorem Store.withEvent_events (s : Store) (event : Event) :
    (s.withEvent event).events = s.events ++ [event] := rfl
@[simp] theorem Store.withEvent_issues (s : Store) (event : Event) :
    (s.withEvent event).issues = s.issues := rfl
@[simp] theorem Store.issueById_withEvent (s : Store) (event : Event) (id : Id) :
    (s.withEvent event).issueById id = s.issueById id := rfl

/-- `INSERT INTO events`, refused when its issue or project has no row. -/
def insertEvent (new : NewEvent) (s : Store) : Except Error (Event × Store) :=
  if (s.issueById new.issueId).isSome && (s.projectById new.projectId).isSome then
    .ok (new.row B s.nextId, s.withEvent (new.row B s.nextId))
  else .error (.db B.foreignKeyViolation)

/-- `SELECT COUNT(*) … WHERE issue_id = ? AND received_at >= ?`. -/
def countInWindow (issueId : Id) (since : Timestamp) (events : List Event) : ℤ :=
  events.countP fun e => e.issueId = issueId && B.le since e.receivedAt

def projectIdsWithEvents (s : Store) : List Id := (s.events.map Event.projectId).dedup

/-- `ORDER BY received_at DESC, id DESC`: `a` stands before `b`. -/
def moreRecent (a b : Event) : Bool :=
  B.le b.receivedAt a.receivedAt && (!B.le a.receivedAt b.receivedAt || b.id ≤ a.id)

/-- Delete the events of a project past its `keep` most recent ones; all batches of one sweep. -/
def pruneEventsOverRetention (projectId : Id) (retentionEvents : ℤ) (s : Store) : ℕ × Store :=
  let keep := (max retentionEvents 0).toNat
  let rows := (s.events.filter fun e => e.projectId = projectId).mergeSort (moreRecent B)
  let doomed := (rows.drop keep).map Event.id
  (doomed.length, { s with events := s.events.filter fun e => !doomed.contains e.id })

/-- Delete the events of a project received before the cutoff; all batches of one sweep. -/
def deleteOlderThan (projectId : Id) (cutoff : Timestamp) (s : Store) : ℕ × Store :=
  let old (e : Event) : Bool := e.projectId = projectId && !B.le cutoff e.receivedAt
  (s.events.countP old, { s with events := s.events.filter fun e => !old e })

/-- `INSERT INTO projects`. -/
def createProject (retentionEvents retentionDays : ℤ) (s : Store) : Project × Store :=
  let project : Project := ⟨s.nextId, retentionEvents, retentionDays, false⟩
  (project, { s with projects := s.projects ++ [project], nextId := s.nextId + 1 })

def ProjectUpdate.apply (u : ProjectUpdate) (p : Project) : Project :=
  { p with
    retentionEvents := u.retentionEvents.getD p.retentionEvents
    retentionDays := u.retentionDays.getD p.retentionDays
    muted := u.muted.getD p.muted }

/-- `UPDATE projects … WHERE id = ?`. -/
def updateProject (id : Id) (u : ProjectUpdate) (s : Store) : Except Error Project × Store :=
  match s.projectById id with
  | some p => (.ok (u.apply p), { s with projects := modify Project.id id u.apply s.projects })
  | none => (.error (.notFound s!"project {id}"), s)

/-- `DELETE FROM projects`, which cascades to its issues and events. -/
def deleteProject (id : Id) (s : Store) : Except Error Unit × Store :=
  (.ok (), { s with
    projects := remove Project.id id s.projects
    issues := remove Issue.projectId id s.issues
    events := s.events.filter fun e =>
      e.projectId ≠ id && s.issues.all fun i => i.id ≠ e.issueId || i.projectId ≠ id })

end Soika
