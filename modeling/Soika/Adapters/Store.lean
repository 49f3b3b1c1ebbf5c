import Soika.Library.Table
import Soika.Domain.Event
import Soika.Error

/-! # Tables of the database

The rows of the projects, issues and events tables and the constraints their
schema declares. A backend says how it stores instants, how it compares stored
ones, and which it can read back.
-/

namespace Soika

open Table

/-- What the two databases do differently with instants and constraint errors. -/
structure Backend where
  /-- The instant a column holds after this one was written to it. -/
  ts : Timestamp → Timestamp
  /-- `a <= b` in SQL. -/
  le : Timestamp → Timestamp → Bool
  /-- A column that holds this instant can be read. -/
  decodes : Timestamp → Bool
  foreignKeyViolation : DbError

/-- Instants as RFC 3339 text: compared as text, read back when the year has four digits. -/
def sqlite : Backend where
  ts t := t
  le a b := ¬ b.toRfc3339 < a.toRfc3339
  decodes t := t.FourDigitYear
  foreignKeyViolation := .sqlite (some 787) "FOREIGN KEY constraint failed"

/-- Instants as `TIMESTAMPTZ`, in whole microseconds. -/
def postgres : Backend where
  ts t := t.truncMicros
  le a b := a.truncMicros ≤ b.truncMicros
  decodes _ := true
  foreignKeyViolation := .postgres "23503"

structure Store where
  projects : List Project
  issues : List Issue
  events : List Event
  /-- The next `Id::new_v4`. -/
  nextId : Id

namespace Store

def empty : Store := ⟨[], [], [], 0⟩

def projectById (s : Store) (id : Id) : Option Project := lookup Project.id id s.projects

def issueById (s : Store) (id : Id) : Option Issue := lookup Issue.id id s.issues

/-- The key of the unique index on `(project_id, fingerprint)`. -/
def groupOf (i : Issue) : Id × String := (i.projectId, i.fingerprint)

def issueByFingerprint (s : Store) (projectId : Id) (fingerprint : String) : Option Issue :=
  lookup groupOf (projectId, fingerprint) s.issues

def modifyIssue (s : Store) (id : Id) (f : Issue → Issue) : Store :=
  { s with issues := modify Issue.id id f s.issues }

/-- `DELETE FROM issues`, which cascades to the events of the issue. -/
def removeIssue (s : Store) (id : Id) : Store :=
  { s with issues := remove Issue.id id s.issues, events := remove Event.issueId id s.events }

@[simp] theorem modifyIssue_issues (s : Store) (id : Id) (f : Issue → Issue) :
    (s.modifyIssue id f).issues = modify Issue.id id f s.issues := rfl
@[simp] theorem modifyIssue_events (s : Store) (id : Id) (f : Issue → Issue) :
    (s.modifyIssue id f).events = s.events := rfl
@[simp] theorem modifyIssue_projects (s : Store) (id : Id) (f : Issue → Issue) :
    (s.modifyIssue id f).projects = s.projects := rfl
@[simp] theorem modifyIssue_nextId (s : Store) (id : Id) (f : Issue → Issue) :
    (s.modifyIssue id f).nextId = s.nextId := rfl
@[simp] theorem removeIssue_issues (s : Store) (id : Id) :
    (s.removeIssue id).issues = remove Issue.id id s.issues := rfl
@[simp] theorem removeIssue_events (s : Store) (id : Id) :
    (s.removeIssue id).events = remove Event.issueId id s.events := rfl
@[simp] theorem removeIssue_projects (s : Store) (id : Id) :
    (s.removeIssue id).projects = s.projects := rfl
@[simp] theorem removeIssue_nextId (s : Store) (id : Id) :
    (s.removeIssue id).nextId = s.nextId := rfl

/-- What the schema guarantees: keys are unique, references have their rows, ids are used once. -/
structure Consistent (s : Store) : Prop where
  projectIds : UniqueOn Project.id s.projects
  issueIds : UniqueOn Issue.id s.issues
  groups : UniqueOn groupOf s.issues
  issueProject : ∀ i ∈ s.issues, ∃ p ∈ s.projects, p.id = i.projectId
  eventIssue : ∀ e ∈ s.events, ∃ i ∈ s.issues, i.id = e.issueId
  eventProject : ∀ e ∈ s.events, ∃ p ∈ s.projects, p.id = e.projectId
  issueFresh : ∀ i ∈ s.issues, i.id < s.nextId
  projectFresh : ∀ p ∈ s.projects, p.id < s.nextId

theorem consistent_empty : empty.Consistent := by
  constructor <;> simp [empty, UniqueOn]

variable {s : Store}

theorem issueById_mem {id : Id} {i : Issue} (h : s.issueById id = some i) :
    i ∈ s.issues ∧ i.id = id :=
  lookup_eq_some_mem h

theorem issueById_modifyIssue_self (s : Store) (id : Id) {f : Issue → Issue}
    (hf : ∀ i, (f i).id = i.id) : (s.modifyIssue id f).issueById id = (s.issueById id).map f :=
  lookup_modify_self hf _ _

theorem issueById_modifyIssue_ne {id id' : Id} {f : Issue → Issue} (hf : ∀ i, (f i).id = i.id)
    (h : id' ≠ id) : (s.modifyIssue id f).issueById id' = s.issueById id' :=
  lookup_modify_ne hf h _

theorem issueById_removeIssue_self (id : Id) : (s.removeIssue id).issueById id = none :=
  lookup_remove_self _ _

theorem issueById_removeIssue_ne {id id' : Id} (h : id' ≠ id) :
    (s.removeIssue id).issueById id' = s.issueById id' :=
  lookup_remove_ne h _

theorem issueByFingerprint_mem {projectId : Id} {fingerprint : String} {i : Issue}
    (h : s.issueByFingerprint projectId fingerprint = some i) :
    i ∈ s.issues ∧ i.projectId = projectId ∧ i.fingerprint = fingerprint := by
  obtain ⟨hi, hg⟩ := lookup_eq_some_mem h
  exact ⟨hi, congrArg Prod.fst hg, congrArg Prod.snd hg⟩

theorem Consistent.issueById_of_mem (hs : s.Consistent) {i : Issue} (hi : i ∈ s.issues) :
    s.issueById i.id = some i :=
  hs.issueIds.lookup_of_mem hi

theorem Consistent.issueById_nextId (hs : s.Consistent) : s.issueById s.nextId = none :=
  lookup_eq_none.mpr fun i hi => (hs.issueFresh i hi).ne

end Store

namespace Backend

variable (B : Backend)

/-- `row_to_issue`: a row whose instants cannot be read is refused. -/
def rowToIssue (row : Issue) : Except Error Issue :=
  if row.timestamps.all B.decodes then .ok row
  else .error (.internal "invalid timestamp in db: input contains invalid characters")

/-- A row whose instants can all be read. -/
def Readable (row : Issue) : Prop := ∀ t ∈ row.timestamps, B.decodes t = true

variable {B}

theorem rowToIssue_eq_ok {row i : Issue} :
    B.rowToIssue row = .ok i ↔ i = row ∧ B.Readable row := by
  unfold rowToIssue Readable
  split
  · rename_i h
    rw [List.all_eq_true] at h
    constructor
    · rintro ⟨⟩; exact ⟨rfl, h⟩
    · rintro ⟨rfl, -⟩; rfl
  · rename_i h
    rw [List.all_eq_true] at h
    exact ⟨nofun, fun ⟨_, hd⟩ => absurd hd h⟩

theorem Readable.rowToIssue {row : Issue} (h : B.Readable row) : B.rowToIssue row = .ok row :=
  rowToIssue_eq_ok.mpr ⟨rfl, h⟩

end Backend

/-- End a transaction: its effect and result, or its error on the state before it. -/
def commit {α : Type} (r : Except Error (α × Store)) (s : Store) : Except Error α × Store :=
  match r with
  | .ok (a, s') => (.ok a, s')
  | .error e => (.error e, s)

@[simp] theorem commit_ok {α : Type} (a : α) (s s' : Store) :
    commit (.ok (a, s')) s = (.ok a, s') := rfl

@[simp] theorem commit_error {α : Type} (e : Error) (s : Store) :
    commit (.error e : Except Error (α × Store)) s = (.error e, s) := rfl

end Soika
