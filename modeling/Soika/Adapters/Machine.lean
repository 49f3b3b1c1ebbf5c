import Soika.Adapters.Issue
import Soika.Adapters.Event
import Soika.Ports

/-! # The two databases

Each database is a machine: the statements and transactions its adapter commits
are its calls. The repositories of an adapter are programs over these calls. A
fault on a call is a statement or transaction that fails and is rolled back, with
the retries of `retry_write` spent.
-/

namespace Soika

open Interaction

inductive StoreCmd where
  | insertEvent (new : NewEvent)
  | countInWindow (issueId : Id) (since : Timestamp)
  | setStatus (issueId : Id) (status : IssueStatus) (now : Timestamp)
  | mute (issueId : Id) (spec : MuteSpec) (now : Timestamp)
  | clearExpiredMutes (now : Timestamp)
  | deleteIssue (id : Id)
  | createProject (retentionEvents retentionDays : ℤ)
  | updateProject (id : Id) (update : ProjectUpdate)
  | deleteProject (id : Id)
  | findProject (id : Id)
  | projectIdsWithEvents
  | pruneEventsOverRetention (projectId : Id) (retentionEvents : ℤ)
  | deleteOlderThan (projectId : Id) (cutoff : Timestamp)

abbrev StoreCmd.Reply : StoreCmd → Type
  | insertEvent _ => Event
  | countInWindow _ _ => ℤ
  | setStatus _ _ _ => Issue
  | mute _ _ _ => Issue
  | clearExpiredMutes _ => ℕ
  | deleteIssue _ => Unit
  | createProject _ _ => Project
  | updateProject _ _ => Project
  | deleteProject _ => Unit
  | findProject _ => Option Project
  | projectIdsWithEvents => List Id
  | pruneEventsOverRetention _ _ => ℕ
  | deleteOlderThan _ _ => ℕ

variable (B : Backend)

def storeStep : (c : StoreCmd) → Store → Except Error c.Reply × Store
  | .insertEvent new, s => commit (insertEvent B new s) s
  | .countInWindow issueId since, s => (.ok (countInWindow B issueId since s.events), s)
  | .setStatus issueId status now, s => setStatus B issueId status now s
  | .mute issueId spec now, s => mute B issueId spec now s
  | .clearExpiredMutes now, s => clearExpiredMutes B now s
  | .deleteIssue id, s => deleteIssue id s
  | .createProject events days, s =>
    (.ok (createProject events days s).1, (createProject events days s).2)
  | .updateProject id u, s => updateProject id u s
  | .deleteProject id, s => deleteProject id s
  | .findProject id, s => (.ok (s.projectById id), s)
  | .projectIdsWithEvents, s => (.ok (projectIdsWithEvents s), s)
  | .pruneEventsOverRetention projectId keep, s =>
    (.ok (pruneEventsOverRetention B projectId keep s).1,
      (pruneEventsOverRetention B projectId keep s).2)
  | .deleteOlderThan projectId cutoff, s =>
    (.ok (deleteOlderThan B projectId cutoff s).1, (deleteOlderThan B projectId cutoff s).2)

/-- What an adapter reads from outside the store: random short ids and the wall clock. -/
structure Ambient where
  draws : ℕ → String
  wall : Timestamp

def eventsOver {S : Signature} (run : (c : StoreCmd) → Prog S Error c.Reply) :
    EventRepository S where
  insert new := run (.insertEvent new)
  countInWindow issueId since := run (.countInWindow issueId since)
  pruneEventsOverRetention projectId keep := run (.pruneEventsOverRetention projectId keep)
  projectIdsWithEvents := run .projectIdsWithEvents
  deleteOlderThan projectId cutoff := run (.deleteOlderThan projectId cutoff)

def projectsOver {S : Signature} (run : (c : StoreCmd) → Prog S Error c.Reply) :
    ProjectRepository S where
  create retentionEvents retentionDays := run (.createProject retentionEvents retentionDays)
  findById id := run (.findProject id)
  update id u := run (.updateProject id u)

inductive SqliteCmd where
  | upsert (upsert : IssueUpsert) (draws : ℕ → String)
  | overrideFingerprint (issueId : Id) (fingerprint : String) (now : Timestamp)
  | store (c : StoreCmd)

abbrev SqliteCmd.Reply : SqliteCmd → Type
  | upsert _ _ => UpsertOutcome
  | overrideFingerprint _ _ _ => Issue
  | store c => c.Reply

abbrev sqliteCalls : Signature := ⟨SqliteCmd, SqliteCmd.Reply⟩

def sqliteStep : (c : SqliteCmd) → Store → Except Error c.Reply × Store
  | .upsert upsert draws, s => commit (upsertOnce sqlite upsert draws s) s
  | .overrideFingerprint issueId fingerprint now, s =>
    commit (overrideFingerprintOnce sqlite issueId fingerprint now s) s
  | .store c, s => storeStep sqlite c s

def sqliteDb : Machine sqliteCalls Error Store := ⟨sqliteStep⟩

def onSqlite (c : SqliteCmd) : Prog sqliteCalls Error c.Reply :=
  @Prog.ask sqliteCalls Error c

theorem sqlite_exec_bind {α : Type} (c : SqliteCmd) (f : c.Reply → Prog sqliteCalls Error α)
    (φ : Faults Error) (s : Store) :
    sqliteDb.exec ((onSqlite c).bind f) φ s =
      match φ 0, sqliteStep c s with
      | some e, _ => ⟨.err e, s, φ.tail⟩
      | none, (.ok r, s') => sqliteDb.exec (f r) φ.tail s'
      | none, (.error e, s') => ⟨.err e, s', φ.tail⟩ := by
  cases hφ : φ 0 with
  | some e => exact sqliteDb.exec_ask_error (by rw [hφ, Machine.answer_some])
  | none =>
    rcases h : sqliteStep c s with ⟨e | r, s'⟩
    · exact sqliteDb.exec_ask_error (by rw [hφ, Machine.answer_none]; exact h)
    · exact sqliteDb.exec_ask_ok (by rw [hφ, Machine.answer_none]; exact h)

theorem sqlite_exec (c : SqliteCmd) (φ : Faults Error) (s : Store) :
    sqliteDb.exec (onSqlite c) φ s =
      match φ 0, sqliteStep c s with
      | some e, _ => ⟨.err e, s, φ.tail⟩
      | none, (.ok r, s') => ⟨.ok r, s', φ.tail⟩
      | none, (.error e, s') => ⟨.err e, s', φ.tail⟩ := by
  rw [← Prog.bind_ret (onSqlite c), sqlite_exec_bind]
  rfl

def sqliteIssues (ambient : Ambient) : IssueRepository sqliteCalls where
  upsertByFingerprint u := onSqlite (.upsert u ambient.draws)
  setStatus issueId status := onSqlite (.store (.setStatus issueId status ambient.wall))
  mute issueId spec now := onSqlite (.store (.mute issueId spec now))
  clearExpiredMutes now := onSqlite (.store (.clearExpiredMutes now))
  overrideFingerprint issueId fp := onSqlite (.overrideFingerprint issueId fp ambient.wall)
  delete id := onSqlite (.store (.deleteIssue id))

def sqliteEvents : EventRepository sqliteCalls := eventsOver fun c => onSqlite (.store c)

def sqliteProjects : ProjectRepository sqliteCalls := projectsOver fun c => onSqlite (.store c)

inductive PgCmd where
  | lockAndBump (upsert : IssueUpsert)
  | insertOrIgnore (upsert : IssueUpsert) (draws : ℕ → String)
  | lockAndMerge (issueId : Id) (fingerprint : String) (now : Timestamp)
  | renameLocked (issueId : Id) (fingerprint : String) (now : Timestamp)
  | store (c : StoreCmd)

abbrev PgCmd.Reply : PgCmd → Type
  | lockAndBump _ => Option UpsertOutcome
  | insertOrIgnore _ _ => Option UpsertOutcome
  | lockAndMerge _ _ _ => Option Issue
  | renameLocked _ _ _ => Issue
  | store c => c.Reply

abbrev pgCalls : Signature := ⟨PgCmd, PgCmd.Reply⟩

def pgStep : (c : PgCmd) → Store → Except Error c.Reply × Store
  | .lockAndBump upsert, s => commit (lockAndBump postgres upsert s) s
  | .insertOrIgnore upsert draws, s => commit (insertOrIgnore postgres upsert draws s) s
  | .lockAndMerge issueId fingerprint now, s =>
    commit (lockAndMerge postgres issueId fingerprint now s) s
  | .renameLocked issueId fingerprint now, s =>
    commit (renameLocked postgres issueId fingerprint now s) s
  | .store c, s => storeStep postgres c s

def pgDb : Machine pgCalls Error Store := ⟨pgStep⟩

def onPg (c : PgCmd) : Prog pgCalls Error c.Reply :=
  @Prog.ask pgCalls Error c

theorem pg_exec_bind {α : Type} (c : PgCmd) (f : c.Reply → Prog pgCalls Error α)
    (φ : Faults Error) (s : Store) :
    pgDb.exec ((onPg c).bind f) φ s =
      match φ 0, pgStep c s with
      | some e, _ => ⟨.err e, s, φ.tail⟩
      | none, (.ok r, s') => pgDb.exec (f r) φ.tail s'
      | none, (.error e, s') => ⟨.err e, s', φ.tail⟩ := by
  cases hφ : φ 0 with
  | some e => exact pgDb.exec_ask_error (by rw [hφ, Machine.answer_some])
  | none =>
    rcases h : pgStep c s with ⟨e | r, s'⟩
    · exact pgDb.exec_ask_error (by rw [hφ, Machine.answer_none]; exact h)
    · exact pgDb.exec_ask_ok (by rw [hφ, Machine.answer_none]; exact h)

def raceAttempts : ℕ := 3

/-- One attempt at an upsert; `none` when the issue vanished after a conflicting insert. -/
def pgUpsertOnce (upsert : IssueUpsert) (draws : ℕ → String) :
    Prog pgCalls Error (Option UpsertOutcome) := do
  match ← onPg (.lockAndBump upsert) with
  | some outcome => return some outcome
  | none =>
    match ← onPg (.insertOrIgnore upsert draws) with
    | some outcome => return some outcome
    | none => onPg (.lockAndBump upsert)

def pgUpsertByFingerprint (upsert : IssueUpsert) (draws : ℕ → String) :
    ℕ → Prog pgCalls Error UpsertOutcome
  | 0 => .fail (.internal "upsert issue by fingerprint kept losing races to concurrent deletes")
  | n + 1 => do
    match ← pgUpsertOnce upsert fun k => draws (16 * n + k) with
    | some outcome => return outcome
    | none => pgUpsertByFingerprint upsert draws n

/-- One attempt at an override; `none` when the rename lost a race to an insert. -/
def pgOverrideFingerprintOnce (issueId : Id) (fingerprint : String) (now : Timestamp) :
    Prog pgCalls Error (Option Issue) := do
  match ← onPg (.lockAndMerge issueId fingerprint now) with
  | some issue => return some issue
  | none =>
    match ← @Prog.attempt pgCalls Error (.renameLocked issueId fingerprint now) with
    | .ok issue => return some issue
    | .error e => if e.isUniqueViolation then return none else Prog.fail e

def pgOverrideFingerprint (issueId : Id) (fingerprint : String) (now : Timestamp) :
    ℕ → Prog pgCalls Error Issue
  | 0 => .fail (.conflict
      s!"fingerprint {fingerprint} is being written concurrently; try again")
  | n + 1 => do
    match ← pgOverrideFingerprintOnce issueId fingerprint now with
    | some issue => return issue
    | none => pgOverrideFingerprint issueId fingerprint now n

def pgIssues (ambient : Ambient) : IssueRepository pgCalls where
  upsertByFingerprint u := pgUpsertByFingerprint u ambient.draws raceAttempts
  setStatus issueId status := onPg (.store (.setStatus issueId status ambient.wall))
  mute issueId spec now := onPg (.store (.mute issueId spec now))
  clearExpiredMutes now := onPg (.store (.clearExpiredMutes now))
  overrideFingerprint issueId fp := pgOverrideFingerprint issueId fp ambient.wall raceAttempts
  delete id := onPg (.store (.deleteIssue id))

def pgEvents : EventRepository pgCalls := eventsOver fun c => onPg (.store c)

def pgProjects : ProjectRepository pgCalls := projectsOver fun c => onPg (.store c)

end Soika
