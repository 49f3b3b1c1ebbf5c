import Soika.Adapters.Consistent

/-! # Databases

What SQLite and PostgreSQL have in common: a machine of calls that keeps the
schema constraints, the shared statements, and an upsert whose effect on a group
that exists, or does not, is the same on both.
-/

namespace Soika

open Interaction

structure Database where
  calls : Signature
  machine : Machine calls Error Store
  backend : Backend
  statement : (c : StoreCmd) → Prog calls Error c.Reply
  upsert : Ambient → IssueUpsert → Prog calls Error UpsertOutcome
  overrideFingerprint : Ambient → Id → String → Prog calls Error Issue
  step_consistent : ∀ c s, s.Consistent → (machine.step c s).2.Consistent
  exec_statement : ∀ c φ s, machine.exec (statement c) φ s =
    match φ 0, storeStep backend c s with
    | some e, _ => ⟨.err e, s, φ.tail⟩
    | none, (.ok r, s') => ⟨.ok r, s', φ.tail⟩
    | none, (.error e, s') => ⟨.err e, s', φ.tail⟩
  exec_upsert_row : ∀ ambient u φ s row,
    s.issueByFingerprint u.projectId u.fingerprint = some row →
    machine.exec (upsert ambient u) φ s =
      match φ 0, upsertOnce backend u ambient.draws s with
      | some e, _ => ⟨.err e, s, φ.tail⟩
      | none, .ok (o, s') => ⟨.ok o, s', φ.tail⟩
      | none, .error e => ⟨.err e, s, φ.tail⟩
  exec_upsert_new : ∀ ambient u φ s, s.issueByFingerprint u.projectId u.fingerprint = none →
    (∃ e, (machine.exec (upsert ambient u) φ s).outcome = .err e) ∨
      ∃ o, (machine.exec (upsert ambient u) φ s).outcome = .ok o ∧ o.issue.status = .unresolved

namespace Database

variable (db : Database)

def issues (ambient : Ambient) : IssueRepository db.calls where
  upsertByFingerprint u := db.upsert ambient u
  setStatus issueId status := db.statement (.setStatus issueId status ambient.wall)
  mute issueId spec now := db.statement (.mute issueId spec now)
  clearExpiredMutes now := db.statement (.clearExpiredMutes now)
  overrideFingerprint issueId fp := db.overrideFingerprint ambient issueId fp
  delete id := db.statement (.deleteIssue id)

def events : EventRepository db.calls := eventsOver db.statement

def projects : ProjectRepository db.calls := projectsOver db.statement

def Reachable : Store → Prop := db.machine.Reachable (fun _ => True) (· = .empty)

variable {db}

theorem Reachable.consistent {s : Store} (h : db.Reachable s) : s.Consistent :=
  h.invariant (fun _ h₀ => h₀ ▸ Store.consistent_empty) fun c s _ hs => db.step_consistent c s hs

variable (db)

theorem exec_statement_bind {α : Type} (c : StoreCmd) (f : c.Reply → Prog db.calls Error α)
    (φ : Faults Error) (s : Store) :
    db.machine.exec ((db.statement c).bind f) φ s =
      match φ 0, storeStep db.backend c s with
      | some e, _ => ⟨.err e, s, φ.tail⟩
      | none, (.ok r, s') => db.machine.exec (f r) φ.tail s'
      | none, (.error e, s') => ⟨.err e, s', φ.tail⟩ := by
  rw [Machine.exec_bind, db.exec_statement]
  cases φ 0 with
  | some e => rfl
  | none => rcases storeStep db.backend c s with ⟨_ | _, s'⟩ <;> rfl

theorem exec_statement_ne_panic (c : StoreCmd) (φ : Faults Error) (s : Store) :
    (db.machine.exec (db.statement c) φ s).outcome ≠ .panic := by
  rw [db.exec_statement]
  cases φ 0 with
  | some e => exact nofun
  | none => rcases storeStep db.backend c s with ⟨_ | _, s'⟩ <;> exact nofun

end Database

theorem insertIssue_status {B : Backend} {u : IssueUpsert} {draws : ℕ → String} {s s' : Store}
    {o : UpsertOutcome} (h : insertIssue B u draws s = .ok (o, s')) :
    o.issue.status = .unresolved := by
  obtain ⟨code, -, -, -, rfl, -⟩ := insertIssue_eq_ok.mp h
  rfl

def sqliteDatabase : Database where
  calls := sqliteCalls
  machine := sqliteDb
  backend := sqlite
  statement c := onSqlite (.store c)
  upsert ambient u := onSqlite (.upsert u ambient.draws)
  overrideFingerprint ambient issueId fp := onSqlite (.overrideFingerprint issueId fp ambient.wall)
  step_consistent c _ hs := hs.sqliteStep c
  exec_statement c φ s := by
    rw [sqlite_exec]
    simp only [sqliteStep]
    cases φ 0 with
    | some e => rfl
    | none => rcases storeStep sqlite c s with ⟨_ | _, s'⟩ <;> rfl
  exec_upsert_row ambient u φ s _ _ := by
    rw [sqlite_exec]
    simp only [sqliteStep]
    cases φ 0 with
    | some e => rfl
    | none => cases upsertOnce sqlite u ambient.draws s <;> rfl
  exec_upsert_new ambient u φ s hnone := by
    rw [sqlite_exec]
    simp only [sqliteStep, upsertOnce, hnone]
    cases φ 0 with
    | some e => exact .inl ⟨e, rfl⟩
    | none =>
      cases h : insertIssue sqlite u ambient.draws s with
      | error e => exact .inl ⟨e, rfl⟩
      | ok r => exact .inr ⟨r.1, rfl, insertIssue_status h⟩

theorem sqliteDatabase_ports (ambient : Ambient) :
    sqliteDatabase.issues ambient = sqliteIssues ambient ∧ sqliteDatabase.events = sqliteEvents ∧
      sqliteDatabase.projects = sqliteProjects :=
  ⟨rfl, rfl, rfl⟩

/-- Alone on the database, an upsert of a fingerprint that `row` holds ends at its first call. -/
theorem pg_exec_upsert_row {u : IssueUpsert} (draws : ℕ → String) {φ : Faults Error} {s : Store}
    {row : Issue} (hrow : s.issueByFingerprint u.projectId u.fingerprint = some row) (n : ℕ) :
    pgDb.exec (pgUpsertByFingerprint u draws (n + 1)) φ s =
      match φ 0, upsertOnce postgres u draws s with
      | some e, _ => ⟨.err e, s, φ.tail⟩
      | none, .ok (o, s') => ⟨.ok o, s', φ.tail⟩
      | none, .error e => ⟨.err e, s, φ.tail⟩ := by
  have hstep : pgStep (.lockAndBump u) s =
      commit ((upsertOnce postgres u draws s).map fun r => (some r.1, r.2)) s := by
    simp only [pgStep, lockAndBump, upsertOnce, hrow]
    cases postgres.rowToIssue row with
    | error e => rfl
    | ok current => cases bumpExisting postgres current u s <;> rfl
  simp only [pgUpsertByFingerprint, pgUpsertOnce, Prog.bind_eq, Prog.bind_assoc]
  rw [pg_exec_bind, hstep]
  cases φ 0 with
  | some e => rfl
  | none => cases upsertOnce postgres u draws s <;> rfl

theorem pg_exec_upsert_new {u : IssueUpsert} (draws : ℕ → String) {φ : Faults Error} {s : Store}
    (hnone : s.issueByFingerprint u.projectId u.fingerprint = none) (n : ℕ) :
    (∃ e, (pgDb.exec (pgUpsertByFingerprint u draws (n + 1)) φ s).outcome = .err e) ∨
      ∃ o, (pgDb.exec (pgUpsertByFingerprint u draws (n + 1)) φ s).outcome = .ok o ∧
        o.issue.status = .unresolved := by
  simp only [pgUpsertByFingerprint, pgUpsertOnce, Prog.bind_eq, Prog.bind_assoc]
  rw [pg_exec_bind]
  simp only [pgStep, lockAndBump, hnone]
  cases φ 0 with
  | some e => exact .inl ⟨e, rfl⟩
  | none =>
    simp only [pure, Except.pure, commit_ok, Prog.bind_assoc]
    rw [pg_exec_bind]
    simp only [pgStep, insertOrIgnore, hnone]
    cases φ.tail 0 with
    | some e => exact .inl ⟨e, rfl⟩
    | none =>
      cases h : insertIssue postgres u (fun k => draws (16 * n + k)) s with
      | error e => exact .inl ⟨e, rfl⟩
      | ok r => exact .inr ⟨r.1, rfl, insertIssue_status h⟩

def pgDatabase : Database where
  calls := pgCalls
  machine := pgDb
  backend := postgres
  statement c := onPg (.store c)
  upsert ambient u := pgUpsertByFingerprint u ambient.draws raceAttempts
  overrideFingerprint ambient issueId fp :=
    pgOverrideFingerprint issueId fp ambient.wall raceAttempts
  step_consistent c _ hs := hs.pgStep c
  exec_statement c φ s := by
    rw [← Prog.bind_ret (onPg (.store c)), pg_exec_bind]
    simp only [pgStep]
    cases φ 0 with
    | some e => rfl
    | none => rcases storeStep postgres c s with ⟨_ | _, s'⟩ <;> rfl
  exec_upsert_row ambient u φ s row hrow := pg_exec_upsert_row ambient.draws hrow 2
  exec_upsert_new ambient u φ s hnone := pg_exec_upsert_new ambient.draws hnone 2

theorem pgDatabase_ports (ambient : Ambient) :
    pgDatabase.issues ambient = pgIssues ambient ∧ pgDatabase.events = pgEvents ∧
      pgDatabase.projects = pgProjects :=
  ⟨rfl, rfl, rfl⟩

end Soika
