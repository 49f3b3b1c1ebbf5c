import Soika.Adapters.Store

/-! # Issue adapter

The statements and transactions of the issue repository, for both databases. A
transaction maps the state before it to its result and the state it commits, or
to an error.
-/

namespace Soika

open Table

namespace Issue

variable (B : Backend)

/-- One more event on the row: `UPDATE issues SET status, title, last_seen, event_count + 1, …`. -/
def bump (upsert : IssueUpsert) (i : Issue) : Issue :=
  { i with
    status := if i.status = .resolved then .unresolved else i.status
    title := upsert.title
    lastSeen := B.ts upsert.seenAt
    eventCount := i.eventCount + 1
    updatedAt := B.ts upsert.seenAt }

def ofUpsert (upsert : IssueUpsert) (id : Id) (shortId : String) : Issue where
  id := id
  shortId := shortId
  projectId := upsert.projectId
  fingerprint := upsert.fingerprint
  title := upsert.title
  culprit := upsert.culprit
  level := upsert.level
  environment := upsert.environment
  release := upsert.release
  status := .unresolved
  mutedAt := none
  mutedUntil := none
  muteThreshold := none
  muteWindowSeconds := none
  firstSeen := B.ts upsert.seenAt
  lastSeen := B.ts upsert.seenAt
  eventCount := 1
  createdAt := B.ts upsert.seenAt
  updatedAt := B.ts upsert.seenAt

/-- `UPDATE issues SET status, muted_at = NULL, …, updated_at`. -/
def withStatus (status : IssueStatus) (now : Timestamp) (i : Issue) : Issue :=
  { i with
    status := status
    mutedAt := none
    mutedUntil := none
    muteThreshold := none
    muteWindowSeconds := none
    updatedAt := B.ts now }

/-- `UPDATE issues SET status = 'muted', muted_at, …, updated_at`. -/
def withMute (spec : MuteSpec) (now : Timestamp) (i : Issue) : Issue :=
  { i with
    status := .muted
    mutedAt := some (B.ts now)
    mutedUntil := match spec with
      | .until t => some (B.ts t)
      | _ => none
    muteThreshold := match spec with
      | .eventRate threshold _ => some threshold
      | _ => none
    muteWindowSeconds := match spec with
      | .eventRate _ windowSeconds => some windowSeconds
      | _ => none
    updatedAt := B.ts now }

/-- `status = 'muted' AND muted_until IS NOT NULL AND muted_until <= now`. -/
def muteExpired (now : Timestamp) (i : Issue) : Bool :=
  i.status = .muted && i.mutedUntil.any fun t => B.le t (B.ts now)

/-- The survivor of a merge: `UPDATE issues SET fingerprint, event_count, first_seen, …`. -/
def absorb (source : Issue) (fingerprint : String) (now : Timestamp) (i : Issue) : Issue :=
  { i with
    fingerprint := fingerprint
    eventCount := i.eventCount + source.eventCount
    firstSeen := min i.firstSeen source.firstSeen
    lastSeen := max i.lastSeen source.lastSeen
    updatedAt := B.ts now }

/-- `UPDATE issues SET fingerprint, updated_at`. -/
def withFingerprint (fingerprint : String) (now : Timestamp) (i : Issue) : Issue :=
  { i with fingerprint := fingerprint, updatedAt := B.ts now }

end Issue

namespace Store

/-- The first of sixteen random short ids that no issue has. -/
def uniqueShortIdOn (s : Store) (draws : ℕ → String) : Except Error String :=
  match ((List.range 16).map draws).find? fun code => s.issues.all fun i => i.shortId ≠ code with
  | some code => .ok code
  | none => .error (.internal "could not allocate a unique short id")

/-- The other issue of the target's project that holds the fingerprint. -/
def collision (s : Store) (target : Issue) (fingerprint : String) : Option Issue :=
  s.issues.find? fun i =>
    i.projectId = target.projectId && i.fingerprint = fingerprint && i.id ≠ target.id

/-- `UPDATE events SET issue_id = target WHERE issue_id = source`. -/
def repointEvents (s : Store) (source target : Id) : Store :=
  { s with events := modify Event.issueId source (fun e => { e with issueId := target }) s.events }

@[simp] theorem repointEvents_issues (s : Store) (source target : Id) :
    (s.repointEvents source target).issues = s.issues := rfl
@[simp] theorem repointEvents_projects (s : Store) (source target : Id) :
    (s.repointEvents source target).projects = s.projects := rfl

end Store

section Transactions

variable (B : Backend)

def bumpExisting (current : Issue) (upsert : IssueUpsert) (s : Store) :
    Except Error (UpsertOutcome × Store) := do
  let issue ← B.rowToIssue (current.bump B upsert)
  return (⟨issue, false, current.status = .resolved⟩, s.modifyIssue current.id (Issue.bump B upsert))

/-- `INSERT INTO issues … RETURNING`, with a short id found on the same connection. -/
def insertIssue (upsert : IssueUpsert) (draws : ℕ → String) (s : Store) :
    Except Error (UpsertOutcome × Store) := do
  let shortId ← s.uniqueShortIdOn draws
  let row := Issue.ofUpsert B upsert s.nextId shortId
  match s.projectById upsert.projectId with
  | none => .error (.db B.foreignKeyViolation)
  | some _ =>
    let issue ← B.rowToIssue row
    return (⟨issue, true, false⟩, { s with issues := s.issues ++ [row], nextId := s.nextId + 1 })

/-- SQLite: the whole read-then-write of an upsert in one `BEGIN IMMEDIATE` transaction. -/
def upsertOnce (upsert : IssueUpsert) (draws : ℕ → String) (s : Store) :
    Except Error (UpsertOutcome × Store) :=
  match s.issueByFingerprint upsert.projectId upsert.fingerprint with
  | some row => do
    let current ← B.rowToIssue row
    bumpExisting B current upsert s
  | none => insertIssue B upsert draws s

/-- PostgreSQL: lock the issue of the fingerprint and bump it, if it exists. -/
def lockAndBump (upsert : IssueUpsert) (s : Store) :
    Except Error (Option UpsertOutcome × Store) :=
  match s.issueByFingerprint upsert.projectId upsert.fingerprint with
  | some row => do
    let current ← B.rowToIssue row
    let (outcome, s) ← bumpExisting B current upsert s
    return (some outcome, s)
  | none => return (none, s)

/-- PostgreSQL: `INSERT … ON CONFLICT (project_id, fingerprint) DO NOTHING RETURNING`. -/
def insertOrIgnore (upsert : IssueUpsert) (draws : ℕ → String) (s : Store) :
    Except Error (Option UpsertOutcome × Store) :=
  match s.issueByFingerprint upsert.projectId upsert.fingerprint with
  | some _ => do
    let _ ← s.uniqueShortIdOn draws
    return (none, s)
  | none => do
    let (outcome, s) ← insertIssue B upsert draws s
    return (some outcome, s)

/-- The merge branch: re-point the events, delete the source, fold it into the target. -/
def mergeInto (target source : Issue) (fingerprint : String) (now : Timestamp) (s : Store) :
    Except Error (Issue × Store) := do
  let issue ← B.rowToIssue (Issue.absorb B source fingerprint now target)
  let s := (s.repointEvents source.id target.id).removeIssue source.id
  return (issue, s.modifyIssue target.id (Issue.absorb B source fingerprint now))

def renameTo (target : Issue) (fingerprint : String) (now : Timestamp) (s : Store) :
    Except Error (Issue × Store) := do
  let issue ← B.rowToIssue (target.withFingerprint B fingerprint now)
  return (issue, s.modifyIssue target.id (Issue.withFingerprint B fingerprint now))

/-- SQLite: a fingerprint override in one `BEGIN IMMEDIATE` transaction. -/
def overrideFingerprintOnce (issueId : Id) (fingerprint : String) (now : Timestamp) (s : Store) :
    Except Error (Issue × Store) :=
  match s.issueById issueId with
  | none => .error (.notFound s!"issue {issueId}")
  | some row => do
    let target ← B.rowToIssue row
    if target.fingerprint = fingerprint then return (target, s)
    match s.collision target fingerprint with
    | some row => do
      let source ← B.rowToIssue row
      mergeInto B target source fingerprint now s
    | none => renameTo B target fingerprint now s

/--
PostgreSQL: a fingerprint override up to the rename, which may lose a race. The rows are locked,
so a no-op and a merge end here; `none` asks for the rename.
-/
def lockAndMerge (issueId : Id) (fingerprint : String) (now : Timestamp) (s : Store) :
    Except Error (Option Issue × Store) :=
  match s.issueById issueId with
  | none => .error (.notFound s!"issue {issueId}")
  | some row => do
    let target ← B.rowToIssue row
    if target.fingerprint = fingerprint then return (some target, s)
    match s.collision target fingerprint with
    | some row => do
      let source ← B.rowToIssue row
      let (issue, s) ← mergeInto B target source fingerprint now s
      return (some issue, s)
    | none => return (none, s)

/-- PostgreSQL: the rename of a locked target, refused by the unique index after a lost race. -/
def renameLocked (issueId : Id) (fingerprint : String) (now : Timestamp) (s : Store) :
    Except Error (Issue × Store) :=
  match s.issueById issueId with
  | none => .error (.db .rowNotFound)
  | some target =>
    match s.collision target fingerprint with
    | some _ => .error (.db (.postgres "23505"))
    | none => renameTo B target fingerprint now s

/-- `UPDATE issues … WHERE id = ? RETURNING`, committed by itself. -/
def updateReturning (issueId : Id) (f : Issue → Issue) (s : Store) : Except Error Issue × Store :=
  match s.issueById issueId with
  | some row => (B.rowToIssue (f row), s.modifyIssue issueId f)
  | none => (.error (.notFound s!"issue {issueId}"), s)

/-- `set_status`, which clears the mute columns whatever the status. -/
def setStatus (issueId : Id) (status : IssueStatus) (now : Timestamp) :
    Store → Except Error Issue × Store :=
  updateReturning B issueId (Issue.withStatus B status now)

/-- `mute` -/
def mute (issueId : Id) (spec : MuteSpec) (now : Timestamp) : Store → Except Error Issue × Store :=
  updateReturning B issueId (Issue.withMute B spec now)

/-- `clear_expired_mutes`: only mutes with an end, whose end has passed. -/
def clearExpiredMutes (now : Timestamp) (s : Store) : Except Error ℕ × Store :=
  (.ok (s.issues.countP (Issue.muteExpired B now)),
    { s with issues := s.issues.map fun i =>
        if i.muteExpired B now then i.withStatus B .unresolved now else i })

/-- `delete` -/
def deleteIssue (id : Id) (s : Store) : Except Error Unit × Store := (.ok (), s.removeIssue id)

end Transactions

end Soika
