import Mathlib.Data.Finset.Dedup
import Mathlib.Data.List.Dedup
import Soika.Adapters.Directory
import Soika.Adapters.Retry
import Soika.Domain.SyncPlan
import Soika.Library.Transaction

/-! # Configuration sync

One transaction makes the teams and projects of the database those of the file. Each
statement of it is answered in a world that may fail it, that orders the rows of a query
as it likes, and that draws the codes of a new project.
-/

namespace Soika

open Table

structure SyncWorld where
  /-- The error a statement fails with before it does anything. -/
  fault : Option DbError
  /-- The order in which the rows of a query come. -/
  order : {α : Type} → List α → List α
  order_perm : ∀ {α : Type} (rows : List α), (order rows).Perm rows
  shortId : String
  dsn : String

/-- The database in a transaction, and the report under way. -/
structure Session where
  db : Directory
  report : SyncReport

abbrev SyncTx := Transaction SyncWorld Error Session

namespace ConfigSync

def execute {α : Type} (f : SyncWorld → Directory → Except Error (α × Directory)) : SyncTx α :=
  Transaction.statement fun w s =>
    match w.fault with
    | some e => .error (.db e)
    | none =>
      match f w s.db with
      | .ok (a, d) => .ok (a, { s with db := d })
      | .error e => .error e

def select {α : Type} (rows : Directory → List α) : SyncTx (List α) :=
  execute fun w d => .ok (w.order (rows d), d)

def fetch {α : Type} (value : Directory → α) : SyncTx α := execute fun _ d => .ok (value d, d)

def update (f : Directory → Directory) : SyncTx Unit := execute fun _ d => .ok ((), f d)

def updateTeams (f : TeamTables → TeamTables) : SyncTx Unit :=
  update fun d => { d with toTeamTables := f d.toTeamTables }

def updateProjects (f : ProjectTables → ProjectTables) : SyncTx Unit :=
  update fun d => { d with toProjectTables := f d.toProjectTables }

def record (entity key : String) (action : SyncActionKind) : SyncTx Unit :=
  Transaction.modify fun s => { s with report := s.report.record entity key action }

section

variable (P : Platform)

/-- `INSERT INTO teams`; names are unique. -/
def insertTeam (name : String) (now : Timestamp) : SyncTx Id :=
  execute fun _ d =>
    match d.teamNamed name with
    | some _ => .error (.db P.uniqueViolation)
    | none =>
      .ok (d.nextId, { d with
        toTeamTables := d.addTeam ⟨d.nextId, name, now, now, none⟩, nextId := d.nextId + 1 })

/-- `INSERT INTO team_member_grants`; a team grants an email once. -/
def insertMemberGrant (g : MemberGrantRow) : SyncTx Unit :=
  execute fun _ d =>
    if ∃ h ∈ d.memberGrants, h.teamId = g.teamId ∧ h.email = g.email then
      .error (.db P.uniqueViolation)
    else .ok ((), { d with toTeamTables := d.addMemberGrant g })

/-- `INSERT INTO team_group_grants`; a team grants a group once. -/
def insertGroupGrant (g : GroupGrantRow) : SyncTx Unit :=
  execute fun _ d =>
    if ∃ h ∈ d.groupGrants, h.teamId = g.teamId ∧ h.groupPath = g.groupPath then
      .error (.db P.uniqueViolation)
    else .ok ((), { d with toTeamTables := d.addGroupGrant g })

/-- `INSERT INTO projects` with new codes; slugs and codes are unique. -/
def insertProject (row : Id → String → String → ProjectRow) : SyncTx Unit :=
  execute fun w d =>
    let row := row d.nextId w.shortId w.dsn
    if ∃ p ∈ d.projects,
        p.slug = row.slug ∨ p.shortId = row.shortId ∨ p.dsnPublicKey = row.dsnPublicKey then
      .error (.db P.uniqueViolation)
    else .ok ((), { d with toProjectTables := d.addProject row, nextId := d.nextId + 1 })

/-- `DELETE FROM teams`; a team that a project refers to is not deleted. -/
def deleteTeam (id : Id) : SyncTx Unit :=
  execute fun _ d =>
    if ∃ p ∈ d.projects, p.teamId = id then .error (.db P.foreignKeyViolation)
    else .ok ((), { d with toTeamTables := d.removeTeam id })

def expectedEmails (team : TeamConfig) : List (String × TeamRole) :=
  team.memberList.map fun g => (P.toLowercase g.email, g.role)

def expectedGroups (team : TeamConfig) : List (String × TeamRole) :=
  team.groupList.map fun g => (g.group, g.role)

def grantsChanged (team : TeamConfig) (emails groups : List (String × TeamRole)) : Bool :=
  emails.toFinset ≠ (expectedEmails P team).toFinset ∨
    groups.toFinset ≠ (expectedGroups team).toFinset

/-- A declared team that exists: it is restored, or touched, or left as it is. -/
def refreshTeam (name : String) (row : TeamRow) (changed : Bool) (now : Timestamp) :
    SyncTx Unit :=
  if row.orphanedAt.isSome then do
    record "team" name .restore
    updateTeams fun T =>
      T.modifyTeam row.id fun t => { t with orphanedAt := none, updatedAt := now }
  else if changed then do
    record "team" name .update
    updateTeams fun T => T.modifyTeam row.id fun t => { t with updatedAt := now }
  else record "team" name .unchanged

def upsertTeam (team : TeamConfig) (now : Timestamp) : SyncTx Id := do
  let found ← fetch fun d => d.teamNamed team.name
  match found with
  | some row => do
    let currentEmails ← select fun d => d.emailsOf row.id
    let currentGroups ← select fun d => d.groupsOf row.id
    refreshTeam team.name row (grantsChanged P team currentEmails currentGroups) now
    return row.id
  | none => do
    let id ← insertTeam P team.name now
    record "team" team.name .create
    return id

/-- The roles that grants give a user of this email in these groups. -/
def rolesFrom (emails groups : List (String × TeamRole)) (email : String)
    (userGroups : List String) : List TeamRole :=
  (emails.filter fun g => g.1 = email).map Prod.snd ++
    groups.flatMap fun g => (userGroups.filter (· = g.1)).map fun _ => g.2

/-- `SELECT role FROM team_member_grants ... UNION ALL SELECT g.role FROM team_group_grants g JOIN
user_sso_groups u ...` -/
def grantedRoles (d : Directory) (team user : Id) (email : String) : List TeamRole :=
  rolesFrom (d.emailsOf team) (d.groupsOf team) email (d.groupsOfUser user)

/-- Whether the user has a role in the team, which is stored. -/
def reconcile (team user : Id) (email : String) (now : Timestamp) : SyncTx Bool := do
  let roles ← select fun d => grantedRoles d team user (P.toLowercase email)
  let role := reconcileMemberships (roles.map fun r => TeamRole.fromDb r.asStr)
  updateTeams fun T => T.setMember team user role now
  return role.isSome

/-- Recompute only declared teams; orphan teams keep their frozen membership. -/
def syncTeam (team : TeamConfig) (now : Timestamp) : SyncTx Unit := do
  let teamId ← upsertTeam P team now
  updateTeams fun T => T.clearMemberGrants teamId
  updateTeams fun T => T.clearGroupGrants teamId
  Transaction.each (fun g => insertMemberGrant P ⟨teamId, P.toLowercase g.email, g.role⟩)
    team.memberList
  Transaction.each (fun g => insertGroupGrant P ⟨teamId, g.group, g.role⟩) team.groupList
  let users ← select fun d => d.users
  Transaction.each (fun u => do
    let _ ← reconcile P teamId u.id u.email now
    return ()) users
  -- the number of administrators is only logged
  let _ ← fetch fun d => (d.teamMembers.filter fun m => m.teamId = teamId ∧ m.role = .admin).length
  return ()

def intervalColumn (seconds : ℤ) : Except Error (Option RefreshInterval) :=
  if seconds = 0 then .ok none
  else if h : 10 ≤ seconds ∧ seconds ≤ 86400 then .ok (some ⟨seconds, h⟩)
  else .error (.validation "Alertmanager interval must be between 10 and 86400 seconds")

structure ProjectFields where
  name : String
  teamId : Id
  retentionEvents : ℤ
  retentionDays : ℤ
  webhookUrl : Option String
  alertmanagerInterval : Option RefreshInterval
  alertmanagerSeverity : Option AlertSeverity
  deriving DecidableEq

def ProjectFields.of (p : ProjectRow) : ProjectFields :=
  ⟨p.name, p.teamId, p.retentionEvents, p.retentionDays, p.webhookUrl, p.alertmanagerInterval,
    p.alertmanagerSeverity⟩

def ProjectFields.set (c : ProjectFields) (p : ProjectRow) : ProjectRow :=
  { p with
    name := c.name, teamId := c.teamId, retentionEvents := c.retentionEvents
    retentionDays := c.retentionDays, webhookUrl := c.webhookUrl
    alertmanagerInterval := c.alertmanagerInterval, alertmanagerSeverity := c.alertmanagerSeverity }

/-- `UPDATE projects SET name = ?, ..., orphaned_at = NULL, updated_at = ?` -/
def ProjectFields.refresh (c : ProjectFields) (now : Timestamp) (p : ProjectRow) : ProjectRow :=
  { c.set p with orphanedAt := none, updatedAt := now }

/-- The declared columns of a new row. -/
def ProjectFields.row (c : ProjectFields) (slug : String) (now : Timestamp) (id : Id)
    (shortId dsn : String) : ProjectRow where
  id := id
  muted := false
  shortId := shortId
  slug := slug
  dsnPublicKey := dsn
  createdAt := now
  updatedAt := now
  orphanedAt := none
  name := c.name
  teamId := c.teamId
  retentionEvents := c.retentionEvents
  retentionDays := c.retentionDays
  webhookUrl := c.webhookUrl
  alertmanagerInterval := c.alertmanagerInterval
  alertmanagerSeverity := c.alertmanagerSeverity

def upsertProject (slug : String) (c : ProjectFields) (existing : Option ProjectRow)
    (now : Timestamp) : SyncTx Unit :=
  match existing with
  | some row => do
    let action := planPresent true row.orphanedAt.isSome (ProjectFields.of row ≠ c)
    Transaction.when (action ≠ .unchanged)
      (updateProjects fun T => T.modifyProject row.id (c.refresh now))
    record "project" slug action
  | none => do
    insertProject P (c.row slug now)
    record "project" slug .create

def syncProject (p : ProjectConfig) (retention : ℤ) (now : Timestamp) : SyncTx Unit := do
  let team ← fetch fun d => d.teamNamed p.team
  match team with
  | none =>
    Transaction.fail (.validation ("project " ++ p.slug ++ " references an unknown team"))
  | some team => do
    let existing ← fetch fun d => d.projectSlugged p.slug
    let interval ←
      Transaction.ofExcept (intervalColumn (p.alertmanagerIntervalSeconds.getD 0))
    upsertProject P p.slug
      ⟨p.name, team.id, p.retentionEvents.getD retention, p.retentionDays.getD 0, p.webhookUrl,
        interval, p.alertmanagerSeverity⟩ existing now

/-- One batch of `delete_project_events`; whether it deleted anything. -/
def deleteEventBatch (batch : ℕ) (id : Id) : SyncTx Bool :=
  execute fun w d =>
    let ids := ((w.order (Table.select Event.projectId id d.events)).take batch).map Event.id
    let n := (d.events.filter fun e => e.id ∈ ids).length
    .ok (n ≠ 0, { d with toProjectTables := d.deleteEvents ids })

/-- Batches until one deletes nothing, which is after at most as many as there are events. -/
def deleteProjectEvents (write : WritePolicy) (id : Id) : SyncTx Unit := fun ws s =>
  Transaction.repeatWhile (deleteEventBatch write.deleteBatch id) (s.db.events.length + 1) ws s

def markOrphanProject (row : ProjectRow) (now : Timestamp) : SyncTx Unit :=
  if row.orphanedAt.isSome then return ()
  else do
    updateProjects fun T => T.modifyProject row.id fun p => { p with orphanedAt := some now }
    record "project" row.slug .orphan

def markOrphanTeam (row : TeamRow) (now : Timestamp) : SyncTx Unit :=
  if row.orphanedAt.isSome then return ()
  else do
    updateTeams fun T => T.modifyTeam row.id fun t => { t with orphanedAt := some now }
    record "team" row.name .orphan

def pruneProject (write : WritePolicy) (row : ProjectRow) (policy : OrphanPolicy)
    (now : Timestamp) : SyncTx Unit :=
  match policy with
  | .readonly => markOrphanProject row now
  | .delete => do
    deleteProjectEvents write row.id
    updateProjects fun T => T.removeProject row.id
    record "project" row.slug .delete

def pruneTeam (row : TeamRow) (policy : OrphanPolicy) (now : Timestamp) : SyncTx Unit :=
  match policy with
  | .readonly => markOrphanTeam row now
  | .delete => do
    let slugs ← select fun d =>
      (Table.select ProjectRow.teamId row.id d.projects).map ProjectRow.slug
    if slugs ≠ [] then
      Transaction.fail (.validation
        ("team " ++ row.name ++ " still owns projects: " ++ ", ".intercalate slugs))
    else do
      deleteTeam P row.id
      record "team" row.name .delete

def setReport (f : SyncReport → SyncReport) : SyncTx Unit :=
  Transaction.modify fun s => { s with report := f s.report }

def syncProjects (write : WritePolicy) (projects : List ProjectConfig) (policy : OrphanPolicy)
    (retention : ℤ) (now : Timestamp) : SyncTx Unit := do
  Transaction.each (fun p => syncProject P p retention now) projects
  let rows ← select fun d => d.projects
  Transaction.each (fun row =>
    if projects.any fun p => p.slug = row.slug then pure ()
    else pruneProject write row policy now) rows

/-- The users whose email is granted something, as SQL compares emails. -/
def granted (d : Directory) (g : MemberGrantRow) : List UserRow :=
  d.users.filter fun u => P.sqlLower u.email = g.email

/-- The teams that are not declared, and the counts of pending and local grants. -/
def pruneTeams (teams : List TeamConfig) (policy : OrphanPolicy) (now : Timestamp) :
    SyncTx Unit := do
  let rows ← select fun d => d.teams
  Transaction.each (fun row =>
    if teams.any fun t => t.name = row.name then pure () else pruneTeam P row policy now) rows
  let pendingGrants ← fetch fun d => (d.memberGrants.filter fun g => granted P d g = []).length
  setReport fun r => { r with pendingGrants }
  let localGrants ← fetch fun d => (d.memberGrants.flatMap fun g =>
    (granted P d g).filter fun u => u.authProvider = .localAccount).length
  setReport fun r => { r with localGrants }

def pruneAndSyncProjects (write : WritePolicy) (desired : ConfigFile)
    (settings : ManagementSettings) (retention : ℤ) (now : Timestamp) : SyncTx Unit := do
  desired.projects.elim (pure ()) fun projects =>
    syncProjects P write projects settings.projectOrphanPolicy retention now
  desired.teams.elim (pure ()) fun teams => pruneTeams P teams settings.teamOrphanPolicy now

def populateReport : SyncTx Unit := do
  let orphanedProjects ← fetch fun d => (d.projects.filter fun p => p.orphanedAt.isSome).length
  setReport fun r => { r with orphanedProjects }
  let orphanedTeams ← fetch fun d => (d.teams.filter fun t => t.orphanedAt.isSome).length
  setReport fun r => { r with orphanedTeams }
  let localRows ← select fun d => d.memberGrants.flatMap fun g =>
    ((granted P d g).filter fun u => u.authProvider = .localAccount).map fun u => (g, u)
  setReport fun r => { r with
    localAccounts := r.localAccounts ++ localRows.map fun (g, u) =>
      ⟨g.email, TeamRole.fromDb g.role.asStr, some u.id, true⟩ }

def saveNotifications (desired : ConfigFile) (settings : ManagementSettings) : SyncTx Unit :=
  match desired.notifications with
  | some notifications =>
    if settings.notificationSource = .yaml then do
      Transaction.ofExcept (notifications.validateStored P.parseUrl)
      update fun d => { d with notificationSettings := notifications }
    else pure ()
  | none => pure ()

def initialReport (desired : ConfigFile) (settings : ManagementSettings) (syncedAt : Timestamp) :
    SyncReport :=
  { SyncReport.empty with
    loaded := settings.projectSource = .yaml ∨ settings.teamSource = .yaml ∨
      settings.notificationSource = .yaml
    syncedAt := some syncedAt
    projectsInFile := desired.projectList.length
    teamsInFile := desired.teamList.length }

def applyPlan (write : WritePolicy) (desired : ConfigFile) (settings : ManagementSettings)
    (retention : ℤ) (now syncedAt : Timestamp) : SyncTx SyncReport := do
  saveNotifications P desired settings
  setReport fun _ => initialReport desired settings syncedAt
  Transaction.when (settings.teamSource = .ui) (updateTeams TeamTables.unorphanTeams)
  Transaction.each (fun team => syncTeam P team now) desired.teamList
  Transaction.when (settings.projectSource = .ui) (updateProjects ProjectTables.unorphanProjects)
  pruneAndSyncProjects P write desired settings retention now
  populateReport P
  -- `COMMIT`, which may fail as any statement
  fetch fun _ => ()
  Transaction.read Session.report

def applyOnce (write : WritePolicy) (desired : ConfigFile) (settings : ManagementSettings)
    (retention : ℤ) (now syncedAt : Timestamp) : SyncTx SyncReport := do
  let existingTeams ← select fun d => d.teams.map TeamRow.name
  let existingProjects ← select fun d => d.projectTeams
  Transaction.ofExcept (validatePlan P desired settings existingTeams existingProjects)
  applyPlan P write desired settings retention now syncedAt

/-- What one attempt of a write meets: its worlds and the clock. -/
structure Attempt where
  worlds : ℕ → SyncWorld
  now : Timestamp
  syncedAt : Timestamp

/-- One attempt on a directory: it commits, or leaves the directory as it was. -/
def attempt {α : Type} (tx : Attempt → SyncTx α) (a : Attempt) (d : Directory) :
    Except Error α × Directory :=
  let (result, s) := (tx a).commit a.worlds ⟨d, .empty⟩
  (result, s.db)

/-- `apply`, with its retries. -/
def apply (write : WritePolicy) (desired : ConfigFile) (settings : ManagementSettings)
    (retention : ℤ) (attempts : ℕ → Attempt) (d : Directory) : Except Error SyncReport × Directory :=
  retryWrite write.maxRetries "synchronize configuration"
    (fun n => attempt (fun a => applyOnce P write desired settings retention a.now a.syncedAt)
      (attempts n)) d

/-- `INSERT INTO user_sso_groups`, for a user that exists and a group that is not there. -/
def insertSsoGroup (g : UserSsoGroup) : SyncTx Unit :=
  execute fun _ d =>
    if ¬ ∃ u ∈ d.users, u.id = g.userId then .error (.db P.foreignKeyViolation)
    else if g.groupPath ∈ d.groupsOfUser g.userId then .error (.db P.uniqueViolation)
    else .ok ((), { d with userSsoGroups := d.userSsoGroups ++ [g] })

/-- One attempt of `reconcile_user_grants`: the groups of a user are replaced, and the role of the
user is computed for every team that is not orphaned. -/
def reconcileUserOnce (user : Id) (groups : List String) (now : Timestamp) : SyncTx Bool := do
  update fun d => { d with
    userSsoGroups := Table.remove UserSsoGroup.userId user d.userSsoGroups }
  Transaction.each (fun group => insertSsoGroup P ⟨user, group, now⟩) groups.dedup
  let row ← fetch fun d => d.userById user
  match row with
  | none => Transaction.fail (.db .rowNotFound)
  | some row => do
    let teams ← select fun d => d.teams.filter fun t => t.orphanedAt = none
    let granted ← Transaction.fold (fun granted (team : TeamRow) => do
      let here ← reconcile P team.id user row.email now
      return granted || here) false teams
    -- `COMMIT`
    fetch fun _ => ()
    return granted

/-- `reconcile_user`, with its retries. -/
def reconcileUser (write : WritePolicy) (user : Id) (groups : List String)
    (attempts : ℕ → Attempt) (d : Directory) : Except Error Bool × Directory :=
  retryWrite write.maxRetries "reconcile SSO grants"
    (fun n => attempt (fun a => reconcileUserOnce P user groups a.now) (attempts n)) d

end

end ConfigSync

end Soika
