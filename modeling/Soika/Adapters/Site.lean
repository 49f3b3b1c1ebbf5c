import Soika.Adapters.Issue
import Soika.Adapters.IssueList
import Soika.Auth.Server
import Soika.Library.Sum

/-! # The whole database of a running server

The statements of the project, favorite, issue, event, invite and team repositories that the
handlers of the API call, next to those of sign-in.
-/

namespace Soika

open Table Interaction

/-- Fields used to create a project; the adapter adds the ids. -/
structure NewProject where
  teamId : Id
  name : String
  slug : String
  dsnPublicKey : String
  retentionEvents : ℤ
  retentionDays : ℤ
  webhookUrl : Option String

def NewProject.row (new : NewProject) (id : Id) (shortId : String) (now : Timestamp) :
    ProjectRow where
  id := id
  retentionEvents := new.retentionEvents
  retentionDays := new.retentionDays
  muted := false
  shortId := shortId
  teamId := new.teamId
  name := new.name
  slug := new.slug
  dsnPublicKey := new.dsnPublicKey
  webhookUrl := new.webhookUrl
  alertmanagerSeverity := none
  alertmanagerInterval := none
  createdAt := now
  updatedAt := now
  orphanedAt := none

/-- Partial update of a row of the projects table; a webhook may be set to none. -/
structure ProjectRowUpdate extends ProjectUpdate where
  name : Option String
  teamId : Option Id
  webhookUrl : Option (Option String)

namespace ProjectRowUpdate

/-- `ProjectUpdate { team_id: Some(team_id), ..Default::default() }` -/
def ofTeam (teamId : Id) : ProjectRowUpdate := ⟨⟨none, none, none⟩, none, some teamId, none⟩

/-- `ProjectUpdate { muted: Some(muted), ..Default::default() }` -/
def ofMuted (muted : Bool) : ProjectRowUpdate := ⟨⟨none, none, some muted⟩, none, none, none⟩

def applyRow (u : ProjectRowUpdate) (now : Timestamp) (p : ProjectRow) : ProjectRow :=
  { p with
    toProject := u.apply p.toProject
    name := u.name.getD p.name
    teamId := u.teamId.getD p.teamId
    webhookUrl := u.webhookUrl.getD p.webhookUrl
    updatedAt := now }

@[simp] theorem applyRow_id (u : ProjectRowUpdate) (now : Timestamp) (p : ProjectRow) :
    (u.applyRow now p).id = p.id := rfl

@[simp] theorem applyRow_teamId (u : ProjectRowUpdate) (now : Timestamp) (p : ProjectRow) :
    (u.applyRow now p).teamId = u.teamId.getD p.teamId := rfl

end ProjectRowUpdate

/-- `UPDATE projects SET dsn_public_key = ?, updated_at = ?` -/
def ProjectRow.withDsn (key : String) (now : Timestamp) (p : ProjectRow) : ProjectRow :=
  { p with dsnPublicKey := key, updatedAt := now }

/-- `UPDATE teams SET name = ?, updated_at = ?` -/
def TeamRow.withName (name : String) (now : Timestamp) (t : TeamRow) : TeamRow :=
  { t with name, updatedAt := now }

def ProjectTables.projectById (T : ProjectTables) (id : Id) : Option ProjectRow :=
  lookup ProjectRow.projectId id T.projects

theorem ProjectTables.projectById_mem {T : ProjectTables} {id : Id} {p : ProjectRow}
    (h : T.projectById id = some p) : p ∈ T.projects ∧ p.id = id :=
  lookup_eq_some_mem h

namespace Accounts

variable (B : AccountBackend) (d : Accounts)

/-- The tables that the issue repository works on. -/
def store : Store := ⟨d.projects.map ProjectRow.toProject, d.issues, d.events, d.nextId⟩

/-- What the issue repository has made of them; it writes no project. -/
def withStore (s : Store) : Accounts :=
  { d with issues := s.issues, events := s.events, nextId := s.nextId }

def onStore {α : Type} (f : Store → Except Error α × Store) : Except Error α × Accounts :=
  ((f d.store).1, d.withStore (f d.store).2)

def withProjects (T : ProjectTables) : Accounts := { d with toProjectTables := T }

def projectConflict : Error := .conflict "project slug or DSN already exists"

/-- `INSERT INTO projects` -/
def insertProject (new : NewProject) (shortId : String) (now : Timestamp) :
    Except Error (ProjectRow × Accounts) :=
  let row := new.row d.nextId shortId (B.ts now)
  if ∃ p ∈ d.projects,
      p.slug = row.slug ∨ p.shortId = row.shortId ∨ p.dsnPublicKey = row.dsnPublicKey then
    .error projectConflict
  else if ¬ ∃ t ∈ d.teams, t.id = new.teamId then .error (.db B.foreignKeyViolation)
  else .ok (row, { d.withProjects (d.addProject row) with nextId := d.nextId + 1 })

/-- `UPDATE projects SET name = COALESCE(?, name), ... WHERE id = ? RETURNING` -/
def updateProject (id : Id) (u : ProjectRowUpdate) (now : Timestamp) :
    Except Error (ProjectRow × Accounts) :=
  match d.projectById id with
  | none => .error (.notFound s!"project {id}")
  | some p =>
    if ∃ teamId ∈ u.teamId, ¬ ∃ t ∈ d.teams, t.id = teamId then
      .error (.db B.foreignKeyViolation)
    else
      .ok (u.applyRow (B.ts now) p, d.withProjects (d.modifyProject id (u.applyRow (B.ts now))))

def regenerateDsn (id : Id) (key : String) (now : Timestamp) :
    Except Error (ProjectRow × Accounts) :=
  match d.projectById id with
  | none => .error (.notFound s!"project {id}")
  | some p =>
    if ∃ q ∈ d.projects, q.id ≠ id ∧ q.dsnPublicKey = key then .error projectConflict
    else .ok (p.withDsn key (B.ts now), d.withProjects (d.modifyProject id (.withDsn key (B.ts now))))

/-- `INSERT OR IGNORE INTO project_favorites` -/
def addFavorite (userId projectId : Id) : Except Error (Unit × Accounts) :=
  if d.HasUser userId ∧ ∃ p ∈ d.projects, p.id = projectId then
    .ok ((), { d with
      projectOwned :=
        if .favorite userId projectId ∈ d.projectOwned then d.projectOwned
        else d.projectOwned ++ [.favorite userId projectId] })
  else .error (.db B.foreignKeyViolation)

def removeFavorite (userId projectId : Id) : Accounts :=
  { d with projectOwned := d.projectOwned.filter fun o => o ≠ .favorite userId projectId }

/-- `SELECT project_id FROM project_favorites WHERE user_id = ?` -/
def favoritesOf (userId : Id) : List Id :=
  d.projectOwned.filterMap fun
    | .favorite user projectId => if user = userId then some projectId else none
    | .tagMuteRule _ _ => none

/-- `SELECT p.* FROM projects p JOIN team_members tm ON tm.team_id = p.team_id WHERE tm.user_id = ?` -/
def projectsOfUser (userId : Id) : List ProjectRow :=
  d.projects.flatMap fun p =>
    (d.teamMembers.filter fun m => m.teamId = p.teamId ∧ m.userId = userId).map fun _ => p

def teamConflict (name : String) : Error := .conflict s!"team name already exists: {name}"

/-- `INSERT INTO teams` -/
def createTeam (name : String) (now : Timestamp) : Except Error (TeamRow × Accounts) :=
  if ∃ t ∈ d.teams, t.name = name then .error (teamConflict name)
  else
    let row := ⟨d.nextId, name, B.ts now, B.ts now, none⟩
    .ok (row, { d.withTeams (d.addTeam row) with nextId := d.nextId + 1 })

/-- The write of `rename`. -/
def renameTeam (id : Id) (name : String) (now : Timestamp) : Except Error (Unit × Accounts) :=
  match lookup TeamRow.id id d.teams with
  | none => .error (.notFound s!"team not found: {id}")
  | some _ =>
    if ∃ t ∈ d.teams, t.id ≠ id ∧ t.name = name then .error (teamConflict name)
    else .ok ((), d.withTeams (d.modifyTeam id (.withName name (B.ts now))))

/-- `SELECT u.*, m.role FROM users u JOIN team_members m ON m.user_id = u.id WHERE m.team_id = ?` -/
def members (teamId : Id) : List (UserRow × TeamRole) :=
  d.users.flatMap fun u =>
    (d.teamMembers.filter fun m => m.teamId = teamId ∧ m.userId = u.id).map fun m => (u, m.role)

/-- `SELECT t.* FROM teams t JOIN team_members m ON m.team_id = t.id WHERE m.user_id = ?` -/
def teamsOfUser (userId : Id) : List TeamRow :=
  d.teams.flatMap fun t =>
    (d.teamMembers.filter fun m => m.teamId = t.id ∧ m.userId = userId).map fun _ => t

/-- `SELECT g.*, u.* FROM team_member_grants g LEFT JOIN users u ON LOWER(u.email) = g.email` -/
def memberGrantsOf (sqlLower : String → String) (teamId : Id) :
    List (MemberGrantRow × Option UserRow) :=
  (select MemberGrantRow.teamId teamId d.memberGrants).flatMap fun g =>
    match d.users.filter fun u => sqlLower u.email = g.email with
    | [] => [(g, none)]
    | users => users.map fun u => (g, some u)

/-- `SELECT u.user_id, g.group_path FROM team_group_grants g JOIN user_sso_groups u` -/
def groupSourcesOf (teamId : Id) : List (Id × String) :=
  (select GroupGrantRow.teamId teamId d.groupGrants).flatMap fun g =>
    (d.userSsoGroups.filter fun u => u.groupPath = g.groupPath).map fun u => (u.userId, g.groupPath)

end Accounts

inductive SiteQuery where
  | projectBySlug (slug : String)
  | projectByShortId (shortId : String)
  | projectById (id : Id)
  | shortIdTaken (shortId : String)
  | projects
  | projectsOfUser (userId : Id)
  | projectsOfTeam (teamId : Id)
  | favoritesOf (userId : Id)
  | teamById (id : Id)
  | teamByShortId (shortId : String)
  | teams
  | teamsOfUser (userId : Id)
  | members (teamId : Id)
  | isMember (teamId userId : Id)
  /-- The three statements of `inspect_team`. -/
  | memberGrantsOf (teamId : Id)
  | groupGrantsOf (teamId : Id)
  | groupSourcesOf (teamId : Id)
  | users
  | invitesOf (teamId : Id)
  | issueByShortId (shortId : String)
  | issues (projectId : Id) (filter : IssueFilter)
  | eventById (id : Id)
  | latestEvent (issueId : Id)
  | recentEvents (issueId : Id) (limit : ℕ)

def SiteQuery.Reply : SiteQuery → Type
  | projectBySlug _ | projectByShortId _ | projectById _ => Option ProjectRow
  | shortIdTaken _ => Bool
  | projects | projectsOfUser _ | projectsOfTeam _ => List ProjectRow
  | favoritesOf _ => List Id
  | teamById _ | teamByShortId _ => Option TeamRow
  | teams | teamsOfUser _ => List TeamRow
  | members _ => List (UserRow × TeamRole)
  | isMember _ _ => Bool
  | memberGrantsOf _ => List (MemberGrantRow × Option UserRow)
  | groupGrantsOf _ => List GroupGrantRow
  | groupSourcesOf _ => List (Id × String)
  | users => List UserRow
  | invitesOf _ => List Invite
  | issueByShortId _ => Option Issue
  | issues _ _ => List Issue
  | eventById _ | latestEvent _ => Option Event
  | recentEvents _ _ => List Event

inductive SiteWrite where
  | insertProject (new : NewProject) (shortId : String)
  | updateProject (id : Id) (u : ProjectRowUpdate)
  | regenerateDsn (id : Id) (key : String)
  | deleteProject (id : Id)
  | addFavorite (userId projectId : Id)
  | removeFavorite (userId projectId : Id)
  | createTeam (name : String)
  | renameTeam (id : Id) (name : String)
  | setStatus (issueId : Id) (status : IssueStatus)
  | mute (issueId : Id) (spec : MuteSpec) (now : Timestamp)
  | overrideFingerprint (issueId : Id) (fingerprint : String)
  /-- The two statements of an override in PostgreSQL. -/
  | lockAndMerge (issueId : Id) (fingerprint : String)
  | renameLocked (issueId : Id) (fingerprint : String)

def SiteWrite.Reply : SiteWrite → Type
  | insertProject _ _ | updateProject _ _ | regenerateDsn _ _ => ProjectRow
  | deleteProject _ | addFavorite _ _ | removeFavorite _ _ | renameTeam _ _ => Unit
  | createTeam _ => TeamRow
  | setStatus _ _ | mute _ _ _ | overrideFingerprint _ _ | renameLocked _ _ => Issue
  | lockAndMerge _ _ => Option Issue

inductive SiteCall where
  | read (q : SiteQuery)
  | write (w : SiteWrite)

def SiteCall.Reply : SiteCall → Type
  | read q => q.Reply
  | write w => w.Reply

/-- The calls of sign-in and those of the rest of the API. -/
abbrev siteCalls : Signature := Auth.authCalls.sum ⟨SiteCall, SiteCall.Reply⟩

/-- What the process runs on, for the whole API. -/
structure SiteHost extends Auth.Host where
  engine : Engine
  engine_backend : engine.backend = backend.toBackend
  /-- How the database arranges rows that no `ORDER BY` tells apart. -/
  arrange : List Issue → List Issue
  arrange_perm : ∀ rows, (arrange rows).Perm rows
  /-- The short id that the trigger of the teams table gives a row. -/
  teamShortId : Id → String
  /-- `LOWER` in SQL -/
  sqlLower : String → String

def Accounts.settle {α : Type} (d : Accounts) : Except Error (α × Accounts) → Except Error α × Accounts
  | .ok (a, d') => (.ok a, d')
  | .error e => (.error e, d)

namespace SiteHost

variable (H : SiteHost)

/-- `ORDER BY name` -/
def byName (rows : List ProjectRow) : List ProjectRow :=
  rows.mergeSort fun a b => decide (a.name ≤ b.name)

/-- `ORDER BY name` -/
def teamsByName (rows : List TeamRow) : List TeamRow :=
  rows.mergeSort fun a b => decide (a.name ≤ b.name)

def eventsOf (d : Accounts) (issueId : Id) : List Event :=
  (select Event.issueId issueId d.events).mergeSort (moreRecent H.backend.toBackend)

def eval (d : Accounts) : (q : SiteQuery) → Except Error q.Reply
  | .projectBySlug slug => .ok (d.projectSlugged slug)
  | .projectByShortId shortId => .ok (lookup ProjectRow.shortId shortId d.projects)
  | .projectById id => .ok (d.projectById id)
  | .shortIdTaken shortId => .ok (decide (∃ p ∈ d.projects, p.shortId = shortId))
  | .projects => .ok (byName d.projects)
  | .projectsOfUser userId => .ok (byName (d.projectsOfUser userId))
  | .projectsOfTeam teamId => .ok (byName (select ProjectRow.teamId teamId d.projects))
  | .favoritesOf userId => .ok (d.favoritesOf userId)
  | .teamById id => .ok (lookup TeamRow.id id d.teams)
  | .teamByShortId shortId => .ok (lookup (fun t => H.teamShortId t.id) shortId d.teams)
  | .members teamId =>
    .ok ((d.members teamId).mergeSort fun a b => decide (a.1.displayName ≤ b.1.displayName))
  | .teams => .ok (teamsByName d.teams)
  | .teamsOfUser userId => .ok (teamsByName (d.teamsOfUser userId))
  | .isMember teamId userId => .ok (d.memberOf teamId userId).isSome
  | .memberGrantsOf teamId => .ok (d.memberGrantsOf H.sqlLower teamId)
  | .groupGrantsOf teamId => .ok (select GroupGrantRow.teamId teamId d.groupGrants)
  | .groupSourcesOf teamId => .ok (d.groupSourcesOf teamId)
  -- The rows stand in the order of their creation.
  | .users => .ok d.users
  | .invitesOf teamId =>
    .ok ((select Invite.teamId teamId d.invites).mergeSort fun a b =>
      H.backend.le a.createdAt b.createdAt)
  | .issueByShortId shortId => (lookup Issue.shortId shortId d.issues).mapM H.backend.rowToIssue
  | .issues projectId filter => H.engine.list H.arrange d.store projectId filter
  | .eventById id => .ok (lookup Event.id id d.events)
  | .latestEvent issueId => .ok (H.eventsOf d issueId).head?
  | .recentEvents issueId limit => .ok ((H.eventsOf d issueId).take limit)

/-- One attempt at a write, at the time of the adapter's own clock. -/
def runOn (now : Timestamp) (d : Accounts) : (w : SiteWrite) → Except Error w.Reply × Accounts
  | .insertProject new shortId => d.settle (d.insertProject H.backend new shortId now)
  | .updateProject id u => d.settle (d.updateProject H.backend id u now)
  | .regenerateDsn id key => d.settle (d.regenerateDsn H.backend id key now)
  | .deleteProject id => (.ok (), d.withProjects (d.removeProject id))
  | .addFavorite userId projectId => d.settle (d.addFavorite H.backend userId projectId)
  | .removeFavorite userId projectId => (.ok (), d.removeFavorite userId projectId)
  | .createTeam name => d.settle (d.createTeam H.backend name now)
  | .renameTeam id name => d.settle (d.renameTeam H.backend id name now)
  | .setStatus issueId status =>
    d.onStore (setStatus H.backend.toBackend issueId status now)
  | .mute issueId spec mutedAt => d.onStore (mute H.backend.toBackend issueId spec mutedAt)
  | .overrideFingerprint issueId fingerprint =>
    d.onStore fun s => commit (overrideFingerprintOnce H.backend.toBackend issueId fingerprint now s) s
  | .lockAndMerge issueId fingerprint =>
    d.onStore fun s => commit (lockAndMerge H.backend.toBackend issueId fingerprint now s) s
  | .renameLocked issueId fingerprint =>
    d.onStore fun s => commit (renameLocked H.backend.toBackend issueId fingerprint now s) s

def runWrite (w : SiteWrite) (s : Auth.Server) : Except Error w.Reply × Auth.Server :=
  ((H.runOn s.clock s.db w).1, { s with db := (H.runOn s.clock s.db w).2 })

def pages : Machine ⟨SiteCall, SiteCall.Reply⟩ Error Auth.Server where
  step
    | .read q, s => (H.eval s.db q, s)
    | .write w, s => H.runWrite w s

/-- The whole server. -/
def site : Machine siteCalls Error Auth.Server := H.machine.sum H.pages

end SiteHost

end Soika
