import Soika.Adapters.Machine
import Soika.Api.Access
import Soika.Api.Issues
import Soika.Api.Projects
import Soika.Api.Settings
import Soika.Domain.Slug

/-! # The handlers of the API

Projects, issues, events, teams, invites and accounts: what each request checks, and what it then
reads and writes.
-/

namespace Soika.Site

open Interaction Auth

structure ProjectDraw where
  dsnKey : String
  slugId : BitVec 128
  /-- The candidates for the short id. -/
  shortIds : List String

structure NewProjectRequest extends CreateProjectRequest where
  teamId : Id
  slug : Option String

/-- `unique_short_id`, with the candidates that are left. -/
def uniqueShortId : List String → Prog siteCalls Error String
  | [] => .fail (.internal "could not allocate a unique short id")
  | code :: codes => do
    let taken : Bool ← read (.shortIdTaken code)
    if taken then uniqueShortId codes else return code

namespace Projects

/-- An explicit slug that is not blank, or one that is derived from the name. -/
def slugOf (req : NewProjectRequest) (slugId : BitVec 128) : String :=
  match req.slug.filter fun s => trim s ≠ "" with
  | some s => slugify (trim s) slugId
  | none => slugify (trim req.name) slugId

def newProject (app : SiteState) (req : NewProjectRequest) (draw : ProjectDraw) : NewProject where
  teamId := req.teamId
  name := trim req.name
  slug := slugOf req draw.slugId
  dsnPublicKey := draw.dsnKey
  retentionEvents := (req.retentionEvents.filter (0 < ·)).getD app.config.defaultEventsRetention
  retentionDays := (req.retentionDays.filter (0 < ·)).getD 0
  webhookUrl := (req.webhookUrl.map trim).filter (· ≠ "")

/-- Instance managers may create in any team, an admin of a team in theirs. -/
def requireCreator (user : UserRow) (teamId : Id) (k : Handler) : Handler :=
  requireTeamManager (refuse 403 "you must be an admin of the target team to create a project")
    user teamId k

/-- `POST /projects` -/
def create (app : SiteState) (cookies : Option String) (req : NewProjectRequest)
    (draw : ProjectDraw) : Handler :=
  currentUser app cookies fun user =>
  require (requireUiManagedProjects app) <|
  if trim req.name = "" then refuse 400 "name must not be empty"
  else requireCreator user req.teamId <|
    if app.config.refusesWebhook req.webhookUrl then
      refuse 400 "webhook_url must be a valid http(s) URL"
    else do
      let shortId ← uniqueShortId draw.shortIds
      let project : ProjectRow ← write (.insertProject (newProject app req draw) shortId)
      return .project 201 (.fromProject app.baseUrl project)

/-- `GET /projects` -/
def list (app : SiteState) (cookies : Option String) : Handler :=
  currentUser app cookies fun user => do
    let projects : List ProjectRow ←
      if user.instanceRole.canManageInstance then read .projects else read (.projectsOfUser user.id)
    return .projects (projects.map (.fromProject app.baseUrl))

def defaultFilter : IssueFilter := ⟨some .unresolved, none, none, none, none, none, none, .lastSeen⟩

/-- `GET /projects/{id}` -/
def get (app : SiteState) (cookies : Option String) (id : String) : Handler :=
  currentUser app cookies fun user =>
  resolveProject id fun project =>
  requireMember user project.id fun _ => do
    let issues : List Issue ← read (.issues project.id defaultFilter)
    return .projectDetail (.fromProject app.baseUrl project) (issues.map (⟨·, project.slug⟩))

/-- The columns that a checked `PATCH` sets; a blank webhook is cleared. -/
def rowUpdate (req : UpdateProjectRequest) (u : ProjectUpdate) : ProjectRowUpdate where
  toProjectUpdate := u
  name := req.name.map trim
  teamId := none
  webhookUrl := req.webhookUrl.map fun url => if trim url = "" then none else some (trim url)

/-- `PATCH /projects/{id}` -/
def update (app : SiteState) (cookies : Option String) (id : String) (req : UpdateProjectRequest) :
    Handler :=
  currentUser app cookies fun user =>
  require (requireUiManagedProjects app) <|
  resolveProject id fun project =>
  requireAdmin user project.id <|
  match Api.Projects.checkUpdate app.config req with
  | .error msg => refuse 400 msg
  | .ok u => do
    let updated : ProjectRow ← write (.updateProject project.id (rowUpdate req u))
    return .project 200 (.fromProject app.baseUrl updated)

/-- `PATCH /projects/{id}/team` -/
def changeTeam (app : SiteState) (cookies : Option String) (id : String) (teamId : Id) : Handler :=
  currentUser app cookies fun user =>
  require (requireUiManagedProjects app) <|
  resolveProject id fun project =>
  requireManager user <| do
  match ← read (.teamById teamId) with
  | none => refuse 404 "team not found"
  | some _ =>
    let updated : ProjectRow ← write (.updateProject project.id (.ofTeam teamId))
    return .project 200 (.fromProject app.baseUrl updated)

/-- `DELETE /projects/{id}` -/
def delete (app : SiteState) (cookies : Option String) (id : String) : Handler :=
  currentUser app cookies fun user =>
  require (requireUiManagedProjects app) <|
  resolveProject id fun project =>
  requireAdmin user project.id <| do
    let _ ← write (.deleteProject project.id)
    return .noContent

/-- `GET /projects/{id}/dsn` -/
def dsn (app : SiteState) (cookies : Option String) (id : String) : Handler :=
  currentUser app cookies fun user =>
  resolveProject id fun project =>
  requireMember user project.id fun _ =>
  .ret (.dsn (buildDsn app.baseUrl project.dsnPublicKey project.id) project.dsnPublicKey project.id)

/-- `GET /projects/{id}/sdk-setup` -/
def sdkSetup (app : SiteState) (cookies : Option String) (id : String) : Handler :=
  currentUser app cookies fun user =>
  resolveProject id fun project =>
  requireMember user project.id fun _ =>
    let dsn := buildDsn app.baseUrl project.dsnPublicKey project.id
    let (envelopeUrl, storeUrl) := ingestUrls app.baseUrl project.id
    .ret (.sdkSetup ⟨project.id, dsn, sdkSnippets dsn project.dsnPublicKey envelopeUrl storeUrl⟩)

/-- `POST /projects/{id}/mute`, which toggles when no state is given. -/
def mute (app : SiteState) (cookies : Option String) (id : String) (muted : Option Bool) : Handler :=
  currentUser app cookies fun user =>
  resolveProject id fun project =>
  requireAdmin user project.id <| do
    let updated : ProjectRow ←
      write (.updateProject project.id (.ofMuted (muted.getD (!project.muted))))
    return .project 200 (.fromProject app.baseUrl updated)

/-- `POST /projects/{id}/regenerate-dsn` -/
def regenerateDsn (app : SiteState) (cookies : Option String) (id newKey : String) : Handler :=
  currentUser app cookies fun user =>
  resolveProject id fun project =>
  requireAdmin user project.id <| do
    let updated : ProjectRow ← write (.regenerateDsn project.id newKey)
    return .dsn (buildDsn app.baseUrl updated.dsnPublicKey updated.id) updated.dsnPublicKey updated.id

def favoriteTarget (userId projectId : Id) : Option Bool → Prog siteCalls Error Bool
  | some v => .ret v
  | none => do
    let favorites : List Id ← read (.favoritesOf userId)
    return !favorites.contains projectId

def setFavorite (userId projectId : Id) (target : Bool) : Prog siteCalls Error Unit :=
  if target then write (.addFavorite userId projectId) else write (.removeFavorite userId projectId)

/-- `POST /projects/{id}/favorite`, which toggles when no state is given. -/
def favorite (app : SiteState) (cookies : Option String) (id : String) (favorited : Option Bool) :
    Handler :=
  currentUser app cookies fun user =>
  resolveProject id fun project =>
  requireMember user project.id fun _ => do
    let target ← favoriteTarget user.id project.id favorited
    setFavorite user.id project.id target
    return .favorite target

end Projects

structure IssueListQuery where
  status : Option String
  level : Option String
  environment : Option String
  release : Option String
  query : Option String
  limit : Option ℤ
  offset : Option ℤ
  sort : Option String

/-- `IssueStatus::from_str` -/
def parseStatus (s : String) : Option IssueStatus :=
  if s = "unresolved" then some .unresolved
  else if s = "resolved" then some .resolved
  else if s = "muted" then some .muted
  else none

def nonBlank (s : Option String) : Option String := s.filter fun v => trim v ≠ ""

/-- `to_filter` -/
def IssueListQuery.toFilter (q : IssueListQuery) : Except String IssueFilter := do
  let status ← match nonBlank q.status with
    | none => .ok none
    | some s =>
      match parseStatus (trim s) with
      | some status => .ok (some status)
      | none => .error "invalid status filter"
  if q.limit.any (· < 0) then .error "limit must be non-negative"
  else if q.offset.any (· < 0) then .error "offset must be non-negative"
  else do
    let sort ← match (nonBlank q.sort).map trim with
      | none => .ok .lastSeen
      | some s =>
        if s = "recency" ∨ s = "last_seen" then .ok .lastSeen
        else if s = "frequency" ∨ s = "event_count" then .ok .eventCount
        else .error "invalid sort"
    return ⟨status, nonBlank q.level, nonBlank q.environment, nonBlank q.release, nonBlank q.query,
      q.limit, q.offset, sort⟩

/-- `override_fingerprint` in PostgreSQL; a rename that loses a race is tried again. -/
def pgOverrideFingerprint (issueId : Id) (fingerprint : String) : ℕ → Prog siteCalls Error Issue
  | 0 => .fail (.conflict s!"fingerprint {fingerprint} is being written concurrently; try again")
  | n + 1 => do
    match ← write (.lockAndMerge issueId fingerprint) with
    | some issue => return issue
    | none =>
      match ← attempt (.renameLocked issueId fingerprint) with
      | .ok issue => .ret issue
      | .error e =>
        if e.isUniqueViolation then pgOverrideFingerprint issueId fingerprint n else .fail e

def overrideFingerprint (dialect : Dialect) (issueId : Id) (fingerprint : String) :
    Prog siteCalls Error Issue :=
  match dialect with
  | .sqlite => write (.overrideFingerprint issueId fingerprint)
  | .postgres => pgOverrideFingerprint issueId fingerprint raceAttempts

namespace Issues

/-- `GET /projects/{id}/issues` -/
def listForProject (app : SiteState) (cookies : Option String) (id : String) (q : IssueListQuery) :
    Handler :=
  currentUser app cookies fun user =>
  resolveProject id fun project =>
  requireMember user project.id fun _ =>
  match q.toFilter with
  | .error msg => refuse 400 msg
  | .ok filter => do
    let issues : List Issue ← read (.issues project.id filter)
    return .issues (issues.map (⟨·, project.slug⟩))

/-- `GET /issues/{id}` -/
def get (app : SiteState) (cookies : Option String) (id : String) : Handler :=
  currentUser app cookies fun user =>
  authorizeIssue user id fun issue project => do
    let latest : Option Event ← read (.latestEvent issue.id)
    return .issueDetail ⟨issue, project.slug⟩ latest

/-- `GET /issues/{id}/events` -/
def listEvents (app : SiteState) (cookies : Option String) (id : String) (limit : ℤ) : Handler :=
  currentUser app cookies fun user =>
  authorizeIssue user id fun issue _ => do
    let events : List Event ← read (.recentEvents issue.id (max 1 (min limit 200)).toNat)
    return .events events

/-- `POST /issues/{id}/resolve` and `POST /issues/{id}/unresolve` -/
def setStatus (app : SiteState) (cookies : Option String) (id : String) (status : IssueStatus) :
    Handler :=
  currentUser app cookies fun user =>
  authorizeIssue user id fun issue project => do
    let updated : Issue ← write (.setStatus issue.id status)
    return .issue ⟨updated, project.slug⟩

/-- `POST /issues/{id}/mute` -/
def mute (app : SiteState) (cookies : Option String) (id : String) (req : MuteRequest) : Handler :=
  currentUser app cookies fun user => do
    let now : Timestamp ← query .now
    match req.toSpec now with
    | none => .abort
    | some (.error msg) => refuse 400 msg
    | some (.ok spec) =>
      authorizeIssue user id fun issue project => do
        let later : Timestamp ← query .now
        let updated : Issue ← write (.mute issue.id spec later)
        return .issue ⟨updated, project.slug⟩

/-- `PATCH /issues/{id}/fingerprint` -/
def updateFingerprint (app : SiteState) (cookies : Option String) (id fingerprint : String) :
    Handler :=
  currentUser app cookies fun user =>
  if trim fingerprint = "" then refuse 400 "fingerprint must not be empty"
  else authorizeIssue user id fun issue project => do
    let updated ← overrideFingerprint app.dialect issue.id (trim fingerprint)
    return .issue ⟨updated, project.slug⟩

end Issues

/-- `GET /events/{id}` -/
def Events.get (app : SiteState) (cookies : Option String) (id : PathId) : Handler :=
  currentUser app cookies fun user =>
  Projects.parseId id fun eventId => do
  match ← read (.eventById eventId) with
  | none => refuse 404 "event not found"
  | some event => requireMember user event.projectId fun _ => .ret (.event event)

def validateTeamName (name : String) : Except Error String :=
  if trim name = "" then .error (.validation "team name must not be empty") else .ok (trim name)

def grantBinding (g : MemberGrantRow) (user : Option UserRow) : GrantBinding where
  email := g.email
  role := g.role
  userId := user.map UserRow.id
  localAccount := user.any fun u => u.authProvider = .localAccount

/-- `team_grants` -/
def inspectTeam (teamId : Id) : Prog siteCalls Error TeamGrantView := do
  let grants : List (MemberGrantRow × Option UserRow) ← read (.memberGrantsOf teamId)
  let groups : List GroupGrantRow ← read (.groupGrantsOf teamId)
  let sources : List (Id × String) ← read (.groupSourcesOf teamId)
  return {
    members := grants.map fun g => grantBinding g.1 g.2
    groups := groups.map fun g => ⟨g.groupPath, g.role⟩
    sources := (grants.filterMap fun g => g.2.map fun u => ⟨u.id, "email"⟩) ++
      sources.map fun s => ⟨s.1, s.2⟩ }

def teamGrants (app : SiteState) (teamId : Id) : Prog siteCalls Error (Option TeamGrantView) :=
  if app.management.teamSource = .yaml then (inspectTeam teamId).bind fun view => .ret (some view)
  else .ret none

def loadTeamView (app : SiteState) (status : ℕ) (team : TeamRow) : Handler := do
  let members : List (UserRow × TeamRole) ← read (.members team.id)
  let projects : List ProjectRow ← read (.projectsOfTeam team.id)
  let grants ← teamGrants app team.id
  return .team status ⟨team, members, projects, grants⟩

def summaries (user : UserRow) : List TeamRow → Prog siteCalls Error (List TeamSummary)
  | [] => .ret []
  | team :: teams => do
    let members : List (UserRow × TeamRole) ← read (.members team.id)
    let projects : List ProjectRow ← read (.projectsOfTeam team.id)
    let role : Option TeamRole ← query (.memberRole team.id user.id)
    let rest ← summaries user teams
    return ⟨role, team, members.length, projects.length⟩ :: rest

/-- The user is the only admin among the members. -/
def isLastAdmin (members : List (UserRow × TeamRole)) (role : TeamRole) : Bool :=
  role = .admin && (members.countP fun m => m.2 = .admin) ≤ 1

namespace Teams

/-- `GET /teams` -/
def list (app : SiteState) (cookies : Option String) : Handler :=
  currentUser app cookies fun user => do
    let teams : List TeamRow ←
      if user.instanceRole.canManageInstance then read .teams else read (.teamsOfUser user.id)
    let views ← summaries user teams
    return .teams views

/-- `POST /teams` -/
def create (app : SiteState) (cookies : Option String) (name : String) : Handler :=
  adminUser app cookies fun _ =>
  require (requireUiManagedTeams app.toAppState) <|
  match validateTeamName name with
  | .error e => .fail e
  | .ok name => do
    let team : TeamRow ← write (.createTeam name)
    loadTeamView app 201 team

/-- `GET /teams/{id}` -/
def get (app : SiteState) (cookies : Option String) (id : PathId) : Handler :=
  currentUser app cookies fun user =>
  resolveTeam id fun team =>
  if user.instanceRole.canManageInstance then loadTeamView app 200 team
  else do
    let member : Bool ← read (.isMember team.id user.id)
    if member then loadTeamView app 200 team
    else .fail (.forbidden "you do not have access to this team")

/-- `PATCH /teams/{id}` -/
def update (app : SiteState) (cookies : Option String) (id : PathId) (name : String) : Handler :=
  adminUser app cookies fun _ =>
  require (requireUiManagedTeams app.toAppState) <|
  resolveTeam id fun team =>
  match validateTeamName name with
  | .error e => .fail e
  | .ok name => do
    let _ ← write (.renameTeam team.id name)
    match ← read (.teamById team.id) with
    | none => .fail (.notFound s!"team not found: {team.id}")
    | some team => loadTeamView app 200 team

/-- `DELETE /teams/{id}` -/
def delete (app : SiteState) (cookies : Option String) (id : PathId) (moveProjectsTo : Option Id) :
    Handler :=
  adminUser app cookies fun _ =>
  require (requireUiManagedTeams app.toAppState) <|
  resolveTeam id fun team =>
  require (if moveProjectsTo.isSome then requireUiManagedProjects app else .ok ()) <| do
    let _ ← change (.deleteTeam team.id moveProjectsTo)
    return .noContent

/-- `POST /teams/{id}/members` -/
def addMember (app : SiteState) (cookies : Option String) (id : PathId) (userId : Id)
    (role : Option TeamRole) : Handler :=
  currentUser app cookies fun caller =>
  require (requireUiManagedTeams app.toAppState) <|
  resolveTeam id fun found =>
  Teams.requireTeamManager caller found.id <| do
  match ← read (.teamById found.id) with
  | none => .fail (.notFound s!"team {found.id}")
  | some team =>
    match ← query (.findUserById userId) with
    | none => .fail (.notFound s!"user {userId}")
    | some _ =>
      let _ ← change (.addMember found.id userId (role.getD .contributor))
      loadTeamView app 200 team

/-- `PATCH /teams/{id}/members/{user_id}` -/
def setMemberRole (app : SiteState) (cookies : Option String) (id : PathId) (userId : PathId)
    (role : TeamRole) : Handler :=
  currentUser app cookies fun caller =>
  require (requireUiManagedTeams app.toAppState) <|
  resolveTeam id fun found =>
  Teams.parseId userId fun userId =>
  Teams.requireTeamManager caller found.id <| do
  match ← read (.teamById found.id) with
  | none => .fail (.notFound s!"team {found.id}")
  | some team =>
    let members : List (UserRow × TeamRole) ← read (.members found.id)
    match members.find? fun m => m.1.id = userId with
    | none => .fail (.notFound "member not found in team")
    | some (_, currentRole) =>
      if role ≠ .admin ∧ isLastAdmin members currentRole then
        .fail (.conflict "cannot demote the last admin of the team")
      else do
        let _ ← change (.setMemberRole found.id userId role)
        loadTeamView app 200 team

/-- `DELETE /teams/{id}/members/{user_id}` -/
def removeMember (app : SiteState) (cookies : Option String) (id : PathId) (userId : PathId) :
    Handler :=
  currentUser app cookies fun caller =>
  require (requireUiManagedTeams app.toAppState) <|
  resolveTeam id fun found =>
  Teams.parseId userId fun userId =>
  Teams.requireTeamManager caller found.id <| do
    let members : List (UserRow × TeamRole) ← read (.members found.id)
    if (members.find? fun m => m.1.id = userId).any fun m => isLastAdmin members m.2 then
      .fail (.conflict "cannot remove the last admin of the team")
    else do
      let _ ← change (.removeMember found.id userId)
      return .noContent

end Teams

/-- Minimal email sanity check: a single `@` with parts that are not empty. -/
def looksLikeEmail (addr : String) : Bool :=
  match addr.toList.splitOn '@' with
  | [loc, domain] =>
    loc ≠ [] && domain.contains '.' && domain.head? ≠ some '.' && domain.getLast? ≠ some '.'
  | _ => false

def inviteTtl : Duration := 7 * 24 * 60 * 60 * 1000000000

namespace Invites

/-- `GET /teams/{id}/invites` -/
def list (app : SiteState) (cookies : Option String) (id : PathId) : Handler :=
  currentUser app cookies fun user =>
  resolveTeam id fun team =>
  Invites.requireTeamManager user team.id <| do
    let invites : List Invite ← read (.invitesOf team.id)
    return .invites (invites.map (.fromInvite app.baseUrl))

/-- `POST /teams/{id}/invites` -/
def create (app : SiteState) (cookies : Option String) (id : PathId) (role : Option TeamRole)
    (email : Option String) (token : String) : Handler :=
  currentUser app cookies fun user =>
  require (requireInvitesEnabled app.toAppState) <|
  resolveTeam id fun found =>
  Invites.requireTeamManager user found.id <| do
  match ← read (.teamById found.id) with
  | none => refuse 404 "team not found"
  | some _ =>
    let email := (email.map trim).filter (· ≠ "")
    if email.any fun addr => !looksLikeEmail addr then refuse 400 "invalid email address"
    else do
      let now : Timestamp ← query .now
      let expiresAt ← Prog.orAbort (now.add inviteTtl)
      let invite : Invite ← change (.createInvite
        ⟨token, found.id, role.getD .contributor, email, some user.id, expiresAt⟩)
      return .invite (.fromInvite app.baseUrl invite)

/-- `DELETE /teams/{id}/invites/{token}`; an admin of one team deletes no invite of another. -/
def revoke (app : SiteState) (cookies : Option String) (id : PathId) (token : String) : Handler :=
  currentUser app cookies fun user =>
  resolveTeam id fun team =>
  Invites.requireTeamManager user team.id <| do
  match ← query (.findInvite token) with
  | none => refuse 404 "invite not found"
  | some invite =>
    if invite.teamId = team.id then do
      let _ ← change (.deleteInvite token)
      return .noContent
    else refuse 404 "invite not found"

end Invites

/-- `GET /admin/users` -/
def listUsers (app : SiteState) (cookies : Option String) : Handler :=
  adminUser app cookies fun _ => do
    let users : List UserRow ← read .users
    return .users (users.map (.withConfig app.toAppState))

inductive Request where
  | createProject (req : NewProjectRequest) (draw : ProjectDraw)
  | listProjects
  | getProject (id : String)
  | updateProject (id : String) (req : UpdateProjectRequest)
  | changeTeam (id : String) (teamId : Id)
  | deleteProject (id : String)
  | dsn (id : String)
  | sdkSetup (id : String)
  | muteProject (id : String) (muted : Option Bool)
  | regenerateDsn (id newKey : String)
  | favorite (id : String) (favorited : Option Bool)
  | listIssues (id : String) (q : IssueListQuery)
  | getIssue (id : String)
  | listEvents (id : String) (limit : ℤ)
  | setStatus (id : String) (status : IssueStatus)
  | muteIssue (id : String) (req : MuteRequest)
  | updateFingerprint (id fingerprint : String)
  | getEvent (id : PathId)
  | listTeams
  | createTeam (name : String)
  | getTeam (id : PathId)
  | updateTeam (id : PathId) (name : String)
  | deleteTeam (id : PathId) (moveProjectsTo : Option Id)
  | addMember (id : PathId) (userId : Id) (role : Option TeamRole)
  | setMemberRole (id : PathId) (userId : PathId) (role : TeamRole)
  | removeMember (id : PathId) (userId : PathId)
  | listInvites (id : PathId)
  | createInvite (id : PathId) (role : Option TeamRole) (email : Option String) (token : String)
  | revokeInvite (id : PathId) (token : String)
  | listUsers
  | approveUser (id : Id)
  | deleteUser (id : Id)
  | setUserRole (id : Id) (role : InstanceRole)

def administer (p : Prog authCalls Error Auth.Response) : Handler :=
  p.inl.bind fun response => .ret (.admin response)

def Request.handler (app : SiteState) (cookies : Option String) : Request → Handler
  | createProject req draw => Projects.create app cookies req draw
  | listProjects => Projects.list app cookies
  | getProject id => Projects.get app cookies id
  | updateProject id req => Projects.update app cookies id req
  | changeTeam id teamId => Projects.changeTeam app cookies id teamId
  | deleteProject id => Projects.delete app cookies id
  | dsn id => Projects.dsn app cookies id
  | sdkSetup id => Projects.sdkSetup app cookies id
  | muteProject id muted => Projects.mute app cookies id muted
  | regenerateDsn id newKey => Projects.regenerateDsn app cookies id newKey
  | favorite id favorited => Projects.favorite app cookies id favorited
  | listIssues id q => Issues.listForProject app cookies id q
  | getIssue id => Issues.get app cookies id
  | listEvents id limit => Issues.listEvents app cookies id limit
  | setStatus id status => Issues.setStatus app cookies id status
  | muteIssue id req => Issues.mute app cookies id req
  | updateFingerprint id fingerprint => Issues.updateFingerprint app cookies id fingerprint
  | getEvent id => Events.get app cookies id
  | listTeams => Teams.list app cookies
  | createTeam name => Teams.create app cookies name
  | getTeam id => Teams.get app cookies id
  | updateTeam id name => Teams.update app cookies id name
  | deleteTeam id moveProjectsTo => Teams.delete app cookies id moveProjectsTo
  | addMember id userId role => Teams.addMember app cookies id userId role
  | setMemberRole id userId role => Teams.setMemberRole app cookies id userId role
  | removeMember id userId => Teams.removeMember app cookies id userId
  | listInvites id => Invites.list app cookies id
  | createInvite id role email token => Invites.create app cookies id role email token
  | revokeInvite id token => Invites.revoke app cookies id token
  | listUsers => Site.listUsers app cookies
  | approveUser id => administer (Api.approveUser app.toAppState cookies id)
  | deleteUser id => administer (Api.deleteUser app.toAppState cookies id)
  | setUserRole id role => administer (Api.setUserRole app.toAppState cookies id role)

/-- A request with its cookies. -/
structure Incoming where
  cookies : Option String
  request : Request

def Incoming.handler (app : SiteState) (r : Incoming) : Handler := r.request.handler app r.cookies

def Incoming.Presents (app : SiteState) (r : Incoming) (sessionId : String) : Prop :=
  sessionIdFrom app.toAppState r.cookies = some sessionId

/-- The server as the requests arrive. -/
def serve (app : SiteState) (requests : List Incoming) (s : Server) :
    Pool siteCalls Error Server Response :=
  .start (requests.map (Incoming.handler app)) s

end Soika.Site
