import Soika.Adapters.Site
import Soika.Alertmanager.Alert
import Soika.Api.Snippets
import Soika.Auth.Session
import Soika.Ports

/-! # Access to projects and teams

The guards that the handlers of the API share: who the caller is, which project, team or issue the
path names, and the role that the caller has there. A guard goes on with what it has found, or ends
the request.
-/

namespace Soika.Site

open Table Interaction Auth

/-- What the handlers read of the configuration. -/
structure SiteState extends AppState where
  baseUrl : String
  config : Config

/-- A project as returned to the client: its row, under its slug, with the DSN. -/
structure ProjectView where
  row : ProjectRow
  dsn : String

/-- `{scheme}://{public_key}@{host}/{project_id}` -/
def buildDsn (baseUrl publicKey : String) (projectId : Id) : String :=
  let (scheme, rest) := match cutText "://".toList baseUrl.toList with
    | some (scheme, rest) => (String.ofList scheme, String.ofList rest)
    | none => ("http", baseUrl)
  s!"{scheme}://{publicKey}@{trimEndSlashes rest}/{projectId}"

def ProjectView.fromProject (baseUrl : String) (row : ProjectRow) : ProjectView where
  row := row
  dsn := buildDsn baseUrl row.dsnPublicKey row.id

structure IssueView where
  issue : Issue
  projectSlug : String

/-- What makes a user a member: a grant to the address, or to a group. -/
structure MembershipSource where
  userId : Id
  source : String

structure TeamGrantView where
  members : List GrantBinding
  groups : List GroupGrant
  sources : List MembershipSource

structure TeamView where
  row : TeamRow
  members : List (UserRow × TeamRole)
  projects : List ProjectRow
  grants : Option TeamGrantView

structure TeamSummary where
  role : Option TeamRole
  row : TeamRow
  memberCount : ℕ
  projectCount : ℕ

/-- The DSN and the snippets, with the project that the DSN names. -/
structure SdkSetupView where
  projectId : Id
  dsn : String
  snippets : List SdkSnippet

structure InviteView where
  invite : Invite
  link : String

def inviteLink (baseUrl token : String) : String := s!"{trimEndSlashes baseUrl}/invite/{token}"

def InviteView.fromInvite (baseUrl : String) (invite : Invite) : InviteView where
  invite := invite
  link := inviteLink baseUrl invite.token

inductive Response where
  | refused (status : ℕ) (message : String)
  | noContent
  | project (status : ℕ) (view : ProjectView)
  | projects (views : List ProjectView)
  | projectDetail (view : ProjectView) (issues : List IssueView)
  | dsn (dsn publicKey : String) (projectId : Id)
  | favorite (favorited : Bool)
  | issue (view : IssueView)
  | issueDetail (view : IssueView) (latest : Option Event)
  | issues (views : List IssueView)
  | event (e : Event)
  | events (es : List Event)
  | sdkSetup (view : SdkSetupView)
  | team (status : ℕ) (view : TeamView)
  | teams (views : List TeamSummary)
  | invite (view : InviteView)
  | invites (views : List InviteView)
  | users (views : List AdminUserRow)
  | admin (response : Auth.Response)

namespace Response

def projectIds : Response → List Id
  | project _ view => [view.row.id]
  | projects views => views.map fun view => view.row.id
  | projectDetail view _ => [view.row.id]
  | dsn _ _ projectId => [projectId]
  | sdkSetup view => [view.projectId]
  | team _ view => view.projects.map ProjectRow.projectId
  | _ => []

def issuesShown : Response → List Issue
  | projectDetail _ views | issues views => views.map IssueView.issue
  | issue view | issueDetail view _ => [view.issue]
  | _ => []

def eventsShown : Response → List Event
  | issueDetail _ latest => latest.toList
  | event e => [e]
  | events es => es
  | _ => []

/-- The teams that the response shows, with their members, or whose invites it shows. -/
def teamIds : Response → List Id
  | team _ view => [view.row.id]
  | teams views => views.map fun view => view.row.id
  | invite view => [view.invite.teamId]
  | invites views => views.map fun view => view.invite.teamId
  | _ => []

def usersListed : Response → List AdminUserRow
  | users views => views
  | _ => []

end Response

abbrev Handler := Prog siteCalls Error Response

def query (q : Query) : Prog siteCalls Error q.Reply := Prog.ask (S := siteCalls) (.inl (.query q))

def change (w : Auth.Write) : Prog siteCalls Error w.Reply :=
  Prog.ask (S := siteCalls) (.inl (.write w))

def read (q : SiteQuery) : Prog siteCalls Error q.Reply := Prog.ask (S := siteCalls) (.inr (.read q))

def write (w : SiteWrite) : Prog siteCalls Error w.Reply :=
  Prog.ask (S := siteCalls) (.inr (.write w))

/-- A write whose error is looked at. -/
def attempt (w : SiteWrite) : Prog siteCalls Error (Except Error w.Reply) :=
  Prog.attempt (S := siteCalls) (.inr (.write w))

/-- `json_error` -/
def refuse (status : ℕ) (message : String) : Handler := .ret (.refused status message)

def require (check : Except Error Unit) (k : Handler) : Handler :=
  match check with
  | .error e => .fail e
  | .ok () => k

def requireUiManagedProjects (app : SiteState) : Except Error Unit :=
  if app.management.projectSource = .yaml then
    .error (.forbidden "projects are managed by the configuration file")
  else .ok ()

/-- A path segment: a UUID, or other text. -/
inductive PathId where
  | uuid (id : Id)
  | text (raw : String)

def PathId.raw : PathId → String
  | uuid id => s!"{id}"
  | text raw => raw

/-- `parse_id`, with the response to a segment that is no UUID. -/
def parseId (invalid : String → Handler) (raw : PathId) (k : Id → Handler) : Handler :=
  match raw with
  | .uuid id => k id
  | .text raw => invalid raw

/-- `parse_id` of the project, issue and event handlers. -/
def Projects.parseId : PathId → (Id → Handler) → Handler :=
  Site.parseId fun _ => refuse 400 "invalid id"

/-- `parse_id` of the team handlers. -/
def Teams.parseId : PathId → (Id → Handler) → Handler :=
  Site.parseId fun raw => .fail (.validation s!"invalid id: {raw}")

/-- `CurrentUser` and `AuthUser` -/
def currentUser (app : SiteState) (cookies : Option String) (k : UserRow → Handler) : Handler :=
  (authenticateUser app.toAppState cookies).inl.bind k

/-- `AdminUser` -/
def adminUser (app : SiteState) (cookies : Option String) (k : UserRow → Handler) : Handler :=
  (Auth.adminUser app.toAppState cookies).inl.bind k

def requireManager (user : UserRow) (k : Handler) : Handler :=
  if user.instanceRole.canManageInstance then k else refuse 403 "requires instance manager or owner"

inductive Role where
  | admin
  | member
  deriving DecidableEq

/-- The instance roles reach every project; the others come from the owning team. -/
def resolveRole (instanceRole : InstanceRole) (teamRole : Option TeamRole) : Option Role :=
  if instanceRole.canManageInstance then some .admin
  else
    teamRole.map fun
      | .admin => .admin
      | .contributor => .member

/-- The project of a public address: the slug, or the short id of older links. -/
def resolveProject (publicId : String) (k : ProjectRow → Handler) : Handler := do
  match ← read (.projectBySlug publicId) with
  | some project => k project
  | none =>
    match ← read (.projectByShortId publicId) with
    | some project => k project
    | none => refuse 404 "project not found"

def effectiveRole (user : UserRow) (projectId : Id) (k : Option Role → Handler) : Handler :=
  if user.instanceRole.canManageInstance then k (some .admin)
  else do
    match ← read (.projectById projectId) with
    | none => k none
    | some project =>
      let teamRole ← query (.memberRole project.teamId user.id)
      k (resolveRole user.instanceRole teamRole)

def requireMember (user : UserRow) (projectId : Id) (k : Role → Handler) : Handler :=
  effectiveRole user projectId fun role =>
    match role with
    | some role => k role
    | none => refuse 403 "you do not have access to this project"

def requireAdmin (user : UserRow) (projectId : Id) (k : Handler) : Handler :=
  requireMember user projectId fun role =>
    match role with
    | .admin => k
    | .member => refuse 403 "admin role required for this action"

/-- The issue of a short id, with its project, when the caller may view it. -/
def authorizeIssue (user : UserRow) (rawId : String) (k : Issue → ProjectRow → Handler) :
    Handler := do
  match ← read (.issueByShortId rawId) with
  | none => refuse 404 "issue not found"
  | some issue =>
    match ← read (.projectById issue.projectId) with
    | none => refuse 404 "project not found"
    | some project => requireMember user project.id fun _ => k issue project

def resolveTeam (raw : PathId) (k : TeamRow → Handler) : Handler :=
  let found (team : Option TeamRow) : Handler :=
    match team with
    | some team => k team
    | none => .fail (.notFound s!"team {raw.raw}")
  match raw with
  | .uuid id => (read (.teamById id)).bind found
  | .text s => (read (.teamByShortId s)).bind found

def requireTeamManager (denied : Handler) (user : UserRow) (teamId : Id) (k : Handler) : Handler :=
  if user.instanceRole.canManageInstance then k
  else do
    let role : Option TeamRole ← query (.memberRole teamId user.id)
    if role = some .admin then k else denied

def teamManagerDenied : String := "requires team admin (or instance manager/owner)"

/-- `require_team_manager` of the team handlers. -/
def Teams.requireTeamManager : UserRow → Id → Handler → Handler :=
  Site.requireTeamManager (.fail (.forbidden teamManagerDenied))

/-- `require_team_manager` of the invite handlers. -/
def Invites.requireTeamManager : UserRow → Id → Handler → Handler :=
  Site.requireTeamManager (refuse 403 teamManagerDenied)

end Soika.Site
