import Soika.Adapters.Directory
import Soika.Adapters.Store

/-! # Accounts in the database

The tables behind sign-in and membership, with the transactions of the user, team, invite,
session, passkey and challenge repositories. Each is one step, as its backend's lock makes
it, apart from the two that PostgreSQL runs under a lock of one row only: the setup of the
first owner and the acceptance of an invite are there several steps of one transaction.
-/

namespace Soika

open Table

structure SessionRow where
  id : String
  userId : Id
  createdAt : Timestamp
  expiresAt : Timestamp
  deriving DecidableEq

structure PasskeyRow where
  id : Id
  userId : Id
  credentialId : String
  name : String
  credential : String
  createdAt : Timestamp
  lastUsedAt : Option Timestamp
  deriving DecidableEq

structure NewPasskey where
  userId : Id
  credentialId : String
  name : String
  credential : String

/-- The row of a new passkey. -/
def NewPasskey.row (new : NewPasskey) (id : Id) (createdAt : Timestamp) : PasskeyRow where
  id := id
  userId := new.userId
  credentialId := new.credentialId
  name := new.name
  credential := new.credential
  createdAt := createdAt
  lastUsedAt := none

/-- A row of `auth_challenges`. -/
structure AuthChallenge where
  id : String
  purpose : String
  state : String
  expiresAt : Timestamp
  deriving DecidableEq

/-- Partial update of a user, `none` leaving the field unchanged. -/
structure UserUpdate where
  displayName : Option String
  passwordHash : Option String
  status : Option UserStatus

def UserUpdate.apply (update : UserUpdate) (user : UserRow) : UserRow :=
  { user with
    displayName := update.displayName.getD user.displayName
    passwordHash := update.passwordHash.getD user.passwordHash
    status := update.status.getD user.status }

/-- The row of a new user. -/
def NewUser.row (new : NewUser) (id : Id) : UserRow where
  id := id
  email := new.email
  displayName := new.displayName
  passwordHash := new.passwordHash
  instanceRole := new.instanceRole
  authProvider := new.authProvider
  status := new.status

def UserRow.withRole (role : InstanceRole) (user : UserRow) : UserRow :=
  { user with instanceRole := role }

def UserRow.ssoOnly (user : UserRow) : UserRow :=
  { user with authProvider := .oidc, passwordHash := "" }

structure NewInvite where
  token : String
  teamId : Id
  role : TeamRole
  email : Option String
  createdBy : Option Id
  expiresAt : Timestamp

/-- The row of a new invite. -/
def NewInvite.row (new : NewInvite) (createdAt expiresAt : Timestamp) : Invite where
  token := new.token
  teamId := new.teamId
  role := new.role
  email := new.email
  createdBy := new.createdBy
  createdAt := createdAt
  expiresAt := expiresAt
  acceptedAt := none

def Invite.accepted (now : Timestamp) (i : Invite) : Invite := { i with acceptedAt := some now }

structure Accounts extends Directory where
  sessions : List SessionRow
  passkeys : List PasskeyRow
  authChallenges : List AuthChallenge
  allowSignup : Bool
  orgName : String
  /-- The invites whose row an open acceptance has locked, by token. -/
  lockedInvites : List String
  /-- An open setup has locked the row of the service settings. -/
  settingsLocked : Bool

def Timestamp.epoch : Timestamp := .atSecond 0

/-- The database after its migrations. -/
def Accounts.new : Accounts where
  teams := []
  memberGrants := []
  groupGrants := []
  teamMembers := []
  invites := []
  defaultTeams := []
  projects := []
  issues := []
  events := []
  projectOwned := []
  users := []
  userSsoGroups := []
  notificationSettings := ⟨.default⟩
  nextId := 0
  sessions := []
  passkeys := []
  authChallenges := []
  allowSignup := false
  orgName := ""
  lockedInvites := []
  settingsLocked := false

structure AccountBackend extends Backend where
  uniqueViolation : DbError
  /-- New users join the default teams. -/
  assignDefaultTeams : Bool

def sqliteAccounts (assignDefaultTeams : Bool) : AccountBackend :=
  { sqlite with
    uniqueViolation := .sqlite (some 2067) "UNIQUE constraint failed"
    assignDefaultTeams }

def postgresAccounts (assignDefaultTeams : Bool) : AccountBackend :=
  { postgres with uniqueViolation := .postgres "23505", assignDefaultTeams }

/-- What a statement ends with that waits for another transaction until it is cancelled. -/
def lockTimeout : Error := .db (.postgres "55P03")

namespace Accounts

variable (B : AccountBackend) (d : Accounts)

def userByEmail (email : String) : Option UserRow := lookup UserRow.email email d.users

/-- `SELECT COUNT(*) FROM users WHERE instance_role = 'owner'` -/
def countOwners : ℕ := (select UserRow.instanceRole .owner d.users).length

def modifyUser (id : Id) (f : UserRow → UserRow) : Accounts :=
  { d with users := modify UserRow.id id f d.users }

/-- `INSERT INTO users`, and the memberships of a new user in the default teams. -/
def addUser (new : NewUser) (now : Timestamp) : Accounts :=
  { d with
    users := d.users ++ [new.row d.nextId]
    teamMembers :=
      if B.assignDefaultTeams then
        d.teamMembers ++ d.defaultTeams.map fun t => ⟨t, d.nextId, .contributor, B.ts now⟩
      else d.teamMembers
    nextId := d.nextId + 1 }

def insertUser (new : NewUser) (now : Timestamp) : Except Error (UserRow × Accounts) :=
  match d.userByEmail new.email with
  | some _ => .error (.conflict s!"user email already exists: {new.email}")
  | none => .ok (new.row d.nextId, d.addUser B new now)

def alreadyInitialized : Error := .conflict "the service is already initialized"

/-- `create_account` -/
def createAccount (new : NewUser) (initialOwner : Bool) (now : Timestamp) :
    Except Error (UserRow × Accounts) :=
  if initialOwner ∧ 0 < d.countOwners then .error alreadyInitialized else d.insertUser B new now

/-- The beginning of `create_initial_owner` in PostgreSQL: the settings row is locked and the owners
are counted. -/
def setupLock : Except Error (Unit × Accounts) :=
  if d.settingsLocked then .error lockTimeout
  else if 0 < d.countOwners then .error alreadyInitialized
  else .ok ((), { d with settingsLocked := true })

/-- Its end: the owner is inserted and the transaction committed. -/
def setupInsert (new : NewUser) (now : Timestamp) : Except Error (UserRow × Accounts) :=
  match d.insertUser B new now with
  | .ok (user, d') => .ok (user, { d' with settingsLocked := false })
  | .error e => .error e

def setupRollback : Accounts := { d with settingsLocked := false }

/-- The write of `update`. -/
def updateUser (id : Id) (update : UserUpdate) : Except Error (Unit × Accounts) :=
  match d.userById id with
  | some _ => .ok ((), d.modifyUser id update.apply)
  | none => .error (.notFound s!"user not found: {id}")

/-- The user is the only one with the stored role Owner. -/
def IsLastOwner (id : Id) : Prop :=
  (∃ u ∈ d.users, u.id = id ∧ u.instanceRole = .owner) ∧ d.countOwners ≤ 1

instance (id : Id) : Decidable (d.IsLastOwner id) := inferInstanceAs (Decidable (_ ∧ _))

def lastOwnerConflict : Error := .conflict "cannot remove or demote the last owner"

def setInstanceRole (id : Id) (role : InstanceRole) : Except Error (UserRow × Accounts) :=
  if role ≠ .owner ∧ d.IsLastOwner id then .error lastOwnerConflict
  else
    match d.userById id with
    | some user => .ok (user.withRole role, d.modifyUser id (UserRow.withRole role))
    | none => .error (.notFound s!"user not found: {id}")

/-- The membership makes its user the only admin of its team. -/
def IsLastAdmin (m : TeamMember) : Prop :=
  m.role = .admin ∧
    ¬ ∃ other ∈ d.teamMembers,
      other.teamId = m.teamId ∧ other.role = .admin ∧ other.userId ≠ m.userId

instance (m : TeamMember) : Decidable (d.IsLastAdmin m) := inferInstanceAs (Decidable (_ ∧ _))

/-- `DELETE FROM users WHERE id = ?`, which cascades. -/
def removeUser (id : Id) : Accounts :=
  { d with
    users := remove UserRow.id id d.users
    userSsoGroups := remove UserSsoGroup.userId id d.userSsoGroups
    teamMembers := remove TeamMember.userId id d.teamMembers
    invites := d.invites.map fun i =>
      if i.createdBy = some id then { i with createdBy := none } else i
    projectOwned := d.projectOwned.filter fun
      | .favorite userId _ => userId ≠ id
      | .tagMuteRule _ _ => true
    sessions := remove SessionRow.userId id d.sessions
    passkeys := remove PasskeyRow.userId id d.passkeys }

def deleteUser (id : Id) : Except Error (Unit × Accounts) :=
  if d.IsLastOwner id then .error lastOwnerConflict
  else if ∃ m ∈ d.teamMembers, m.userId = id ∧ d.IsLastAdmin m then
    .error (.conflict "user is the last admin of a team; assign another admin first")
  else if ∃ i ∈ d.invites, i.createdBy = some id ∧ i.token ∈ d.lockedInvites then
    .error lockTimeout
  else .ok ((), d.removeUser id)

def dropCredentials (id : Id) : Accounts :=
  { d with
    users := modify UserRow.id id UserRow.ssoOnly d.users
    sessions := remove SessionRow.userId id d.sessions
    passkeys := remove PasskeyRow.userId id d.passkeys }

/-- The transaction of `convert_to_sso`. -/
def convertToSso (id : Id) : Except Error (Unit × Accounts) :=
  match d.userById id with
  | none => .error (.notFound "user not found")
  | some user =>
    if user.instanceRole = .owner then
      .error (.forbidden "owner account cannot be converted to SSO-only")
    else .ok ((), d.dropCredentials id)

def HasUser (id : Id) : Prop := ∃ u ∈ d.users, u.id = id

instance (id : Id) : Decidable (d.HasUser id) := inferInstanceAs (Decidable (∃ u ∈ d.users, _))

def createSession (id : String) (userId : Id) (expiresAt now : Timestamp) :
    Except Error (SessionRow × Accounts) :=
  if ¬ d.HasUser userId then .error (.db B.foreignKeyViolation)
  else
    match lookup SessionRow.id id d.sessions with
    | some _ => .error (.db B.uniqueViolation)
    | none =>
      let session := ⟨id, userId, B.ts now, B.ts expiresAt⟩
      .ok (session, { d with sessions := d.sessions ++ [session] })

def findSession (id : String) (now : Timestamp) : Option SessionRow :=
  (lookup SessionRow.id id d.sessions).filter fun s => ! B.le s.expiresAt now

def deleteSession (id : String) : Accounts :=
  { d with sessions := remove SessionRow.id id d.sessions }

def deleteSessionsForUser (userId : Id) : Accounts :=
  { d with sessions := remove SessionRow.userId userId d.sessions }

/-- `require_another_admin` refuses. -/
def NeedsAnotherAdmin (teamId userId : Id) : Prop :=
  ∃ m ∈ d.teamMembers, m.key = (teamId, userId) ∧ d.IsLastAdmin m

instance (teamId userId : Id) : Decidable (d.NeedsAnotherAdmin teamId userId) :=
  inferInstanceAs (Decidable (∃ m ∈ d.teamMembers, _))

def lastAdminConflict : Error := .conflict "cannot remove or demote the last admin of the team"

def withTeams (T : TeamTables) : Accounts := { d with toTeamTables := T }

/-- An upsert of a membership, whose user and team must exist. -/
def upsertMember (teamId userId : Id) (role : TeamRole) (now : Timestamp) :
    Except Error (Unit × Accounts) :=
  if (∃ t ∈ d.teams, t.id = teamId) ∧ d.HasUser userId then
    .ok ((), d.withTeams (d.setMember teamId userId (some role) (B.ts now)))
  else .error (.db B.foreignKeyViolation)

def addMember (teamId userId : Id) (role : TeamRole) (now : Timestamp) :
    Except Error (Unit × Accounts) :=
  if role ≠ .admin ∧ d.NeedsAnotherAdmin teamId userId then .error lastAdminConflict
  else d.upsertMember B teamId userId role now

def setMemberRole (teamId userId : Id) (role : TeamRole) : Except Error (Unit × Accounts) :=
  if role ≠ .admin ∧ d.NeedsAnotherAdmin teamId userId then .error lastAdminConflict
  else
    match d.memberOf teamId userId with
    | some _ =>
      .ok ((), { d with
        teamMembers := modify TeamMember.key (teamId, userId) (TeamMember.withRole role)
          d.teamMembers })
    | none =>
      .error (.notFound s!"team membership not found: team {teamId}, user {userId}")

def removeMember (teamId userId : Id) : Except Error (Unit × Accounts) :=
  if d.NeedsAnotherAdmin teamId userId then .error lastAdminConflict
  else .ok ((), { d with teamMembers := remove TeamMember.key (teamId, userId) d.teamMembers })

def moveProjects (id target : Id) : Accounts :=
  { d with
    projects := d.projects.map fun p => if p.teamId = id then { p with teamId := target } else p }

/-- `delete` of a team, whose projects may be moved to another one. -/
def deleteTeam (id : Id) (moveProjectsTo : Option Id) : Except Error (Unit × Accounts) :=
  if moveProjectsTo = some id then
    .error (.validation "target team must differ from deleted team")
  else if ∃ i ∈ d.invites, i.teamId = id ∧ i.token ∈ d.lockedInvites then .error lockTimeout
  else
    match moveProjectsTo with
    | some target =>
      if ∃ t ∈ d.teams, t.id = target then
        .ok ((), (d.moveProjects id target).withTeams (d.removeTeam id))
      else .error (.notFound "target team not found")
    | none =>
      if ∃ p ∈ d.projects, p.teamId = id then
        .error (.conflict "team still owns projects; move them to another team first")
      else .ok ((), d.withTeams (d.removeTeam id))

def inviteByToken (token : String) : Option Invite := lookup Invite.token token d.invites

def createInvite (new : NewInvite) (now : Timestamp) : Except Error (Invite × Accounts) :=
  if ¬ ∃ t ∈ d.teams, t.id = new.teamId then .error (.db B.foreignKeyViolation)
  else
    match d.inviteByToken new.token with
    | some _ => .error (.db B.uniqueViolation)
    | none =>
      let invite := new.row (B.ts now) (B.ts new.expiresAt)
      .ok (invite, { d with invites := d.invites ++ [invite] })

def deleteInvite (token : String) : Except Error (Unit × Accounts) :=
  if token ∈ d.lockedInvites then .error lockTimeout
  else .ok ((), { d with invites := remove Invite.token token d.invites })

/-- `accepted_at IS NULL AND expires_at > ?` -/
def isClaimable (now : Timestamp) (i : Invite) : Bool :=
  i.acceptedAt.isNone && ! B.le i.expiresAt now

/-- The row that `UPDATE invites SET accepted_at = ? ... RETURNING` finds. -/
def claimable (token : String) (now : Timestamp) : Option Invite :=
  (d.inviteByToken token).filter (isClaimable B now)

def markAccepted (token : String) (now : Timestamp) : Accounts :=
  { d with
    invites := modify Invite.token token (Invite.accepted (B.ts now)) d.invites }

/-- The role of a member after an invite: an admin stays one. -/
def joinedRole (before : Option TeamMember) (role : TeamRole) : TeamRole :=
  if before.any fun m => m.role = .admin then .admin else role

def join (teamId userId : Id) (role : TeamRole) (now : Timestamp) :
    Except Error (Unit × Accounts) :=
  d.upsertMember B teamId userId (joinedRole (d.memberOf teamId userId) role) now

def unusableInvite : Error := .auth "invite expired or already used"

def checkInvitee (recipient : Option String) : Option UserRow → Except Error Unit
  | none => .error (.auth "user no longer exists")
  | some user =>
    if user.status ≠ .active ∨ recipient.any fun target => ! eqIgnoreAsciiCase target user.email then
      .error (.forbidden "invite is not available to this account")
    else .ok ()

/-- `accept` in SQLite. -/
def accept (token : String) (userId : Id) (now : Timestamp) : Except Error (Unit × Accounts) :=
  match d.claimable B token now with
  | none => .error unusableInvite
  | some i =>
    match checkInvitee i.email (d.userById userId) with
    | .error e => .error e
    | .ok () => (d.markAccepted B token now).join B i.teamId userId i.role now

/-- The first statement of `accept` in PostgreSQL, which locks the row of the invite. -/
def acceptClaim (token : String) (now : Timestamp) : Except Error (Invite × Accounts) :=
  if token ∈ d.lockedInvites then .error lockTimeout
  else
    match d.claimable B token now with
    | none => .error unusableInvite
    | some i => .ok (i, { d with lockedInvites := token :: d.lockedInvites })

def acceptCommit (token : String) (teamId userId : Id) (role : TeamRole) (now : Timestamp) :
    Except Error (Unit × Accounts) :=
  match (d.markAccepted B token now).join B teamId userId role now with
  | .ok (_, d') => .ok ((), { d' with lockedInvites := d.lockedInvites.erase token })
  | .error e => .error e

def acceptRollback (token : String) : Accounts :=
  { d with lockedInvites := d.lockedInvites.erase token }

def passkeyByCredentialId (credentialId : String) : Option PasskeyRow :=
  lookup PasskeyRow.credentialId credentialId d.passkeys

def passkeysOf (userId : Id) : List PasskeyRow := select PasskeyRow.userId userId d.passkeys

def createPasskey (new : NewPasskey) (now : Timestamp) : Except Error (PasskeyRow × Accounts) :=
  if ¬ d.HasUser new.userId then .error (.db B.foreignKeyViolation)
  else
    match d.passkeyByCredentialId new.credentialId with
    | some _ => .error (.conflict "passkey is already registered")
    | none =>
      let passkey := new.row d.nextId (B.ts now)
      .ok (passkey, { d with passkeys := d.passkeys ++ [passkey], nextId := d.nextId + 1 })

/-- `touch` -/
def touchPasskey (id : Id) (credential : String) (usedAt : Timestamp) : Accounts :=
  { d with
    passkeys := modify PasskeyRow.id id
      (fun k => { k with credential, lastUsedAt := some (B.ts usedAt) }) d.passkeys }

def deletePasskey (userId id : Id) : Except Error (Unit × Accounts) :=
  if ∃ k ∈ d.passkeys, k.id = id ∧ k.userId = userId then
    .ok ((), { d with passkeys := d.passkeys.filter fun k => ¬ (k.id = id ∧ k.userId = userId) })
  else .error (.notFound "passkey")

def expiredChallenge (now : Timestamp) (c : AuthChallenge) : Bool := B.le c.expiresAt now

/-- `create` of a challenge, which first drops some that have expired. -/
def createChallenge (dropped : List String) (id purpose state : String)
    (expiresAt now : Timestamp) : Except Error (Unit × Accounts) :=
  let kept := d.authChallenges.filter fun c => ! (expiredChallenge B now c && dropped.contains c.id)
  match lookup AuthChallenge.id id kept with
  | some _ => .error (.db B.uniqueViolation)
  | none => .ok ((), { d with authChallenges := kept ++ [⟨id, purpose, state, B.ts expiresAt⟩] })

/-- The row that `take` deletes. -/
def takeable (id purpose : String) (now : Timestamp) : Option AuthChallenge :=
  (lookup AuthChallenge.id id d.authChallenges).filter fun c =>
    c.purpose = purpose && ! expiredChallenge B now c

def takeChallenge (id purpose : String) (now : Timestamp) : Option String × Accounts :=
  match d.takeable B id purpose now with
  | none => (none, d)
  | some c => (some c.state, { d with authChallenges := remove AuthChallenge.id id d.authChallenges })

def setOrgName (name : String) : Except Error (Unit × Accounts) :=
  if d.settingsLocked then .error lockTimeout else .ok ((), { d with orgName := name })

end Accounts

end Soika
