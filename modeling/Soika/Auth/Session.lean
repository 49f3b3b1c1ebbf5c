import Soika.Auth.Repositories
import Soika.Auth.Signing
import Soika.Domain.ConfigFile

/-! # Sessions

The configuration that requests are answered under, the policy that every authenticated
request goes through, and the start of a session.
-/

namespace Soika.Auth

open Interaction

/-- The settings of the identity provider that sign-in uses. -/
structure OidcSettings where
  allowedEmailDomains : List String
  requireApproval : Bool

/-- The settings of passkeys, with the WebAuthn library behind them. -/
structure PasskeySettings where
  maxPerUser : ℕ
  challengeTtl : Duration

/-- What the handlers read of the configuration. -/
structure AppState where
  signing : Signing
  secretKey : ByteArray
  dialect : Dialect
  adminUsers : AdminUsers
  adminEnabled : Bool
  emailLoginEnabled : Bool
  allowInvites : Bool
  management : ManagementSettings
  oidc : Option OidcSettings
  passkey : Option PasskeySettings

def AppState.plain (dialect : Dialect) : AppState where
  signing := .plain
  secretKey := "secret".toUTF8
  dialect := dialect
  adminUsers := ⟨[]⟩
  adminEnabled := true
  emailLoginEnabled := true
  allowInvites := true
  management := ⟨.ui, .ui, .ui, .ui, .readonly, .readonly⟩
  oidc := none
  passkey := none

/-- What a request draws at random. -/
structure Drawn where
  sessionId : String
  salt : String

structure UserView where
  id : Id
  email : String
  displayName : String
  instanceRole : InstanceRole
  authProvider : AuthProvider
  deriving DecidableEq

def UserView.of (u : UserRow) : UserView :=
  ⟨u.id, u.email, u.displayName, u.instanceRole, u.authProvider⟩

structure AdminUserRow where
  id : Id
  email : String
  displayName : String
  instanceRole : InstanceRole
  storedInstanceRole : InstanceRole
  roleLocked : Bool
  status : UserStatus
  deriving DecidableEq

/-- `AdminUserRow::with_config` -/
def AdminUserRow.withConfig (app : AppState) (u : UserRow) : AdminUserRow where
  id := u.id
  email := u.email
  displayName := u.displayName
  instanceRole := if app.adminUsers.contains u.email then .owner else u.instanceRole
  storedInstanceRole := u.instanceRole
  roleLocked := app.adminUsers.contains u.email
  status := u.status

/-- A response, with the id of the session whose cookie it sets. -/
inductive Response where
  | locked (retryAfterSecs : ℕ)
  | account (status : ℕ) (user : UserView) (session : Option String)
  | redirect (location : String) (session : Option String)
  | adminUser (row : AdminUserRow)
  | deletedUser (id : Id)
  deriving DecidableEq

def Response.session : Response → Option String
  | account _ _ session => session
  | redirect _ session => session
  | _ => none

/-- Name of the session cookie. -/
def sessionCookie : String := "soika_session"

def sessionTtl : Duration := 30 * 24 * 60 * 60 * 1000000000

/-- `session_id_from_headers` -/
def sessionIdFrom (app : AppState) (cookies : Option String) : Option String :=
  (readCookie cookies sessionCookie).bind fun raw => (app.signing.verifyStr app.secretKey raw).toOption

def admission (app : AppState) (user : UserRow) : Except Error UserRow :=
  if user.status.isPending then .error (.auth "account is awaiting approval")
  else if app.oidc.isSome && !sessionAllowedWithSso (app.adminUsers.apply user) then
    .error (.auth "sign in with SSO")
  else .ok (app.adminUsers.apply user)

/-- The part of `authenticate_user` that reads the database. -/
def sessionUser (app : AppState) (id : String) : Prog authCalls Error UserRow := do
  match ← get (.findSession id) with
  | none => Prog.fail (.auth "session not found or expired")
  | some session =>
    match ← get (.findUserById session.userId) with
    | none => Prog.fail (.auth "user no longer exists")
    | some user => lift (admission app user)

def authenticateUser (app : AppState) (cookies : Option String) : Prog authCalls Error UserRow :=
  match sessionIdFrom app cookies with
  | none => Prog.fail (.auth "missing or invalid session")
  | some id => sessionUser app id

/-- A missing or invalid session yields an anonymous request. -/
def currentUser (app : AppState) (cookies : Option String) :
    Prog authCalls Error (Option UserRow) := do
  return (← (authenticateUser app cookies).result).toOption

/-- `AdminUser` -/
def adminUser (app : AppState) (cookies : Option String) : Prog authCalls Error UserRow := do
  let user ← authenticateUser app cookies
  if user.instanceRole.canManageInstance then return user
  else Prog.fail (.forbidden "requires instance manager or owner")

def startSession (sessionId : String) (userId : Id) : Prog authCalls Error SessionRow := do
  let now : Timestamp ← get .now
  let expiresAt ← Prog.orAbort (now.add sessionTtl)
  put (.createSession sessionId userId expiresAt)

def requireUiManagedTeams (app : AppState) : Except Error Unit :=
  if app.management.teamSource = .yaml then
    .error (.forbidden "teams are managed by the configuration file")
  else .ok ()

def requireInvitesEnabled (app : AppState) : Except Error Unit :=
  match requireUiManagedTeams app with
  | .error e => .error e
  | .ok () => if app.allowInvites then .ok () else .error (.forbidden "invites are disabled")

theorem admission_eq_ok {app : AppState} {user admitted : UserRow} : admission app user = .ok admitted ↔
    user.status = .active ∧
      (app.oidc.isSome = true → sessionAllowedWithSso (app.adminUsers.apply user) = true) ∧
      admitted = app.adminUsers.apply user := by
  unfold admission UserStatus.isPending
  cases hstatus : user.status with
  | pending => simp
  | active =>
    simp only [reduceCtorEq, decide_false, Bool.false_eq_true, if_false, true_and]
    cases app.oidc.isSome with
    | false => simp [eq_comm (a := admitted)]
    | true =>
      cases sessionAllowedWithSso (app.adminUsers.apply user) with
      | false => simp
      | true => simp [eq_comm (a := admitted)]

end Soika.Auth
