import Soika.Auth.Session

/-! # Sign-in, setup, registration and invites

The handlers of the `/auth` and `/invite` routes, as the calls that they make.
-/

namespace Soika.Auth

open Interaction

structure LoginRequest where
  email : String
  password : String

structure RegisterRequest where
  email : String
  password : String
  displayName : String

structure SetupRequest where
  email : String
  password : String
  displayName : String
  orgName : String

structure AcceptInviteRequest where
  email : Option String
  password : Option String
  displayName : Option String

/-- Gate every anonymous password flow, including registration and invites. -/
def requireEmailLogin (app : AppState) : Except Error Unit :=
  if app.emailLoginEnabled then .ok ()
  else .error (.forbidden "email/password sign-in is disabled")

def verifyDummy (password : String) : Prog authCalls Error Bool := do
  let _ ← Prog.attempt (S := authCalls) (.query (.verifyDummy password))
  return false

/-- Unknown and SSO-only accounts spend the same hashing effort. -/
def verifyLogin (password : String) : Option UserRow → Prog authCalls Error Bool
  | some user =>
    if user.passwordHash ≠ "" then get (.verifyPassword password user.passwordHash)
    else verifyDummy password
  | none => verifyDummy password

def mayUsePassword (app : AppState) (user : UserRow) : Bool :=
  !user.status.isPending && (app.oidc.isNone || user.instanceRole.isOwner)

/-- Only a proven local credential may reveal that SSO is required. -/
def mustUseSso (app : AppState) (user : UserRow) : Bool :=
  app.oidc.isSome && !user.status.isPending && !user.instanceRole.isOwner

def finishLogin (app : AppState) (key : String) (drawn : Drawn) (user : Option UserRow)
    (verified : Bool) : Prog authCalls Error Response :=
  match user.filter fun u => verified && mayUsePassword app u with
  | some user => do
    guard (.success key)
    let _ ← startSession drawn.sessionId user.id
    return .account 200 (.of user) (some drawn.sessionId)
  | none =>
    if verified && user.any (mustUseSso app) then
      Prog.fail (.forbidden "password login is disabled; use SSO")
    else do
      guard (.failure key)
      Prog.fail (.auth "invalid email or password")

def attemptLogin (app : AppState) (key email password : String) (drawn : Drawn) :
    Prog authCalls Error Response := do
  let found ← get (.findUserByEmail email)
  let user := Option.map app.adminUsers.apply found
  let verified ← verifyLogin password user
  finishLogin app key drawn user verified

def unlessLocked (key : String) (p : Prog authCalls Error Response) :
    Prog authCalls Error Response := do
  match ← guard (.check key) with
  | .locked retryAfterSecs => return .locked retryAfterSecs
  | .allowed => p

/-- `POST /auth/login` -/
def login (app : AppState) (ip : String) (body : LoginRequest) (drawn : Drawn) :
    Prog authCalls Error Response := do
  lift (requireEmailLogin app)
  let email ← lift (normalizeEmail body.email)
  let key := lockoutKey ip email
  unlessLocked key (attemptLogin app key email body.password drawn)

/-- Setup is there for an instance whose owners are not configured. -/
def requireSetup (app : AppState) : Except Error Unit :=
  if app.adminEnabled = false then .error (.notFound "setup is disabled")
  else if app.adminUsers.isEmpty = false then
    .error (.forbidden "setup is disabled when ADMIN_USERS is configured")
  else .ok ()

def checkSetup (body : SetupRequest) : Except Error (NewUser × String) := do
  let email ← normalizeEmail body.email
  validatePassword body.password
  let displayName ← normalizeDisplayName body.displayName
  rejectIf (trim body.orgName = "") "organization name must not be empty"
  return (⟨email, displayName, "", .owner, .localAccount, .active⟩, trim body.orgName)

/-- A concurrent setup or a duplicate email are the same outcome. -/
def initialized : Error → Error
  | .conflict _ => Accounts.alreadyInitialized
  | e => e

/-- `POST /auth/setup` -/
def setup (app : AppState) (body : SetupRequest) (drawn : Drawn) :
    Prog authCalls Error Response := do
  lift (requireSetup app)
  let owners : ℕ ← get .countOwners
  if 0 < owners then Prog.fail Accounts.alreadyInitialized
  else do
    let (new, orgName) ← lift (checkSetup body)
    let passwordHash ← get (.hashPassword drawn.salt body.password)
    match ← (app.dialect.repositories.createInitialOwner { new with passwordHash }).result with
    | .error e => Prog.fail (initialized e)
    | .ok user => do
      if app.management.serviceSource ≠ .env then put (.setOrgName orgName)
      let _ ← startSession drawn.sessionId user.id
      return .account 201 (.of user) (some drawn.sessionId)

/-- The checked fields of a local registration, without the hash. A local registration does not prove
mailbox ownership, so it cannot claim a configured address. -/
def checkRegistration (app : AppState) (email password displayName : String) :
    Except Error NewUser := do
  let email ← normalizeEmail email
  if app.adminUsers.contains email then
    .error (.forbidden "this address requires administrator provisioning or verified SSO")
  else do
    validatePassword password
    let displayName ← normalizeDisplayName displayName
    return ⟨email, displayName, "", .member, .localAccount, .active⟩

/-- `create_user` -/
def createUser (app : AppState) (email password displayName : String) (drawn : Drawn) :
    Prog authCalls Error UserRow := do
  let new ← lift (checkRegistration app email password displayName)
  match ← get (.findUserByEmail new.email) with
  | some _ => Prog.fail (.conflict "an account with this email already exists")
  | none => do
    let passwordHash ← get (.hashPassword drawn.salt password)
    let user ← put (.createAccount { new with passwordHash } false)
    return app.adminUsers.apply user

/-- `POST /auth/register` -/
def register (app : AppState) (body : RegisterRequest) (drawn : Drawn) :
    Prog authCalls Error Response := do
  lift (requireUiManagedTeams app)
  lift (requireEmailLogin app)
  if app.oidc.isSome then Prog.fail (.forbidden "self-registration is disabled; use SSO")
  else do
    let allowSignup : Bool ← get .allowSignup
    if allowSignup = false then Prog.fail (.forbidden "public sign-up is disabled")
    else do
      let user ← createUser app body.email body.password body.displayName drawn
      let _ ← startSession drawn.sessionId user.id
      return .account 201 (.of user) (some drawn.sessionId)

def loadUsableInvite (token : String) : Prog authCalls Error Invite := do
  match ← get (.findInvite token) with
  | none => Prog.fail (.auth "unknown invite")
  | some invite => do
    let now : Timestamp ← get .now
    lift (checkInviteUsable invite now)
    return invite

def requireAddressee (invite : Invite) (current : Option UserRow) (req : AcceptInviteRequest) :
    Except Error Unit :=
  match invite.email with
  | none => .ok ()
  | some target =>
    let acceptingEmail := ((current.map UserRow.email).or req.email).getD target
    if eqIgnoreAsciiCase target (trim acceptingEmail) then .ok ()
    else .error (.forbidden "invite is addressed to a different account")

def candidateEmail (invite : Invite) (req : AcceptInviteRequest) : String :=
  asciiLowercase (trim ((req.email.or invite.email).getD "unknown"))

def authenticateInvitee (app : AppState) (password : String) (existing : UserRow) :
    Prog authCalls Error UserRow :=
  if app.oidc.isSome && !(app.adminUsers.apply existing).instanceRole.isOwner then
    Prog.fail (.forbidden "sign in with SSO first, then accept this invite")
  else if existing.status.isPending then Prog.fail (.auth "invalid email or password")
  else do
    let verified : Bool ← get (.verifyPassword password existing.passwordHash)
    if verified then return existing else Prog.fail (.auth "invalid email or password")

/-- A new address registers: the invite authorizes it. -/
def registerInvitee (app : AppState) (email password : String) (displayName : Option String)
    (drawn : Drawn) : Prog authCalls Error UserRow :=
  if app.oidc.isSome then Prog.fail (.forbidden "sign in with SSO first, then accept this invite")
  else createUser app email password (displayName.getD email) drawn

def resolveInvitee (app : AppState) (email password : String) (displayName : Option String)
    (drawn : Drawn) : Option UserRow → Prog authCalls Error UserRow
  | some existing => authenticateInvitee app password existing
  | none => registerInvitee app email password displayName drawn

def inviteCredentials (invite : Invite) (req : AcceptInviteRequest) :
    Except Error (String × String) :=
  match req.email.or invite.email with
  | none => .error (.validation "email is required to accept this invite")
  | some email =>
    match normalizeEmail email with
    | .error e => .error e
    | .ok email =>
      match req.password with
      | none => .error (.validation "password is required to accept this invite")
      | some password => .ok (email, password)

/-- For an anonymous invite acceptance, either authenticate an existing account or register a new one,
and start its session. -/
def resolveOrRegisterInvitee (app : AppState) (invite : Invite) (req : AcceptInviteRequest)
    (drawn : Drawn) : Prog authCalls Error UserRow := do
  lift (requireEmailLogin app)
  let (email, password) ← lift (inviteCredentials invite req)
  let found ← get (.findUserByEmail email)
  let user ← resolveInvitee app email password req.displayName drawn found
  let _ ← startSession drawn.sessionId user.id
  return user

/-- The end of an acceptance: the invite is consumed. -/
def redeem (app : AppState) (token : String) (user : UserRow) (session : Option String) :
    Prog authCalls Error Response := do
  let now : Timestamp ← get .now
  app.dialect.repositories.accept token user.id now
  return .account 200 (.of (app.adminUsers.apply user)) session

/-- An anonymous acceptance; only a credential failure feeds the brute-force budget. -/
def acceptAnonymously (app : AppState) (key : String) (invite : Invite)
    (req : AcceptInviteRequest) (drawn : Drawn) : Prog authCalls Error Response := do
  match ← (resolveOrRegisterInvitee app invite req drawn).result with
  | .ok user => do
    guard (.success key)
    redeem app invite.token user (some drawn.sessionId)
  | .error (.auth msg) => do
    guard (.failure key)
    Prog.fail (.auth msg)
  | .error e => Prog.fail e

/-- `POST /invite/{token}` -/
def acceptInvite (app : AppState) (cookies : Option String) (token ip : String)
    (req : AcceptInviteRequest) (drawn : Drawn) : Prog authCalls Error Response := do
  let current ← currentUser app cookies
  lift (requireInvitesEnabled app)
  let invite ← loadUsableInvite token
  lift (requireAddressee invite current req)
  match current with
  | some user => redeem app invite.token user none
  | none =>
    let key := lockoutKey ip (candidateEmail invite req)
    unlessLocked key (acceptAnonymously app key invite req drawn)

end Soika.Auth
