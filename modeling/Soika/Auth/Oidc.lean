import Soika.Auth.PasskeyHandlers
import Soika.Auth.SignedCookies

/-! # Sign-in with an identity provider

The callback of the OIDC flow: the signed cookie ties it to the request that began it, the provider
answers for the identity, and an account is found or made for its email. What `openidconnect` and
`serde` do is left open here.
-/

namespace Soika.Auth

open Interaction

def stateCookie : String := "soika_oidc_state"

def stateTtlSecs : ℤ := 600

structure OidcClaims where
  email : String
  emailVerified : Bool
  displayName : String
  groups : List String

structure StatePayload where
  state : String
  nonce : String
  pkceVerifier : String
  next : Option String
  /-- Unix epoch (seconds) after which the payload is considered expired. -/
  expiresAt : ℤ

/-- The provider, `serde_json` for the state, and the header values that `http` takes. -/
structure OidcProvider where
  /-- `exchange_code` of a code, with the PKCE verifier and the nonce -/
  exchangeCode : String → String → String → Except Error OidcClaims
  payload : Codec StatePayload
  /-- `HeaderValue::from_str` accepts the text -/
  headerValue : String → Bool

/-- Whether the domain of an email is permitted; an empty list permits any. -/
def emailDomainAllowed (email : String) (allowedDomains : List String) : Bool :=
  if allowedDomains.isEmpty then true
  else
    match rsplitOnce '@' email with
    | none => false
    | some (_, domain) =>
      let domain := asciiLowercase (trim domain)
      domain ≠ "" && allowedDomains.any fun d => eqIgnoreAsciiCase (trim d) domain

section State

variable (app : AppState) (codec : Codec StatePayload)

def encodeStateCookie (state nonce pkceVerifier : String) (next : Option String) (nowUnix : ℤ) :
    Except Error String :=
  match codec.toStr ⟨state, nonce, pkceVerifier, next, nowUnix + stateTtlSecs⟩ with
  | .error e => .error e
  | .ok json => .ok (app.signing.signStr app.secretKey json)

def decodeStateCookie (signed : String) (nowUnix : ℤ) : Except Error StatePayload :=
  match app.signing.verifyStr app.secretKey signed with
  | .error e => .error e
  | .ok json =>
    match codec.fromStr json with
    | .error _ => .error (.auth "malformed OIDC state")
    | .ok payload =>
      if payload.expiresAt ≤ nowUnix then .error (.auth "OIDC state expired") else .ok payload

end State

/-- A request to `/auth/oidc/callback`, with what it draws at random. -/
structure CallbackRequest where
  cookies : Option String
  code : Option String
  state : Option String
  sessionId : String
  /-- The circumstances of its reconciliation. -/
  occasion : ℕ

/-- A parameter of the query that must not be empty. -/
def requireParam (param : Option String) (msg : String) : Except Error String :=
  match param.filter (· ≠ "") with
  | some value => .ok value
  | none => .error (.auth msg)

def requireStateCookie (cookies : Option String) : Except Error String :=
  match readCookie cookies stateCookie with
  | some signed => .ok signed
  | none => .error (.auth "missing OIDC state cookie")

/-- CSRF: the cookie-bound state must match the query state. -/
def matchState (payload : StatePayload) (state : String) : Except Error Unit :=
  if payload.state ≠ state then .error (.auth "OIDC state mismatch") else .ok ()

def checkClaims (settings : OidcSettings) (claims : OidcClaims) : Except Error Unit :=
  if claims.emailVerified = false then .error (.forbidden "email is not verified by the provider")
  else if claims.email = "" then .error (.auth "provider returned an empty email")
  else if emailDomainAllowed claims.email settings.allowedEmailDomains = false then
    .error (.forbidden "email domain is not allowed")
  else .ok ()

section Callback

variable (app : AppState) (settings : OidcSettings) (provider : OidcProvider)

def location (target : String) : Except Error String :=
  if provider.headerValue target then .ok target
  else .error (.internal "invalid Location value: failed to parse header value")

def ssoAccount (existing : UserRow) : Prog authCalls Error UserRow :=
  if shouldConvertToSso (app.adminUsers.apply existing) then convertToSso existing.id
  else return existing

def vouchedAccount (claims : OidcClaims) : NewUser where
  email := claims.email
  displayName := claims.displayName
  passwordHash := ""
  instanceRole := .member
  authProvider := .oidc
  status := if settings.requireApproval then .pending else .active

/-- Find or create: a stored Owner keeps password login, unless it is listed in `ADMIN_USERS`. -/
def findOrCreate (claims : OidcClaims) : Prog authCalls Error UserRow := do
  match ← get (.findUserByEmail claims.email) with
  | some existing =>
    if existing.instanceRole.isOwner && !app.adminUsers.contains existing.email then
      Prog.fail (.forbidden "owner account uses password login, not SSO")
    else ssoAccount app existing
  | none => put (.createAccount (vouchedAccount settings claims) false)

/-- The grants of the configuration file; one of them activates a pending account. -/
def grantTeams (claims : OidcClaims) (occasion : ℕ) (user : UserRow) :
    Prog authCalls Error UserRow :=
  if app.management.teamSource = .yaml then do
    let granted : Bool ← Prog.ask (S := authCalls) (.reconcileUser user.id claims.groups occasion)
    if granted && user.status.isPending then updateUser user.id ⟨none, none, some .active⟩
    else return user
  else return user

/-- The part of the callback that tells who signs in. -/
def identify (request : CallbackRequest) : Prog authCalls Error (StatePayload × OidcClaims) := do
  let code ← lift (requireParam request.code "missing authorization code")
  let state ← lift (requireParam request.state "missing state parameter")
  let signed ← lift (requireStateCookie request.cookies)
  let now : Timestamp ← get .now
  let payload ← lift (decodeStateCookie app provider.payload signed (unixSeconds now))
  lift (matchState payload state)
  let claims ← lift (provider.exchangeCode code payload.pkceVerifier payload.nonce)
  lift (checkClaims settings claims)
  return (payload, claims)

/-- `run_callback` -/
def runCallback (request : CallbackRequest) : Prog authCalls Error Response := do
  let (payload, claims) ← identify app settings provider request
  let user ← findOrCreate app settings claims
  let user ← grantTeams app claims request.occasion user
  -- A pending account exists but holds no session.
  if user.status.isPending then return .redirect "/pending" none
  else do
    let _ ← startSession request.sessionId user.id
    let target ← lift (location provider (payload.next.getD "/"))
    return .redirect target (some request.sessionId)

end Callback

end Soika.Auth
