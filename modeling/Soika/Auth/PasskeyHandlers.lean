import Soika.Auth.Session

/-! # Passkeys

The ceremonies of WebAuthn sign-in and registration. The state of a ceremony is signed and
stored between its two requests, under a random handle that the client holds in a cookie.
What `webauthn-rs` and `serde` do is left open here.
-/

namespace Soika.Auth

open Interaction

/-- `serde_json` for one type. -/
structure Codec (α : Type) where
  toStr : α → Except Error String
  fromStr : String → Except String α

/-- Signed payload: the state of a ceremony, its expiry and, for registration, its user. -/
structure ChallengePayload (α : Type) where
  state : α
  /-- `None` for the usernameless login flow. -/
  userId : Option Id
  /-- Unix epoch (seconds) after which the payload is refused. -/
  expiresAt : ℤ

/-- The relying party; errors are shown as texts. -/
structure Webauthn where
  /-- `PublicKeyCredential` -/
  Assertion : Type
  /-- `RegisterPublicKeyCredential` -/
  Attestation : Type
  /-- `DiscoverableAuthentication` -/
  Authentication : Type
  /-- `PasskeyRegistration` -/
  Registration : Type
  Credential : Type
  AuthenticationResult : Type
  RequestChallenge : Type
  CreationChallenge : Type
  /-- `start_discoverable_authentication`, with what it draws at random -/
  startAuthentication : ℕ → Except String (RequestChallenge × Authentication)
  /-- `identify_discoverable_authentication` -/
  identify : Assertion → Except String (Id × ByteArray)
  /-- `finish_discoverable_authentication` with one key -/
  finishAuthentication : Assertion → Authentication → Credential → Except String AuthenticationResult
  updateCredential : Credential → AuthenticationResult → Credential
  /-- `start_passkey_registration` of a user by id, email and name, with the excluded credentials -/
  startRegistration : ℕ → Id → String → String → List ByteArray →
    Except String (CreationChallenge × Registration)
  finishRegistration : Attestation → Registration → Except String Credential
  credId : Credential → ByteArray
  stripMediation : RequestChallenge → RequestChallenge
  requireDiscoverable : CreationChallenge → CreationChallenge
  credential : Codec Credential
  authentication : Codec (ChallengePayload Authentication)
  registration : Codec (ChallengePayload Registration)

def passkeyRegistrationCookie : String := "soika_passkey_reg"

/-- Cookie holding the handle of an authentication. -/
def passkeyAuthenticationCookie : String := "soika_passkey_auth"

def passkeyLockoutSubject : String := "passkey"

/-- `timestamp` of a `DateTime` -/
def unixSeconds (now : Timestamp) : ℤ := now.nanos / 1000000000

section Challenges

variable {α : Type} (app : AppState) (codec : Codec α)

def encodeChallenge (codec : Codec (ChallengePayload α)) (state : α) (userId : Option Id)
    (nowUnix ttlSecs : ℤ) : Except Error String :=
  match codec.toStr ⟨state, userId, nowUnix + ttlSecs⟩ with
  | .error e => .error e
  | .ok json => .ok (app.signing.signStr app.secretKey json)

/-- Verify, deserialize and expiry-check a ceremony state. -/
def decodeChallenge (codec : Codec (ChallengePayload α)) (signed : String) (nowUnix : ℤ) :
    Except Error (ChallengePayload α) :=
  match app.signing.verifyStr app.secretKey signed with
  | .error e => .error e
  | .ok json =>
    match codec.fromStr json with
    | .error _ => .error (.auth "malformed passkey state")
    | .ok payload =>
      if payload.expiresAt ≤ nowUnix then .error (.auth "passkey challenge expired")
      else .ok payload

structure CeremonyDraw where
  handle : String
  random : ℕ
  dropped : List String

/-- Persist ceremony state and return the handle that the cookie holds. -/
def challengeCookie (codec : Codec (ChallengePayload α)) (config : PasskeySettings) (name : String)
    (ceremony : α) (userId : Option Id) (drawn : CeremonyDraw) : Prog authCalls Error String := do
  let ttlSecs := config.challengeTtl / 1000000000
  let nowUnix ← get .now
  let signed ← lift (encodeChallenge app codec ceremony userId (unixSeconds nowUnix) ttlSecs)
  let now : Timestamp ← get .now
  let ttl ← Prog.orAbort (Duration.seconds ttlSecs)
  let expiresAt ← Prog.orAbort (now.add ttl)
  put (.createChallenge drawn.dropped drawn.handle name signed expiresAt)
  return drawn.handle

/-- A handle is single-use: the database delete is the replay gate. -/
def takeChallenge (codec : Codec (ChallengePayload α)) (handle purpose : String) :
    Prog authCalls Error (ChallengePayload α) := do
  let now ← get .now
  match ← put (.takeChallenge handle purpose now) with
  | none => Prog.fail (.auth "passkey challenge expired or already used")
  | some signed => do
    let now ← get .now
    lift (decodeChallenge app codec signed (unixSeconds now))

end Challenges

structure PasskeyView where
  id : Id
  name : String
  createdAt : Timestamp
  lastUsedAt : Option Timestamp
  deriving DecidableEq

def PasskeyView.of (key : PasskeyRow) : PasskeyView :=
  ⟨key.id, key.name, key.createdAt, key.lastUsedAt⟩

inductive PasskeyRequest (W : Webauthn) where
  | loginOptions (ip : String) (limited : Option ℕ) (drawn : CeremonyDraw)
  | login (ip : String) (cookies : Option String) (credential : W.Assertion) (sessionId : String)
  | registerOptions (cookies : Option String) (drawn : CeremonyDraw)
  | register (cookies : Option String) (name : Option String) (credential : W.Attestation)
  | delete (cookies : Option String) (id : Id)

inductive PasskeyResponse (W : Webauthn) where
  | rateLimited (retryAfterSecs : ℕ)
  | loginOptions (challenge : W.RequestChallenge) (handle : String)
  /-- The assertion failed; the cookie of its challenge is cleared. -/
  | refused
  | signedIn (user : UserView) (sessionId : String)
  | registerOptions (challenge : W.CreationChallenge) (handle : String)
  | registered (key : PasskeyView)
  | removed

section Handlers

variable (app : AppState) (W : Webauthn)

/-- The settings of passkeys, or `404` when they are disabled. -/
def requirePasskeys : Except Error PasskeySettings :=
  match app.passkey with
  | some config => .ok config
  | none => .error (.notFound "passkeys are not enabled")

def webauthnStartError (err : String) : Error :=
  .internal ("could not start the passkey ceremony: " ++ err)

def quotaExceeded (maxPerUser : ℕ) : Error :=
  .validation s!"at most {maxPerUser} passkeys can be registered per user"

/-- Maximum accepted length of a passkey name, in characters after trimming. -/
def maxPasskeyNameLen : ℕ := 64

def normalizePasskeyName (name defaultName : String) : Except String String :=
  if trim name = "" then .ok defaultName
  else if maxPasskeyNameLen < (trim name).length then
    .error s!"passkey name must be at most {maxPasskeyNameLen} characters"
  else .ok (trim name)

/-- `POST /auth/passkey/login/options`, with the answer of the rate limiter. -/
def loginOptions (ip : String) (limited : Option ℕ) (drawn : CeremonyDraw) :
    Prog authCalls Error (PasskeyResponse W) := do
  let config ← lift (requirePasskeys app)
  match limited with
  | some retryAfterSecs => return .rateLimited retryAfterSecs
  | none => do
    match ← guard (.check (lockoutKey ip passkeyLockoutSubject)) with
    | .locked _ => Prog.fail .rateLimited
    | .allowed => do
      let (challenge, ceremony) ← lift
        ((W.startAuthentication drawn.random).mapError webauthnStartError)
      let handle ← challengeCookie app W.authentication config passkeyAuthenticationCookie ceremony
        none drawn
      return .loginOptions (W.stripMediation challenge) handle

/-- Deserialize a stored credential back into the library's type. -/
def parseCredential (stored : PasskeyRow) : Except Error W.Credential :=
  (W.credential.fromStr stored.credential).mapError fun e =>
    .internal ("stored passkey is unreadable: " ++ e)

def completeLogin (key : String) (stored : PasskeyRow) (verified : W.Credential)
    (result : W.AuthenticationResult) (user : UserRow) (sessionId : String) :
    Prog authCalls Error (PasskeyResponse W) :=
  -- A pending account holds no session until an instance admin approves it.
  if user.status.isPending then Prog.fail (.forbidden "account is awaiting approval")
  else do
    let serialized ← lift (W.credential.toStr (W.updateCredential verified result))
    let now ← get .now
    put (.touchPasskey stored.id serialized now)
    guard (.success key)
    let _ ← startSession sessionId user.id
    return .signedIn (.of (app.adminUsers.apply user)) sessionId

/-- A login whose challenge has been taken: the assertion names its account and its credential. -/
def verifyAssertion (key : String) (credential : W.Assertion) (state : W.Authentication)
    (sessionId : String) : Prog authCalls Error (PasskeyResponse W) := do
  let (userId, credentialId) ← lift
    ((W.identify credential).mapError fun _ => .auth "passkey is not recognised")
  let found ← get (.findPasskey (app.signing.encode credentialId))
  match Option.filter (fun stored : PasskeyRow => stored.userId = userId) found with
  | none => do
    guard (.failure key)
    Prog.fail (.auth "passkey is not recognised")
  | some stored => do
    let verified ← lift (parseCredential W stored)
    match W.finishAuthentication credential state verified with
    | .error _ => do
      guard (.failure key)
      return .refused
    | .ok result => do
      match ← get (.findUserById userId) with
      | none => Prog.fail (.auth "passkey is not recognised")
      | some user => completeLogin app W key stored verified result user sessionId

/-- `POST /auth/passkey/login` -/
def loginVerify (ip : String) (cookies : Option String) (credential : W.Assertion)
    (sessionId : String) : Prog authCalls Error (PasskeyResponse W) := do
  let _ ← lift (requirePasskeys app)
  let key := lockoutKey ip passkeyLockoutSubject
  match ← guard (.check key) with
  | .locked _ => Prog.fail .rateLimited
  | .allowed =>
    match readCookie cookies passkeyAuthenticationCookie with
    | none => Prog.fail (.auth "no passkey challenge in progress")
    | some handle => do
      let payload ← takeChallenge app W.authentication handle passkeyAuthenticationCookie
      verifyAssertion app W key credential payload.state sessionId

/-- `POST /api/passkeys/options`; the library excludes each listed credential, in any order. -/
def registerOptions (cookies : Option String) (drawn : CeremonyDraw) :
    Prog authCalls Error (PasskeyResponse W) := do
  let user ← authenticateUser app cookies
  let config ← lift (requirePasskeys app)
  let registered : List PasskeyRow ← get (.passkeysOf user.id)
  if config.maxPerUser ≤ registered.length then Prog.fail (quotaExceeded config.maxPerUser)
  else do
    let existing : List PasskeyRow ← get (.passkeysOf user.id)
    match existing.mapM fun key => app.signing.decode key.credentialId with
    | none => Prog.fail (.internal "stored credential id is unreadable")
    | some exclude => do
      let (challenge, ceremony) ← lift ((W.startRegistration drawn.random user.id user.email
        user.displayName exclude).mapError webauthnStartError)
      let handle ← challengeCookie app W.registration config passkeyRegistrationCookie ceremony
        (some user.id) drawn
      return .registerOptions (W.requireDiscoverable challenge) handle

/-- The end of a registration: the quota is checked again, and the credential stored. -/
def storeCredential (maxPerUser : ℕ) (userId : Id) (name : String) (credential : W.Credential) :
    Prog authCalls Error (PasskeyResponse W) := do
  let owned : List PasskeyRow ← get (.passkeysOf userId)
  if maxPerUser ≤ owned.length then Prog.fail (quotaExceeded maxPerUser)
  else do
    let serialized ← lift (W.credential.toStr credential)
    let stored ← put
      (.createPasskey ⟨userId, app.signing.encode (W.credId credential), name, serialized⟩)
    return .registered (.of stored)

/-- What a registration answers whose credential does not verify. -/
def registrationUnverified : Error := .validation "passkey registration could not be verified"

/-- `POST /api/passkeys` -/
def registerVerify (cookies name : Option String) (credential : W.Attestation) :
    Prog authCalls Error (PasskeyResponse W) := do
  let user ← authenticateUser app cookies
  let config ← lift (requirePasskeys app)
  let name ← lift ((normalizePasskeyName (name.getD "") "Passkey").mapError .validation)
  match readCookie cookies passkeyRegistrationCookie with
  | none => Prog.fail (.auth "no passkey registration in progress")
  | some handle => do
    let payload ← takeChallenge app W.registration handle passkeyRegistrationCookie
    if payload.userId ≠ some user.id then
      Prog.fail (.auth "passkey registration does not belong to this session")
    else do
      let credential ← lift ((W.finishRegistration credential payload.state).mapError
        fun _ => registrationUnverified)
      storeCredential app W config.maxPerUser user.id name credential

/-- `DELETE /api/passkeys/{id}` -/
def deletePasskey (cookies : Option String) (id : Id) :
    Prog authCalls Error (PasskeyResponse W) := do
  let user ← authenticateUser app cookies
  let _ ← lift (requirePasskeys app)
  put (.deletePasskey user.id id)
  return .removed

def PasskeyRequest.prog : PasskeyRequest W → Prog authCalls Error (PasskeyResponse W)
  | loginOptions ip limited drawn => Auth.loginOptions app W ip limited drawn
  | login ip cookies credential sessionId => loginVerify app W ip cookies credential sessionId
  | registerOptions cookies drawn => Auth.registerOptions app W cookies drawn
  | register cookies name credential => registerVerify app W cookies name credential
  | delete cookies id => deletePasskey app W cookies id

end Handlers

def charsOf (numbers : List ℕ) : Except Error String :=
  if numbers.all fun n => n < 0xd800 then .ok (String.ofList (numbers.map Char.ofNat))
  else .error (.internal "number out of range")

def Codec.ofNumbers {α : Type} (write : α → List ℕ) (read : List ℕ → Option α) : Codec α where
  toStr a := charsOf (write a)
  fromStr text := (read (text.toList.map Char.toNat)).elim (.error "malformed") .ok

structure PlainAssertion where
  userId : Id
  credential : UInt8
  challenge : ℕ
  counter : ℕ

structure PlainCredential where
  id : UInt8
  counter : ℕ

def plainCredential : Codec PlainCredential :=
  .ofNumbers (fun key => [key.id.toNat, key.counter]) fun
    | [id, counter] => some ⟨.ofNat id, counter⟩
    | _ => none

def payloadNumbers (payload : ChallengePayload ℕ) : List ℕ :=
  [payload.state, payload.userId.elim 0 (· + 1), payload.expiresAt.toNat, (-payload.expiresAt).toNat]

def readPayload : List ℕ → Option (ChallengePayload ℕ)
  | [state, userId, after, before] =>
    some ⟨state, if userId = 0 then none else some (userId - 1), after - before⟩
  | _ => none

/-- Stands in for `webauthn-rs` in examples: the state of a ceremony is its challenge, which the
authenticator has to repeat, and a counter may not stand still. -/
def Webauthn.plain : Webauthn where
  Assertion := PlainAssertion
  Attestation := UInt8 × ℕ
  Authentication := ℕ
  Registration := ℕ
  Credential := PlainCredential
  AuthenticationResult := ℕ
  RequestChallenge := ℕ
  CreationChallenge := ℕ
  startAuthentication random := .ok (random, random)
  identify assertion := .ok (assertion.userId, ⟨#[assertion.credential]⟩)
  finishAuthentication assertion challenge key :=
    if assertion.challenge ≠ challenge ∨ assertion.credential ≠ key.id then .error "invalid assertion"
    else if assertion.counter = 0 ∧ key.counter = 0 ∨ key.counter < assertion.counter then
      .ok assertion.counter
    else .error "possible compromise"
  updateCredential key counter := { key with counter }
  startRegistration random _ _ _ _ := .ok (random, random)
  finishRegistration attestation challenge :=
    if attestation.2 = challenge then .ok ⟨attestation.1, 0⟩ else .error "invalid attestation"
  credId key := ⟨#[key.id]⟩
  stripMediation := id
  requireDiscoverable := id
  credential := plainCredential
  authentication := .ofNumbers payloadNumbers readPayload
  registration := .ofNumbers payloadNumbers readPayload

/-- Stands in for base64 and HMAC in examples: a byte is shown as a character of its own. -/
def Signing.spelled : Signing where
  encode bytes := String.ofList (bytes.data.toList.map fun b => Char.ofNat (0x100 + b.toNat))
  decode text := some ⟨(text.toList.map fun c => UInt8.ofNat (c.toNat - 0x100)).toArray⟩
  mac secret message := secret ++ message

def AppState.withPasskeys (maxPerUser : ℕ) : AppState :=
  { AppState.plain .sqlite with
    signing := .spelled
    passkey := some ⟨maxPerUser, 300 * 1000000000⟩ }

end Soika.Auth
