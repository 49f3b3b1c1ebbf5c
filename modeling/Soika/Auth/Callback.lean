import Soika.Adapters.AccountsConsistent
import Soika.Auth.Oidc
import Soika.ConfigSync.Reconciliation
import Soika.Library.Postcondition

/-! # Sessions of the identity provider

The callback opens a session for an account only if the signed state, the claims and the account
itself allow it, and it leaves an account that was local without local credentials.
-/

namespace Soika.Auth

open Table Interaction

/-- The host whose reconciliations apply the grants of the configuration file, each occasion with its
attempts. -/
def Host.syncing (H : Host) (P : Platform) (write : WritePolicy)
    (attempts : ℕ → ℕ → ConfigSync.Attempt) : Host :=
  { H with sync := fun occasion userId groups d =>
      ConfigSync.reconcileUser P write userId groups (attempts occasion) d }

section Guarantee

variable (app : AppState) (settings : OidcSettings) (provider : OidcProvider)
  (request : CallbackRequest)

/-- The signed, unexpired state carries the returned one, and the claims for which the provider
exchanges the code have a verified email in an allowed domain. -/
structure Vouched (nowUnix : ℤ) (claims : OidcClaims) : Prop where
  state : ∃ signed json payload code, readCookie request.cookies stateCookie = some signed ∧
    app.signing.verifyStr app.secretKey signed = .ok json ∧
    provider.payload.fromStr json = .ok payload ∧ nowUnix < payload.expiresAt ∧
    request.state = some payload.state ∧ request.code = some code ∧
    provider.exchangeCode code payload.pkceVerifier payload.nonce = .ok claims
  verified : claims.emailVerified = true
  email : claims.email ≠ ""
  domain : emailDomainAllowed claims.email settings.allowedEmailDomains = true

/-- No stored Owner with the email is absent from the configured administrators. -/
def Trusted (d : Accounts) (email : String) : Prop :=
  ∀ u ∈ d.users, u.email = email → u.instanceRole = .owner → app.adminUsers.contains u.email = true

/-- The account is left with no local credentials, if it had to be converted. -/
def SsoOnly (d : Accounts) (claims : OidcClaims) (user : UserRow) (d' : Accounts) : Prop :=
  ∀ before ∈ d.users, before.email = claims.email →
    shouldConvertToSso (app.adminUsers.apply before) = true →
      user.id = before.id ∧ user.authProvider = .oidc ∧ user.passwordHash = "" ∧
        ∀ k ∈ d'.passkeys, k.userId ≠ user.id

structure Admitted (s s' : Server) (session : SessionRow) (claims : OidcClaims) (user : UserRow) :
    Prop where
  verified : Vouched app settings provider request (unixSeconds s.clock) claims
  trusted : Trusted app s.db claims.email
  mem : user ∈ s'.db.users
  email : user.email = claims.email
  own : session.userId = user.id
  active : user.status = .active
  owner : user.instanceRole = .owner → app.adminUsers.contains user.email = true
  converted : SsoOnly app s.db claims user s'.db
  revoked : ∀ before ∈ s.db.users, before.email = claims.email →
    shouldConvertToSso (app.adminUsers.apply before) = true →
      ∀ other ∈ s'.db.sessions, other.userId = user.id → other = session

/-- How the callback ends: the sessions it has opened are admitted, emails are unique, and a refusal
on the grounds of state, verification, domain or owner has changed nothing. -/
structure CallbackGuarded (s : Server) (o : Interaction.Outcome Error Response) (s' : Server) :
    Prop where
  sessions : ∀ session ∈ s'.db.sessions, session ∉ s.db.sessions →
    ∃ claims user, Admitted app settings provider request s s' session claims user
  emails : UniqueOn UserRow.email s'.db.users
  refused : (∀ claims, Vouched app settings provider request (unixSeconds s.clock) claims →
    ¬ Trusted app s.db claims.email) → s'.db = s.db ∧ ∀ response, o ≠ .ok response

end Guarantee

section Calls

variable {H : Host} {α β : Type} {Q : Interaction.Outcome Error α → Server → Prop} {s : Server}

theorem concludes_lift {x : Except Error β} {f : β → Prog authCalls Error α}
    (herror : ∀ e, x = .error e → Q (.err e) s)
    (hok : ∀ b, x = .ok b → (f b).Concludes H.machine.faulty Q s) :
    ((lift x).bind f).Concludes H.machine.faulty Q s := by
  cases x with
  | error e => exact herror e rfl
  | ok b => exact hok b rfl

theorem concludes_get {q : Query} {f : q.Reply → Prog authCalls Error α}
    (herror : ∀ e, Q (.err e) s)
    (hok : ∀ r, q.eval H.argon2 H.backend s = .ok r → (f r).Concludes H.machine.faulty Q s) :
    ((get q).bind f).Concludes H.machine.faulty Q s := by
  apply Prog.Concludes.ask_bind
  · intro fault e s' h
    obtain rfl := Host.answer_error rfl h
    exact herror e
  · intro fault r s' h
    cases fault with
    | some e => cases h
    | none =>
      obtain ⟨hr, rfl⟩ := Prod.mk.inj h
      exact hok r hr

theorem concludes_put {w : Write} {f : w.Reply → Prog authCalls Error α}
    (herror : ∀ e, Q (.err e) s)
    (hok : ∀ r d, w.run H.backend s.clock s.db = .ok (r, d) →
      (f r).Concludes H.machine.faulty Q { s with db := d }) :
    ((put w).bind f).Concludes H.machine.faulty Q s := by
  apply Prog.Concludes.ask_bind
  · intro fault e s' h
    obtain rfl := Host.answer_error rfl h
    exact herror e
  · intro fault r s' h
    cases fault with
    | some e => cases h
    | none =>
      obtain ⟨d, hrun, rfl⟩ := Host.runWrite_eq_ok.mp h
      exact hok r d hrun

theorem startSession_concludes {sessionId : String} {userId : Id}
    {Q : Interaction.Outcome Error SessionRow → Server → Prop} (herror : ∀ e, Q (.err e) s)
    (hpanic : Q .panic s)
    (hok : ∀ expiresAt session d, s.db.createSession H.backend sessionId userId expiresAt s.clock =
      .ok (session, d) → Q (.ok session) { s with db := d }) :
    (startSession sessionId userId).Concludes H.machine.faulty Q s := by
  unfold startSession
  apply concludes_get herror
  intro now _
  apply Prog.Concludes.orAbort_bind hpanic
  intro expiresAt _
  rw [← Prog.bind_ret (put _)]
  exact concludes_put herror fun session d hrun => hok expiresAt session d hrun

end Calls

section Identify

variable {H : Host} {app : AppState} {settings : OidcSettings} {provider : OidcProvider}
  {request : CallbackRequest} {s : Server}

theorem requireParam_eq_ok {param : Option String} {msg value : String}
    (h : requireParam param msg = .ok value) : param = some value := by
  unfold requireParam at h
  split at h
  · rename_i found hfound
    cases h
    exact (Option.filter_eq_some_iff.mp hfound).1
  · cases h

theorem requireStateCookie_eq_ok {cookies : Option String} {signed : String}
    (h : requireStateCookie cookies = .ok signed) : readCookie cookies stateCookie = some signed := by
  unfold requireStateCookie at h
  split at h
  · rename_i found hfound
    cases h
    exact hfound
  · cases h

theorem matchState_eq_ok {payload : StatePayload} {state : String}
    (h : matchState payload state = .ok ()) : payload.state = state := by
  unfold matchState at h
  split at h
  · cases h
  · rename_i hsame
    exact not_not.mp hsame

theorem decodeStateCookie_eq_ok {codec : Codec StatePayload} {signed : String} {nowUnix : ℤ}
    {payload : StatePayload} (h : decodeStateCookie app codec signed nowUnix = .ok payload) :
    ∃ json, app.signing.verifyStr app.secretKey signed = .ok json ∧
      codec.fromStr json = .ok payload ∧ nowUnix < payload.expiresAt := by
  unfold decodeStateCookie at h
  split at h
  · cases h
  · rename_i json hjson
    split at h
    · cases h
    · rename_i found hfound
      split at h
      · cases h
      · rename_i hexpires
        cases h
        exact ⟨json, hjson, hfound, not_le.mp hexpires⟩

theorem checkClaims_eq_ok {claims : OidcClaims} (h : checkClaims settings claims = .ok ()) :
    claims.emailVerified = true ∧ claims.email ≠ "" ∧
      emailDomainAllowed claims.email settings.allowedEmailDomains = true := by
  unfold checkClaims at h
  split at h
  · cases h
  · rename_i hverified
    split at h
    · cases h
    · rename_i hemail
      split at h
      · cases h
      · rename_i hdomain
        exact ⟨Bool.not_eq_false _ ▸ hverified, hemail, Bool.not_eq_false _ ▸ hdomain⟩

theorem identify_concludes : (identify app settings provider request).Concludes H.machine.faulty
    (fun o s' => s' = s ∧ ∀ payload claims, o = .ok (payload, claims) →
      Vouched app settings provider request (unixSeconds s.clock) claims) s := by
  have hstop : ∀ e : Error, s = s ∧ ∀ payload claims,
      (Interaction.Outcome.err e : Interaction.Outcome Error (StatePayload × OidcClaims)) =
        .ok (payload, claims) →
      Vouched app settings provider request (unixSeconds s.clock) claims :=
    fun e => ⟨rfl, nofun⟩
  unfold identify
  apply concludes_lift fun e _ => hstop e
  intro code hcode
  apply concludes_lift fun e _ => hstop e
  intro state hstate
  apply concludes_lift fun e _ => hstop e
  intro signed hsigned
  apply concludes_get hstop
  intro now hnow
  apply concludes_lift fun e _ => hstop e
  intro payload hpayload
  apply concludes_lift fun e _ => hstop e
  intro _ hmatch
  apply concludes_lift fun e _ => hstop e
  intro claims hclaims
  apply concludes_lift fun e _ => hstop e
  intro _ hchecked
  refine ⟨rfl, ?_⟩
  rintro _ _ ⟨⟩
  obtain rfl := Except.ok.inj hnow
  obtain ⟨json, hjson, hread, hexpires⟩ := decodeStateCookie_eq_ok hpayload
  obtain ⟨hverified, hemail, hdomain⟩ := checkClaims_eq_ok hchecked
  refine ⟨⟨signed, json, payload, code, requireStateCookie_eq_ok hsigned, hjson, hread, hexpires, ?_,
    requireParam_eq_ok hcode, hclaims⟩, hverified, hemail, hdomain⟩
  rw [matchState_eq_ok hmatch]
  exact requireParam_eq_ok hstate

end Identify

section Account

variable {H : Host} {P : Platform} {write : WritePolicy} {attempts : ℕ → ℕ → ConfigSync.Attempt}
  {app : AppState} {settings : OidcSettings} {claims : OidcClaims} {s s' : Server} {user : UserRow}

structure Joined (app : AppState) (s : Server) (claims : OidcClaims) (user : UserRow) (s' : Server) :
    Prop where
  ids : UniqueOn UserRow.id s'.db.users
  emails : UniqueOn UserRow.email s'.db.users
  mem : user ∈ s'.db.users
  email : user.email = claims.email
  owner : user.instanceRole = .owner → app.adminUsers.contains user.email = true
  sessions : ∀ session ∈ s'.db.sessions, session ∈ s.db.sessions
  converted : SsoOnly app s.db claims user s'.db
  revoked : ∀ before ∈ s.db.users, before.email = claims.email →
    shouldConvertToSso (app.adminUsers.apply before) = true →
      ∀ other ∈ s'.db.sessions, other.userId ≠ user.id

structure Sessionless (s s' : Server) : Prop where
  emails : UniqueOn UserRow.email s'.db.users
  sessions : ∀ session ∈ s'.db.sessions, session ∈ s.db.sessions

theorem Joined.sessionless (h : Joined app s claims user s') : Sessionless s s' :=
  ⟨h.emails, h.sessions⟩

theorem Sessionless.of_consistent (h : s.db.Consistent) : Sessionless s s :=
  ⟨h.emails, fun _ hs => hs⟩

theorem Joined.of_mem (h : s.db.Consistent) (hmem : user ∈ s.db.users) (hemail : user.email = claims.email)
    (howner : user.instanceRole = .owner → app.adminUsers.contains user.email = true)
    (hkept : shouldConvertToSso (app.adminUsers.apply user) = false) : Joined app s claims user s := by
  have hsame : ∀ before ∈ s.db.users, before.email = claims.email →
      shouldConvertToSso (app.adminUsers.apply before) = true → False := by
    intro before hbefore hbemail hconvert
    obtain rfl := UniqueOn.eq_of_key h.emails hbefore hmem (hbemail.trans hemail.symm)
    rw [hkept] at hconvert
    cases hconvert
  exact ⟨h.userIds, h.emails, hmem, hemail, howner, fun _ hs => hs,
    fun before hbefore hbemail hconvert => (hsame before hbefore hbemail hconvert).elim,
    fun before hbefore hbemail hconvert => (hsame before hbefore hbemail hconvert).elim⟩

theorem userById_of_modify {d d' : Accounts} {id : Id} {f : UserRow → UserRow}
    (hf : ∀ u, (f u).id = u.id) (hd : d'.users = modify UserRow.id id f d.users) :
    d'.userById id = (d.userById id).map f := by
  rw [UserTables.userById, hd]
  exact lookup_modify_self hf id d.users

theorem Joined.of_created (h : s.db.Consistent) {B : AccountBackend} {d : Accounts}
    (hrun : s.db.createAccount B (vouchedAccount settings claims) false s.clock = .ok (user, d)) :
    Joined app s claims user { s with db := d } := by
  obtain ⟨-, hemail, rfl, rfl⟩ := Accounts.createAccount_eq_ok.mp hrun
  have hadded := @Accounts.Consistent.addUser B _ s.clock h _ hemail
  have hnew : ∀ before ∈ s.db.users, before.email ≠ claims.email := lookup_eq_none.mp hemail
  exact {
    ids := hadded.userIds
    emails := hadded.emails
    mem := List.mem_append_right _ (List.mem_singleton_self _)
    email := rfl
    owner := by
      intro howner
      cases howner
    sessions := fun _ hs => hs
    converted := fun before hbefore hbemail => absurd hbemail (hnew before hbefore)
    revoked := fun before hbefore hbemail => absurd hbemail (hnew before hbefore) }

theorem Joined.of_converted (h : s.db.Consistent) {existing : UserRow} {d : Accounts} {u : Unit}
    (hmem : existing ∈ s.db.users) (hemail : existing.email = claims.email)
    (hrun : s.db.convertToSso existing.id = .ok (u, d)) :
    d.userById existing.id = some existing.ssoOnly ∧
      Joined app s claims existing.ssoOnly { s with db := d } := by
  obtain ⟨found, hfound, hrole, rfl⟩ := Accounts.convertToSso_eq_ok.mp hrun
  obtain rfl : existing = found :=
    Option.some.inj ((h.userById_of_mem hmem).symm.trans hfound)
  have hconverted : (s.db.dropCredentials existing.id).Consistent :=
    h.modifyUsers (f := UserRow.ssoOnly) (fun _ => rfl) (fun _ => rfl) rfl rfl rfl rfl rfl
  have huser : (s.db.dropCredentials existing.id).userById existing.id = some existing.ssoOnly := by
    rw [userById_of_modify (f := UserRow.ssoOnly) (fun _ => rfl)
      (rfl : (s.db.dropCredentials existing.id).users = _), hfound]
    rfl
  have hsame : ∀ before ∈ s.db.users, before.email = claims.email → before = existing :=
    fun before hbefore hbemail =>
      UniqueOn.eq_of_key h.emails hbefore hmem (hbemail.trans hemail.symm)
  exact ⟨huser, {
    ids := hconverted.userIds
    emails := hconverted.emails
    mem := (Accounts.userById_mem huser).1
    email := hemail
    owner := fun howner => absurd howner hrole
    sessions := fun session hs => (mem_remove.mp hs).1
    converted := by
      intro before hbefore hbemail _
      obtain rfl := hsame before hbefore hbemail
      exact ⟨rfl, rfl, rfl, fun k hk => (mem_remove.mp hk).2⟩
    revoked := fun before hbefore hbemail _ other hother => (mem_remove.mp hother).2 }⟩

theorem Joined.sync (h : Joined app s claims user s') {d : Directory} (hd : d.users = s'.db.users) :
    Joined app s claims user { s' with db := { s'.db with toDirectory := d } } := by
  exact {
    ids := hd ▸ h.ids
    emails := hd ▸ h.emails
    mem := hd ▸ h.mem
    email := h.email
    owner := h.owner
    sessions := h.sessions
    converted := h.converted
    revoked := h.revoked }

def activation : UserUpdate := ⟨none, none, some .active⟩

theorem Joined.activate (h : Joined app s claims user s') {d : Accounts} {u : Unit}
    (hrun : s'.db.updateUser user.id activation = .ok (u, d)) :
    d.userById user.id = some (activation.apply user) ∧
      Joined app s claims (activation.apply user) { s' with db := d } := by
  obtain ⟨found, hfound, rfl⟩ := Accounts.updateUser_eq_ok.mp hrun
  obtain rfl : user = found :=
    Option.some.inj ((UniqueOn.lookup_of_mem h.ids h.mem).symm.trans hfound)
  have hid : ∀ u, (activation.apply u).id = u.id := fun _ => rfl
  have hemail : ∀ u, (activation.apply u).email = u.email := fun _ => rfl
  have huser : (s'.db.modifyUser user.id activation.apply).userById user.id =
      some (activation.apply user) := by
    rw [userById_of_modify hid (rfl : (s'.db.modifyUser user.id _).users = _), hfound]
    rfl
  exact ⟨huser, {
    ids := UniqueOn.modify hid h.ids
    emails := UniqueOn.modify hemail h.emails
    mem := (Accounts.userById_mem huser).1
    email := h.email
    owner := h.owner
    sessions := h.sessions
    converted := h.converted
    revoked := h.revoked }⟩

def Joins (app : AppState) (s : Server) (claims : OidcClaims) :
    Interaction.Outcome Error UserRow → Server → Prop
  | .ok user, s' => Joined app s claims user s'
  | _, s' => Sessionless s s'

theorem findOrCreate_concludes (h : s.db.Consistent) (htrusted : Trusted app s.db claims.email) :
    (findOrCreate app settings claims).Concludes H.machine.faulty (Joins app s claims) s := by
  have hquiet : ∀ e, Joins app s claims (.err e) s := fun _ => .of_consistent h
  unfold findOrCreate
  apply concludes_get hquiet
  intro found hfound
  obtain rfl := Except.ok.inj hfound
  cases hexisting : s.db.userByEmail claims.email with
  | none =>
    dsimp only
    rw [← Prog.bind_ret (put _)]
    exact concludes_put hquiet fun user d hrun => Joined.of_created h hrun
  | some existing =>
    obtain ⟨hmem, hemail⟩ := Accounts.userByEmail_mem hexisting
    dsimp only
    split
    · exact hquiet _
    · unfold ssoAccount
      split
      · apply concludes_put hquiet
        intro _ d hrun
        obtain ⟨huser, hjoined⟩ := @Joined.of_converted app claims s h existing d _ hmem hemail hrun
        apply concludes_get fun _ => hjoined.sessionless
        intro found hfound
        obtain rfl := Except.ok.inj hfound
        rw [huser]
        exact hjoined
      · rename_i hkept
        exact Joined.of_mem h hmem hemail (htrusted existing hmem hemail) (Bool.eq_false_iff.mpr hkept)

/-- The call that reconciles leaves the account as it is, whether or not it succeeds. -/
theorem Joined.reconciled (h : Joined app s claims user s') {userId : Id} {groups : List String}
    {occasion : ℕ} {fault : Option Error} {r : Except Error Bool} {s'' : Server}
    (hrun : (H.syncing P write attempts).machine.answer (.reconcileUser userId groups occasion) fault s' =
      (r, s'')) : Joined app s claims user s'' := by
  cases fault with
  | some e =>
    cases hrun
    exact h
  | none =>
    cases hrun
    exact h.sync (ConfigSync.reconcileUser_users ..).users

theorem grantTeams_concludes (h : Joined app s claims user s') (occasion : ℕ) :
    (grantTeams app claims occasion user).Concludes (H.syncing P write attempts).machine.faulty
      (Joins app s claims) s' := by
  unfold grantTeams
  split
  · apply Prog.Concludes.ask_bind
    · intro fault e s'' hrun
      exact (h.reconciled hrun).sessionless
    · intro fault granted s'' hrun
      have hjoined := h.reconciled hrun
      split
      · apply concludes_put fun _ => hjoined.sessionless
        intro _ d hrun
        obtain ⟨huser, hactive⟩ := hjoined.activate hrun
        apply concludes_get fun _ => hactive.sessionless
        intro found hfound
        obtain rfl := Except.ok.inj hfound
        rw [huser]
        exact hactive
      · exact hjoined
  · exact h

end Account

section Session

variable {H : Host} {P : Platform} {write : WritePolicy} {attempts : ℕ → ℕ → ConfigSync.Attempt}
  {app : AppState} {settings : OidcSettings} {provider : OidcProvider} {request : CallbackRequest}
  {claims : OidcClaims} {s s' : Server} {user : UserRow} {o : Interaction.Outcome Error Response}

theorem CallbackGuarded.unchanged (h : s.db.Consistent) (ho : ∀ response, o ≠ .ok response) :
    CallbackGuarded app settings provider request s o s :=
  ⟨fun _ hs hnew => absurd hs hnew, h.emails, fun _ => ⟨rfl, ho⟩⟩

theorem CallbackGuarded.of_sessionless (h : Sessionless s s')
    (hverified : Vouched app settings provider request (unixSeconds s.clock) claims)
    (htrusted : Trusted app s.db claims.email) :
    CallbackGuarded app settings provider request s o s' :=
  ⟨fun session hs hnew => absurd (h.sessions session hs) hnew, h.emails,
    fun hrefused => absurd htrusted (hrefused claims hverified)⟩

theorem CallbackGuarded.of_session (h : Joined app s claims user s')
    (hverified : Vouched app settings provider request (unixSeconds s.clock) claims)
    (htrusted : Trusted app s.db claims.email) (hactive : user.status.isPending = false)
    {B : AccountBackend} {expiresAt now : Timestamp} {session : SessionRow} {d : Accounts}
    (hrun : s'.db.createSession B request.sessionId user.id expiresAt now = .ok (session, d)) :
    CallbackGuarded app settings provider request s o { s' with db := d } := by
  obtain ⟨-, -, -, rfl⟩ := Accounts.createSession_eq_ok.mp hrun
  refine ⟨?_, h.emails, fun hrefused => absurd htrusted (hrefused claims hverified)⟩
  intro opened hopened hnew
  rcases List.mem_append.mp hopened with hold | hopened
  · exact absurd (h.sessions opened hold) hnew
  · obtain rfl := List.mem_singleton.mp hopened
    refine ⟨claims, user, {
      verified := hverified
      trusted := htrusted
      mem := h.mem
      email := h.email
      own := rfl
      active := ?_
      owner := h.owner
      converted := h.converted
      revoked := ?_ }⟩
    · cases hstatus : user.status with
      | active => rfl
      | pending =>
        rw [hstatus] at hactive
        cases hactive
    · intro before hbefore hbemail hconvert other hother hown
      rcases List.mem_append.mp hother with hother | hother
      · exact absurd hown (h.revoked before hbefore hbemail hconvert other hother)
      · exact List.mem_singleton.mp hother

/-- A stored Owner that is not listed is refused before anything is written. -/
theorem findOrCreate_refused (hemails : UniqueOn UserRow.email s.db.users)
    (huntrusted : ¬ Trusted app s.db claims.email) :
    (findOrCreate app settings claims).Concludes H.machine.faulty
      (fun o s' => s' = s ∧ ∀ user, o ≠ .ok user) s := by
  obtain ⟨owner, hmem, hemail, hrole, hlisted⟩ : ∃ owner ∈ s.db.users, owner.email = claims.email ∧
      owner.instanceRole = .owner ∧ app.adminUsers.contains owner.email = false := by
    simpa [Trusted] using huntrusted
  unfold findOrCreate
  apply concludes_get fun e => ⟨rfl, nofun⟩
  intro found hfound
  obtain rfl := Except.ok.inj hfound
  have hexisting : s.db.userByEmail claims.email = some owner := by
    rw [← hemail]
    exact UniqueOn.lookup_of_mem hemails hmem
  rw [hexisting]
  dsimp only
  rw [hrole, hlisted]
  exact ⟨rfl, nofun⟩

theorem runCallback_concludes (h : s.db.Consistent) :
    (runCallback app settings provider request).Concludes (H.syncing P write attempts).machine.faulty
      (CallbackGuarded app settings provider request s) s := by
  apply Prog.concludes_bind.mpr
  apply identify_concludes.mono
  rintro (⟨payload, claims⟩ | e | _) s₁ ⟨rfl, hidentified⟩
  case err => exact .unchanged h nofun
  case panic => exact .unchanged h nofun
  have hverified := hidentified payload claims rfl
  apply Prog.concludes_bind.mpr
  by_cases htrusted : Trusted app s₁.db claims.email
  case neg =>
    apply (findOrCreate_refused h.emails htrusted).mono
    rintro (user | e | _) s₂ ⟨rfl, hrefused⟩
    · exact absurd rfl (hrefused user)
    · exact .unchanged h nofun
    · exact .unchanged h nofun
  apply (findOrCreate_concludes h htrusted).mono
  rintro (user | e | _) s₂ hfound
  case err => exact .of_sessionless hfound hverified htrusted
  case panic => exact .of_sessionless hfound hverified htrusted
  apply Prog.concludes_bind.mpr
  apply (grantTeams_concludes hfound request.occasion).mono
  rintro (user | e | _) s₃ hgranted
  case err => exact .of_sessionless hgranted hverified htrusted
  case panic => exact .of_sessionless hgranted hverified htrusted
  have hquiet : ∀ o, CallbackGuarded app settings provider request s₁ o s₃ :=
    fun _ => .of_sessionless hgranted.sessionless hverified htrusted
  dsimp only
  split
  · exact hquiet _
  · rename_i hactive
    apply Prog.concludes_bind.mpr
    refine startSession_concludes (fun _ => hquiet _) (hquiet _) ?_
    intro expiresAt session d hrun
    have hopened : ∀ o, CallbackGuarded app settings provider request s₁ o { s₃ with db := d } :=
      fun _ => .of_session hgranted hverified htrusted (Bool.eq_false_iff.mpr hactive) hrun
    apply concludes_lift fun _ _ => hopened _
    intro target _
    exact hopened _

/-- A run of the callback, on every database and whatever fails, opens a session only for an account
that it may be opened for, after the account has lost its local credentials if it is to; a refusal
changes nothing. -/
theorem callback_guarded (H : Host) (P : Platform) (write : WritePolicy)
    (attempts : ℕ → ℕ → ConfigSync.Attempt) (app : AppState) (settings : OidcSettings)
    (provider : OidcProvider) (request : CallbackRequest) (φ : Faults Error) (s : Server)
    (h : s.db.Consistent) :
    CallbackGuarded app settings provider request s
      ((H.syncing P write attempts).machine.exec (runCallback app settings provider request) φ s).outcome
      ((H.syncing P write attempts).machine.exec (runCallback app settings provider request) φ s).state :=
  (runCallback_concludes h).exec φ

end Session

def stateJson : String :=
  "\x7b\"state\":\"xyz\",\"nonce\":\"n\",\"pkce_verifier\":\"v\",\"next\":null,\"expires_at\":600\x7d"

/-- A provider that vouches for one identity. -/
def oneIdentity : OidcProvider where
  exchangeCode _ _ _ := .ok ⟨"ann@example.com", true, "Ann", []⟩
  payload :=
    { toStr := fun _ => .ok stateJson
      fromStr := fun text =>
        if text = stateJson then .ok ⟨"xyz", "n", "v", none, 600⟩ else .error "expected value" }
  headerValue target := target.toList.all isVisible

def companyOnly : OidcSettings := ⟨["example.com"], false⟩

def callbackRequest : CallbackRequest where
  cookies := some (stateCookie ++ "=" ++ Signing.plain.signStr "secret".toUTF8 stateJson)
  code := some "code"
  state := some "xyz"
  sessionId := "s"
  occasion := 0

def asciiSync : Host :=
  Host.plain.syncing
    { toLowercase := asciiLowercase
      sqlLower := asciiLowercase
      debug := fun s => "\"" ++ s ++ "\""
      parseUrl := fun _ => none
      dbText := fun _ => ""
      uniqueViolation := .sqlite (some 2067) "UNIQUE constraint failed"
      foreignKeyViolation := sqlite.foreignKeyViolation }
    ⟨3, 100, by decide⟩ fun _ _ => ⟨fun _ => ⟨none, id, fun _ => .refl _, "", ""⟩, .epoch, .epoch⟩

def firstCallback : Run Error Server Response :=
  asciiSync.machine.exec (runCallback (.plain .sqlite) companyOnly oneIdentity callbackRequest) .none .new

theorem callback_guarded_new :
    CallbackGuarded (.plain .sqlite) companyOnly oneIdentity callbackRequest .new
      firstCallback.outcome firstCallback.state :=
  callback_guarded _ _ _ _ _ _ _ _ _ _ Accounts.Consistent.new

end Soika.Auth
