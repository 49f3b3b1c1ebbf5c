import Soika.Adapters.AccountsSpec
import Soika.Auth.Calls
import Soika.Auth.PasskeyHandlers
import Soika.Library.Histories

/-! # What passkey requests have done

Which calls precede a write of a passkey request, and what has happened in a request that has
answered. Each is read off the history of the request.
-/

namespace Soika.Auth

open Interaction

abbrev AuthHistory := List (Transition authCalls Error Server)

variable {app : AppState} {W : Webauthn} {H : Host} {α β : Type} {h h' : AuthHistory}

def SignedInAs (app : AppState) (cookies : Option String) (h : AuthHistory) (userId : Id) : Prop :=
  ∃ id session, sessionIdFrom app cookies = some id ∧
    Answered h (.query (.findSession id)) (some session) ∧ session.userId = userId

/-- The challenge was taken at the time that the clock showed before, with that text. -/
def Taken (purpose handle : String) (h : AuthHistory) (signed : String) : Prop :=
  ∃ now, Answered h (.query .now) now ∧
    Answered h (.write (.takeChallenge handle purpose now)) (some signed)

/-- The challenge was taken, and its text verified before the time that it carries. -/
def Unsealed (app : AppState) (codec : Codec (ChallengePayload α)) (purpose handle : String)
    (h : AuthHistory) (payload : ChallengePayload α) : Prop :=
  ∃ signed read, Taken purpose handle h signed ∧ Answered h (.query .now) read ∧
    decodeChallenge app codec signed (unixSeconds read) = .ok payload

/-- The assertion was verified against the state of its ceremony and the credential that was found. -/
structure Asserted (app : AppState) (W : Webauthn) (credential : W.Assertion)
    (state : W.Authentication) (h : AuthHistory) (stored : PasskeyRow) (verified : W.Credential)
    (result : W.AuthenticationResult) : Prop where
  found : ∃ userId credentialId, W.identify credential = .ok (userId, credentialId) ∧
    Answered h (.query (.findPasskey (app.signing.encode credentialId))) (some stored) ∧
    stored.userId = userId
  parsed : parseCredential W stored = .ok verified
  finished : W.finishAuthentication credential state verified = .ok result

theorem SignedInAs.mono {cookies : Option String} {userId : Id} (hs : SignedInAs app cookies h userId)
    (hsub : h ⊆ h') : SignedInAs app cookies h' userId := by
  obtain ⟨id, session, hid, hsession, huser⟩ := hs
  exact ⟨id, session, hid, hsession.mono hsub, huser⟩

theorem Taken.mono {purpose handle signed : String} (ht : Taken purpose handle h signed)
    (hsub : h ⊆ h') : Taken purpose handle h' signed := by
  obtain ⟨now, hnow, htake⟩ := ht
  exact ⟨now, hnow.mono hsub, htake.mono hsub⟩

theorem Unsealed.mono {codec : Codec (ChallengePayload α)} {purpose handle : String}
    {payload : ChallengePayload α} (ho : Unsealed app codec purpose handle h payload)
    (hsub : h ⊆ h') : Unsealed app codec purpose handle h' payload := by
  obtain ⟨signed, read, htook, hread, hdecode⟩ := ho
  exact ⟨signed, read, htook.mono hsub, hread.mono hsub, hdecode⟩

theorem Asserted.mono {credential : W.Assertion} {state : W.Authentication} {stored : PasskeyRow}
    {verified : W.Credential} {result : W.AuthenticationResult}
    (ha : Asserted app W credential state h stored verified result) (hsub : h ⊆ h') :
    Asserted app W credential state h' stored verified result := by
  obtain ⟨⟨userId, credentialId, hidentify, hfound, huser⟩, hparsed, hfinished⟩ := ha
  exact ⟨⟨userId, credentialId, hidentify, hfound.mono hsub, huser⟩, hparsed, hfinished⟩

def SessionRefusal (e : Error) : Prop :=
  e ∈ [.auth "missing or invalid session", .auth "session not found or expired",
    .auth "user no longer exists", .auth "account is awaiting approval", .auth "sign in with SSO"]

namespace PasskeyRequest

variable (app) (req : PasskeyRequest W)

/-- The handle under which the request stores a challenge. -/
def issues : PasskeyRequest W → Option String
  | loginOptions _ _ drawn => some drawn.handle
  | registerOptions _ drawn => some drawn.handle
  | _ => none

/-- The handle in the cookie of the request, whose challenge it takes. -/
def redeems : PasskeyRequest W → Option String
  | login _ cookies _ _ => readCookie cookies passkeyAuthenticationCookie
  | register cookies _ _ => readCookie cookies passkeyRegistrationCookie
  | _ => none

/-- The ceremony of the request. -/
def purpose : PasskeyRequest W → String
  | loginOptions _ _ _ | login _ _ _ _ => passkeyAuthenticationCookie
  | registerOptions _ _ | register _ _ _ | delete _ _ => passkeyRegistrationCookie

/-- What precedes the store of a challenge: its ceremony was started, for a user who is signed in when
it is a registration. -/
def Issues (h : AuthHistory) (id purpose state : String) : Prop :=
  match req with
  | loginOptions _ _ drawn => id = drawn.handle ∧ purpose = passkeyAuthenticationCookie ∧
      ∃ challenge ceremony now ttl, W.startAuthentication drawn.random = .ok (challenge, ceremony) ∧
        encodeChallenge app W.authentication ceremony none now ttl = .ok state
  | registerOptions cookies drawn => id = drawn.handle ∧ purpose = passkeyRegistrationCookie ∧
      ∃ userId email name exclude challenge ceremony now ttl, SignedInAs app cookies h userId ∧
        W.startRegistration drawn.random userId email name exclude = .ok (challenge, ceremony) ∧
        encodeChallenge app W.registration ceremony (some userId) now ttl = .ok state
  | _ => False

/-- What precedes the update of a credential: an assertion of it was verified. -/
def Touches (h : AuthHistory) (id : Id) (text : String) : Prop :=
  match req with
  | login _ _ credential _ => ∃ state stored verified result,
      Asserted app W credential state h stored verified result ∧ stored.id = id ∧
        W.credential.toStr (W.updateCredential verified result) = .ok text
  | _ => False

/-- What precedes the insert of a credential: its user was below the quota. -/
def Registers (h : AuthHistory) (new : NewPasskey) : Prop :=
  match req with
  | register cookies _ _ => SignedInAs app cookies h new.userId ∧ ∃ config owned,
      app.passkey = some config ∧ Answered h (.query (.passkeysOf new.userId)) owned ∧
        owned.length < config.maxPerUser
  | _ => False

/-- Which writes the request can make, after what it has done. -/
def May (h : AuthHistory) : AuthCall → Prop
  | .write (.createChallenge _ id purpose state _) => req.Issues app h id purpose state
  | .write (.touchPasskey id text _) => req.Touches app h id text
  | .write (.createPasskey new) => req.Registers app h new
  | _ => True

def Completes (h : AuthHistory) : Prop :=
  match req with
  | login _ cookies credential _ => ∃ handle payload stored verified result,
      readCookie cookies passkeyAuthenticationCookie = some handle ∧
      Unsealed app W.authentication passkeyAuthenticationCookie handle h payload ∧
      Asserted app W credential payload.state h stored verified result ∧
      ∃ text now, W.credential.toStr (W.updateCredential verified result) = .ok text ∧
        Answered h (.write (.touchPasskey stored.id text now)) ()
  | register cookies _ credential => ∃ handle payload userId key,
      readCookie cookies passkeyRegistrationCookie = some handle ∧
      Unsealed app W.registration passkeyRegistrationCookie handle h payload ∧
      payload.userId = some userId ∧ SignedInAs app cookies h userId ∧
      W.finishRegistration credential payload.state = .ok key
  | _ => False

def Spends (h : AuthHistory) : Prop :=
  ∃ handle signed, req.redeems = some handle ∧ Taken req.purpose handle h signed

/-- What a request answers, when no call fails, without having taken a challenge. -/
def Early (e : Error) : Prop :=
  match req with
  | login _ _ _ _ => requirePasskeys app = .error e ∨ e = .rateLimited ∨
      e = .auth "no passkey challenge in progress" ∨
      e = .auth "passkey challenge expired or already used"
  | register _ name _ => SessionRefusal e ∨ requirePasskeys app = .error e ∨
      (normalizePasskeyName (name.getD "") "Passkey").mapError Error.validation = .error e ∨
      e = .auth "no passkey registration in progress" ∨
      e = .auth "passkey challenge expired or already used"
  | _ => True

/-- What precedes an error: a call has failed with it, or the challenge is taken, unless the request has
got no further than that. -/
def Refuses (h : AuthHistory) (e : Error) : Prop := req.Early app e ∨ Failed h e ∨ req.Spends h

def Verdict (h : AuthHistory) : Interaction.Outcome Error (PasskeyResponse W) → Prop
  | .ok (.signedIn _ _) => req.Completes app h
  | .ok (.registered _) => req.Completes app h
  | .ok .refused => req.Spends h
  | .err e => req.Refuses app h e
  | _ => True

end PasskeyRequest

theorem mapError_eq_ok {ε ε' : Type} {f : ε → ε'} {x : Except ε α} {a : α} :
    x.mapError f = .ok a ↔ x = .ok a := by
  cases x <;> simp [Except.mapError]

theorem requirePasskeys_eq_ok {config : PasskeySettings} :
    requirePasskeys app = .ok config ↔ app.passkey = some config := by
  unfold requirePasskeys
  cases app.passkey <;> simp

theorem lift_obeys {τ : Type} {m : Machine authCalls Error Server}
    {P : Protocol authCalls Error Server τ} {Q : τ → Interaction.Outcome Error β → Prop} {t : τ}
    {x : Except Error α} {f : α → Prog authCalls Error β}
    (hok : ∀ a, x = .ok a → (f a).Obeys m P Q t) (herr : ∀ e, x = .error e → Q t (.err e)) :
    ((lift x).bind f).Obeys m P Q t := by
  cases x with
  | error e => exact herr e rfl
  | ok a => exact hok a rfl

theorem orAbort_obeys {τ : Type} {m : Machine authCalls Error Server}
    {P : Protocol authCalls Error Server τ} {Q : τ → Interaction.Outcome Error β → Prop} {t : τ}
    {x : Option α} {f : α → Prog authCalls Error β} (hok : ∀ a, x = some a → (f a).Obeys m P Q t)
    (hpanic : Q t .panic) : ((Prog.orAbort x).bind f).Obeys m P Q t := by
  cases x with
  | none => exact hpanic
  | some a => exact hok a rfl

section Parts

variable {may : AuthHistory → AuthCall → Prop} {Q : AuthHistory → Interaction.Outcome Error β → Prop}

theorem authenticateUser_record (hquery : ∀ h q, may h (.query q)) {cookies : Option String}
    {f : UserRow → Prog authCalls Error β}
    (hok : ∀ (user : UserRow) h', h ⊆ h' → SignedInAs app cookies h' user.id →
      (f user).Obeys H.machine (.recording may) Q h')
    (herr : ∀ e h', SessionRefusal e ∨ Failed h' e → Q h' (.err e)) :
    ((authenticateUser app cookies).bind f).Obeys H.machine (.recording may) Q h := by
  unfold authenticateUser
  split
  · exact herr _ _ (.inl (by simp [SessionRefusal]))
  · rename_i id hid
    unfold sessionUser
    refine .record_bind (hquery _ _) (fun s found s' h₁ _ hsub₁ hsession => ?_)
      fun e h' he => herr e h' (.inr he)
    cases found with
    | none => exact herr _ _ (.inl (by simp [SessionRefusal]))
    | some session =>
      refine .record_bind (hquery _ _) (fun s found s' h₂ hstep hsub₂ huser => ?_)
        fun e h' he => herr e h' (.inr he)
      cases found with
      | none => exact herr _ _ (.inl (by simp [SessionRefusal]))
      | some user =>
        refine lift_obeys (fun admitted hadmitted => ?_) fun e he => ?_
        · obtain ⟨-, -, rfl⟩ := admission_eq_ok.mp hadmitted
          refine hok _ h₂ (List.Subset.trans hsub₁ hsub₂) ⟨id, session, hid, hsession.mono hsub₂, ?_⟩
          have hfound : s.db.userById session.userId = some user :=
            Except.ok.inj (congrArg Prod.fst hstep)
          exact (Accounts.userById_mem hfound).2.symm
        · refine herr _ _ (.inl ?_)
          unfold admission at he
          split at he
          · cases he
            simp [SessionRefusal]
          · split at he
            · cases he
              simp [SessionRefusal]
            · cases he

theorem takeChallenge_record {codec : Codec (ChallengePayload α)} {handle purpose : String}
    {f : ChallengePayload α → Prog authCalls Error β} (hquery : ∀ h q, may h (.query q))
    (htake : ∀ h now, may h (.write (.takeChallenge handle purpose now)))
    (hok : ∀ payload h', h ⊆ h' → Unsealed app codec purpose handle h' payload →
      (f payload).Obeys H.machine (.recording may) Q h')
    (herr : ∀ e h', (e = .auth "passkey challenge expired or already used" ∨ Failed h' e ∨
      ∃ signed, Taken purpose handle h' signed) → Q h' (.err e)) :
    ((takeChallenge app codec handle purpose).bind f).Obeys H.machine (.recording may) Q h := by
  unfold takeChallenge
  refine .record_bind (hquery _ _) (fun s now s' h₁ _ hsub₁ hnow => ?_)
    fun e h' he => herr e h' (.inr (.inl he))
  refine .record_bind (htake _ _) (fun s found s' h₂ _ hsub₂ htaken => ?_)
    fun e h' he => herr e h' (.inr (.inl he))
  cases found with
  | none => exact herr _ _ (.inl rfl)
  | some signed =>
    refine .record_bind (hquery _ _) (fun s read s' h₃ _ hsub₃ hread => ?_)
      fun e h' he => herr e h' (.inr (.inl he))
    have htaken₃ : Taken purpose handle h₃ signed :=
      ⟨now, hnow.mono (List.Subset.trans hsub₂ hsub₃), htaken.mono hsub₃⟩
    refine lift_obeys (fun payload hdecode => ?_) fun e _ => herr e _ (.inr (.inr ⟨signed, htaken₃⟩))
    exact hok payload h₃ (List.Subset.trans hsub₁ (List.Subset.trans hsub₂ hsub₃))
      ⟨signed, read, htaken₃, hread, hdecode⟩

theorem challengeCookie_record {codec : Codec (ChallengePayload α)} {config : PasskeySettings}
    {name : String} {ceremony : α} {userId : Option Id} {drawn : CeremonyDraw}
    {f : String → Prog authCalls Error β} (hquery : ∀ h q, may h (.query q))
    (hstore : ∀ h' signed expiresAt now ttl, h ⊆ h' →
      encodeChallenge app codec ceremony userId now ttl = .ok signed →
      may h' (.write (.createChallenge drawn.dropped drawn.handle name signed expiresAt)))
    (hok : ∀ handle h', (f handle).Obeys H.machine (.recording may) Q h')
    (herr : ∀ e h', Q h' (.err e)) (hpanic : ∀ h', Q h' .panic) :
    ((challengeCookie app codec config name ceremony userId drawn).bind f).Obeys H.machine
      (.recording may) Q h := by
  unfold challengeCookie
  refine .record_bind (hquery _ _) (fun s now s' h₁ _ hsub₁ _ => ?_) fun e h' _ => herr e h'
  change (((lift _).bind _).bind f).Obeys _ _ _ _
  rw [Prog.bind_assoc]
  refine lift_obeys (fun signed hsigned => ?_) fun e _ => herr e _
  refine .record_bind (hquery _ _) (fun s now' s' h₂ _ hsub₂ _ => ?_) fun e h' _ => herr e h'
  change (((Prog.orAbort _).bind _).bind f).Obeys _ _ _ _
  rw [Prog.bind_assoc]
  refine orAbort_obeys (fun ttl _ => ?_) (hpanic _)
  change (((Prog.orAbort _).bind _).bind f).Obeys _ _ _ _
  rw [Prog.bind_assoc]
  refine orAbort_obeys (fun expiresAt _ => ?_) (hpanic _)
  refine .record_bind (hstore h₂ signed expiresAt _ _ (List.Subset.trans hsub₁ hsub₂) hsigned)
    (fun s _ s' h₃ _ _ _ => hok _ h₃) fun e h' _ => herr e h'

end Parts

namespace PasskeyRequest

abbrev Follows (app : AppState) (H : Host) (req : PasskeyRequest W)
    (p : Prog authCalls Error (PasskeyResponse W)) (h : AuthHistory) : Prop :=
  p.Obeys H.machine (.recording fun h c => req.May app h c) (req.Verdict app) h

section Retained

variable {req : PasskeyRequest W}

theorem Spends.mono (hs : req.Spends h) (hsub : h ⊆ h') : req.Spends h' := by
  obtain ⟨handle, signed, hhandle, htaken⟩ := hs
  exact ⟨handle, signed, hhandle, htaken.mono hsub⟩

theorem Completes.spends (hc : req.Completes app h) : req.Spends h := by
  cases req with
  | login ip cookies credential sessionId =>
    obtain ⟨handle, payload, _, _, _, hhandle, ⟨signed, _, htaken, -, -⟩, -, -⟩ := hc
    exact ⟨handle, signed, hhandle, htaken⟩
  | register cookies name credential =>
    obtain ⟨handle, payload, _, _, hhandle, ⟨signed, _, htaken, -, -⟩, -, -, -⟩ := hc
    exact ⟨handle, signed, hhandle, htaken⟩
  | _ => exact hc.elim

theorem Spends.refuses (hs : req.Spends h) (e : Error) : req.Refuses app h e := .inr (.inr hs)

theorem Refuses.failed {e : Error} (he : Failed h e) : req.Refuses app h e := .inr (.inl he)

theorem Completes.mono (hc : req.Completes app h) (hsub : h ⊆ h') : req.Completes app h' := by
  cases req with
  | login ip cookies credential sessionId =>
    obtain ⟨handle, payload, stored, verified, result, hhandle, hopened, hasserted, text, now, htext,
      htouch⟩ := hc
    exact ⟨handle, payload, stored, verified, result, hhandle, hopened.mono hsub,
      hasserted.mono hsub, text, now, htext, htouch.mono hsub⟩
  | register cookies name credential =>
    obtain ⟨handle, payload, userId, key, hhandle, hopened, huser, hsigned, hkey⟩ := hc
    exact ⟨handle, payload, userId, key, hhandle, hopened.mono hsub, huser, hsigned.mono hsub, hkey⟩
  | _ => exact hc.elim

theorem Completes.verdict (hc : req.Completes app h)
    (o : Interaction.Outcome Error (PasskeyResponse W)) : req.Verdict app h o := by
  cases o with
  | ok r =>
    cases r with
    | signedIn => exact hc
    | registered => exact hc
    | refused => exact hc.spends
    | _ => trivial
  | err e => exact .inr (.inr hc.spends)
  | panic => trivial

end Retained

section Login

variable {ip : String} {cookies : Option String} {credential : W.Assertion} {sessionId : String}

theorem spends_of_unsealed {handle : String} {payload : ChallengePayload W.Authentication}
    (hhandle : readCookie cookies passkeyAuthenticationCookie = some handle)
    (hopened : Unsealed app W.authentication passkeyAuthenticationCookie handle h payload) :
    (login ip cookies credential sessionId).Spends h := by
  obtain ⟨signed, _, htaken, -, -⟩ := hopened
  exact ⟨handle, signed, hhandle, htaken⟩

/-- What is left of a login after its credential has been written back. -/
theorem finishPasskey_calls (key : String) (user : UserRow) (sessionId : String) :
    ((guard (.success key)).bind fun _ => (startSession sessionId user.id).bind fun _ =>
      (Prog.ret (.signedIn (.of (app.adminUsers.apply user)) sessionId) :
        Prog authCalls Error (PasskeyResponse W))).Calls
      (Writes fun w => ∃ id userId expiresAt, w = .createSession id userId expiresAt) := by
  refine Prog.Calls.bind (guard_calls _) fun _ => ?_
  exact (startSession_calls (fun _ _ _ => ⟨_, _, _, rfl⟩) _ _).bind fun _ => trivial

theorem completeLogin_follows {handle : String} {payload : ChallengePayload W.Authentication}
    {stored : PasskeyRow} {verified : W.Credential} {result : W.AuthenticationResult}
    (hhandle : readCookie cookies passkeyAuthenticationCookie = some handle)
    (hopened : Unsealed app W.authentication passkeyAuthenticationCookie handle h payload)
    (hasserted : Asserted app W credential payload.state h stored verified result) (key : String)
    (user : UserRow) :
    (login ip cookies credential sessionId).Follows app H
      (completeLogin app W key stored verified result user sessionId) h := by
  have hspends : (login ip cookies credential sessionId).Spends h := spends_of_unsealed hhandle hopened
  unfold completeLogin
  split
  · exact hspends.refuses _
  · refine lift_obeys (fun text htext => ?_) fun e _ => hspends.refuses e
    refine .record trivial (fun s now s' h₁ _ hsub₁ _ => ?_) fun e h' he => Refuses.failed he
    have hasserted₁ := hasserted.mono hsub₁
    refine .record ⟨payload.state, stored, verified, result, hasserted₁, rfl, htext⟩
      (fun s _ s' h₂ _ hsub₂ htouch => ?_) fun e h' he => Refuses.failed he
    have hcompletes : (login ip cookies credential sessionId).Completes app h₂ :=
      ⟨handle, payload, stored, verified, result, hhandle,
        hopened.mono (List.Subset.trans hsub₁ hsub₂), hasserted₁.mono hsub₂, text, now, htext, htouch⟩
    refine Prog.Obeys.mono (Prog.Obeys.retains
      (T := (login ip cookies credential sessionId).Completes app) (finishPasskey_calls key user sessionId)
      (fun h c _ hc => ?_) (fun _ _ hsub hT => hT.mono hsub) hcompletes) fun h o hT => hT.verdict o
    cases c with
    | write w =>
      obtain ⟨id, userId, expiresAt, rfl⟩ := hc
      trivial
    | _ => trivial

theorem verifyAssertion_follows {handle : String} {payload : ChallengePayload W.Authentication}
    (hhandle : readCookie cookies passkeyAuthenticationCookie = some handle)
    (hopened : Unsealed app W.authentication passkeyAuthenticationCookie handle h payload)
    (key : String) :
    (login ip cookies credential sessionId).Follows app H
      (verifyAssertion app W key credential payload.state sessionId) h := by
  have hspends : (login ip cookies credential sessionId).Spends h := spends_of_unsealed hhandle hopened
  unfold verifyAssertion
  refine lift_obeys (fun found hidentify => ?_) fun e _ => hspends.refuses e
  obtain ⟨userId, credentialId⟩ := found
  refine .record trivial (fun s found s' h₁ _ hsub₁ hfound => ?_) fun e h' he => Refuses.failed he
  have hspends₁ := hspends.mono hsub₁
  split
  · exact .record trivial (fun _ _ _ _ _ hsub _ => (hspends₁.mono hsub).refuses _)
      fun e h' he => Refuses.failed he
  · rename_i stored hstored
    obtain ⟨rfl, huser⟩ := Option.filter_eq_some_iff.mp hstored
    refine lift_obeys (fun verified hparsed => ?_) fun e _ => hspends₁.refuses e
    have hopened₁ := hopened.mono hsub₁
    split
    · exact .record trivial (fun _ _ _ _ _ hsub₂ _ => hspends₁.mono hsub₂)
        fun e h' he => Refuses.failed he
    · rename_i result hfinished
      refine .record trivial (fun _ user _ h₂ _ hsub₂ _ => ?_) fun e h' he => Refuses.failed he
      cases user with
      | none => exact (hspends₁.mono hsub₂).refuses _
      | some user =>
        refine completeLogin_follows hhandle (hopened₁.mono hsub₂) ⟨?_, hparsed, hfinished⟩ key user
        exact ⟨userId, credentialId, mapError_eq_ok.mp hidentify, hfound.mono hsub₂, of_decide_eq_true huser⟩

theorem loginVerify_follows :
    (login ip cookies credential sessionId).Follows app H
      (loginVerify app W ip cookies credential sessionId) h := by
  unfold loginVerify
  refine lift_obeys (fun config _ => ?_) fun e he => .inl (.inl he)
  refine .record trivial (fun _ decision _ h₁ _ _ _ => ?_) fun e h' he => Refuses.failed he
  split
  · exact Or.inl (.inr (.inl rfl))
  · split
    · exact Or.inl (.inr (.inr (.inl rfl)))
    · rename_i handle hhandle
      refine takeChallenge_record (fun _ _ => trivial) (fun _ _ => trivial) (fun payload h₂ _ hopened => ?_)
        fun e h' he => ?_
      · exact verifyAssertion_follows hhandle hopened _
      · rcases he with he | he | ⟨signed, htaken⟩
        · exact .inl (.inr (.inr (.inr he)))
        · exact .inr (.inl he)
        · exact .inr (.inr ⟨handle, signed, hhandle, htaken⟩)

end Login

section Register

variable {cookies name : Option String} {credential : W.Attestation}

theorem storeCredential_follows {config : PasskeySettings} {userId : Id} (hconfig : app.passkey = some config)
    (hsigned : SignedInAs app cookies h userId)
    (hcompletes : (register cookies name credential).Completes app h) (text : String)
    (key : W.Credential) :
    (register cookies name credential).Follows app H
      (storeCredential app W config.maxPerUser userId text key) h := by
  unfold storeCredential
  refine .record trivial (fun _ owned _ h₁ _ hsub₁ howned => ?_) fun e h' he => Refuses.failed he
  have hcompletes₁ := hcompletes.mono hsub₁
  split
  · exact hcompletes₁.verdict _
  · rename_i hquota
    refine lift_obeys (fun serialized _ => ?_) fun e _ => hcompletes₁.verdict _
    exact .record ⟨hsigned.mono hsub₁, config, owned, hconfig, howned, Nat.lt_of_not_le hquota⟩
      (fun _ stored _ h₂ _ hsub₂ _ => (hcompletes₁.mono hsub₂).verdict _)
      fun e h' he => Refuses.failed he

theorem registerVerify_follows :
    (register cookies name credential).Follows app H (registerVerify app W cookies name credential)
      h := by
  unfold registerVerify
  refine authenticateUser_record (fun _ _ => trivial) (fun user h₁ _ hsigned => ?_) fun e h' he => ?_
  · refine lift_obeys (fun config hconfig => ?_) fun e he => .inl (.inr (.inl he))
    refine lift_obeys (fun text _ => ?_) fun e he => .inl (.inr (.inr (.inl he)))
    split
    · exact Or.inl (.inr (.inr (.inr (.inl rfl))))
    · rename_i handle hhandle
      refine takeChallenge_record (fun _ _ => trivial) (fun _ _ => trivial)
        (fun payload h₂ hsub₂ hopened => ?_) fun e h' he => ?_
      · have hspends : (register cookies name credential).Spends h₂ := by
          obtain ⟨signed, _, htaken, -, -⟩ := hopened
          exact ⟨handle, signed, hhandle, htaken⟩
        change (ite _ _ _ : Prog authCalls Error (PasskeyResponse W)).Obeys _ _ _ _
        split
        · exact hspends.refuses _
        · rename_i huser
          refine lift_obeys (fun key hkey => ?_) fun e _ => hspends.refuses e
          have hsigned₂ := hsigned.mono hsub₂
          exact storeCredential_follows (requirePasskeys_eq_ok.mp hconfig) hsigned₂
            ⟨handle, payload, user.id, key, hhandle, hopened, not_not.mp huser, hsigned₂,
              mapError_eq_ok.mp hkey⟩ text key
      · rcases he with he | he | ⟨signed, htaken⟩
        · exact .inl (.inr (.inr (.inr (.inr he))))
        · exact .inr (.inl he)
        · exact .inr (.inr ⟨handle, signed, hhandle, htaken⟩)
  · rcases he with he | he
    · exact .inl (.inl he)
    · exact .inr (.inl he)

end Register

section Options

variable {drawn : CeremonyDraw} {cookies : Option String}

theorem loginOptions_follows {ip : String} {limited : Option ℕ} :
    (loginOptions ip limited drawn : PasskeyRequest W).Follows app H
      (Auth.loginOptions app W ip limited drawn) h := by
  unfold Auth.loginOptions
  refine lift_obeys (fun config _ => ?_) fun e _ => .inl trivial
  cases limited with
  | some seconds => trivial
  | none =>
    refine .record trivial (fun _ decision _ h₁ _ _ _ => ?_) fun e h' _ => .inl trivial
    split
    · exact Or.inl trivial
    · refine lift_obeys (fun started hstarted => ?_) fun e _ => .inl trivial
      obtain ⟨challenge, ceremony⟩ := started
      refine challengeCookie_record (fun _ _ => trivial) (fun h' signed expiresAt now ttl _ hsigned => ?_)
        (fun _ _ => trivial) (fun _ _ => .inl trivial) (fun _ => trivial)
      exact ⟨rfl, rfl, challenge, ceremony, now, ttl, mapError_eq_ok.mp hstarted, hsigned⟩

theorem registerOptions_follows :
    (registerOptions cookies drawn : PasskeyRequest W).Follows app H
      (Auth.registerOptions app W cookies drawn) h := by
  unfold Auth.registerOptions
  refine authenticateUser_record (fun _ _ => trivial) (fun user h₁ _ hsigned => ?_) fun e h' _ => .inl trivial
  refine lift_obeys (fun config _ => ?_) fun e _ => .inl trivial
  refine .record trivial (fun _ registered _ h₂ _ hsub₂ _ => ?_) fun e h' _ => .inl trivial
  split
  · exact Or.inl trivial
  · refine .record trivial (fun _ existing _ h₃ _ hsub₃ _ => ?_) fun e h' _ => .inl trivial
    split
    · exact Or.inl trivial
    · rename_i exclude _
      refine lift_obeys (fun started hstarted => ?_) fun e _ => .inl trivial
      obtain ⟨challenge, ceremony⟩ := started
      refine challengeCookie_record (fun _ _ => trivial) (fun h' signed expiresAt now ttl hsub hsigned' => ?_)
        (fun _ _ => trivial) (fun _ _ => .inl trivial) (fun _ => trivial)
      exact ⟨rfl, rfl, user.id, user.email, user.displayName, exclude, challenge, ceremony, now, ttl,
        hsigned.mono (List.Subset.trans hsub₂ (List.Subset.trans hsub₃ hsub)),
        mapError_eq_ok.mp hstarted, hsigned'⟩

theorem deletePasskey_follows {id : Id} :
    (delete cookies id : PasskeyRequest W).Follows app H (Auth.deletePasskey app W cookies id) h := by
  unfold Auth.deletePasskey
  refine authenticateUser_record (fun _ _ => trivial) (fun user h₁ _ _ => ?_) fun e h' _ => .inl trivial
  refine lift_obeys (fun config _ => ?_) fun e _ => .inl trivial
  exact .record trivial (fun _ _ _ _ _ _ _ => trivial) fun e h' _ => .inl trivial

end Options

/-- Every request makes its writes after what they presuppose, and ends as it says. -/
theorem prog_follows (app : AppState) (H : Host) (req : PasskeyRequest W) :
    req.Follows app H (req.prog app W) [] := by
  cases req with
  | loginOptions ip limited drawn => exact loginOptions_follows
  | login ip cookies credential sessionId => exact loginVerify_follows
  | registerOptions cookies drawn => exact registerOptions_follows
  | register cookies name credential => exact registerVerify_follows
  | delete cookies id => exact deletePasskey_follows

end PasskeyRequest

end Soika.Auth
