import Soika.Auth.SignatureCounters

/-! # Conversion and requests in flight

The conversion of an account deletes its sessions and passkeys. A passkey request that begins later
finds none of them; one that has read them before may still write afterwards. The configuration keeps
the two apart: SSO and passkeys cannot be enabled together.
-/

namespace Soika.Auth

open Table Interaction

/-- What `Config::from_env` asks of the two ways to sign in. -/
def checkSignIn (oidc : Option OidcSettings) (passkey : Option PasskeySettings) :
    Except Error Unit :=
  if oidc.isSome && passkey.isSome then
    .error (.validation ("passkeys cannot be enabled together with SSO; " ++
      "set PASSKEY_ENABLED=false or OAUTH_ENABLED=false"))
  else .ok ()

/-- The account has no passkey, and no session but fresh ones. -/
structure Revoked (fresh : String → Prop) (id : Id) (d : Accounts) : Prop where
  passkeys : ∀ key ∈ d.passkeys, key.userId ≠ id
  sessions : ∀ session ∈ d.sessions, session.userId = id → fresh session.id

/-- The call gives the account no passkey, and no session but a fresh one. -/
def AuthCall.Spares (fresh : String → Prop) (id : Id) : AuthCall → Prop
  | .write (.createSession sessionId userId _) => userId = id → fresh sessionId
  | .write (.createPasskey new) => new.userId ≠ id
  | _ => True

section Rows

variable {H : Host} {fresh : String → Prop} {id : Id} {s : Server} {d d' : Accounts} {u : Unit}

theorem Revoked.converted (h : d.convertToSso id = .ok (u, d')) : Revoked fresh id d' := by
  obtain ⟨_, -, -, rfl⟩ := Accounts.convertToSso_eq_ok.mp h
  constructor
  · exact fun key hk => (mem_remove.mp hk).2
  · exact fun session hs hid => absurd hid (mem_remove.mp hs).2

theorem Revoked.conversion (h : (s.db.convertToSso id).isOk = true) :
    Revoked fresh id (H.machine.step (.write (.convertToSso id)) s).2.db := by
  cases hd : s.db.convertToSso id with
  | error e =>
    rw [hd] at h
    cases h
  | ok converted =>
    have hrun : H.runWrite (.convertToSso id) s = (.ok converted.1, { s with db := converted.2 }) :=
      Host.runWrite_eq_ok.mpr ⟨converted.2, hd, rfl⟩
    rw [Host.machine_write, hrun]
    exact .converted hd

theorem Revoked.answer (h : Revoked fresh id s.db) {c : AuthCall} (hc : c.Spares fresh id)
    (fault : Option Error) : Revoked fresh id (H.machine.answer c fault s).2.db where
  passkeys := by
    intro key hk
    rcases Host.passkeys_cases (H := H) c fault s with ⟨new, keyId, -, rfl, hrows⟩ |
      ⟨keyId, text, usedAt, -, -, hdb⟩ | hsub
    · rw [hrows] at hk
      rcases List.mem_append.mp hk with hk | hk
      · exact h.passkeys key hk
      · obtain rfl := List.mem_singleton.mp hk
        exact hc
    · rw [hdb] at hk
      obtain ⟨before, hbefore, -, -, huser, -⟩ := mem_touchPasskey hk
      rw [huser]
      exact h.passkeys before hbefore
    · exact h.passkeys key (hsub.subset hk)
  sessions := by
    intro session hs
    rcases Host.sessions_cases (H := H) c fault s with ⟨sid, userId, expiresAt, rfl, hrows⟩ | hsub
    · rw [hrows] at hs
      rcases List.mem_append.mp hs with hs | hs
      · exact h.sessions session hs
      · obtain rfl := List.mem_singleton.mp hs
        exact hc
    · exact h.sessions session (hsub.subset hs)

end Rows

def PasskeyRequest.presents (app : AppState) {W : Webauthn} : PasskeyRequest W → Option String
  | .loginOptions .. | .login .. => none
  | .registerOptions cookies _ | .register cookies _ _ | .delete cookies _ => sessionIdFrom app cookies

/-- One of the requests presents the session. -/
def Presented (app : AppState) {W : Webauthn} (requests : List (PasskeyRequest W))
    (sessionId : String) : Prop :=
  ∃ req ∈ requests, req.presents app = some sessionId

/-- No passkey of the account has been read, and no session of it that is presented. -/
structure Unread (presented : String → Prop) (id : Id) (h : AuthHistory) : Prop where
  passkeys : ∀ credentialId stored,
    Answered h (.query (.findPasskey credentialId)) (some stored) → stored.userId ≠ id
  sessions : ∀ sessionId session, presented sessionId →
    Answered h (.query (.findSession sessionId)) (some session) → session.userId ≠ id

/-- A session is created for the user of a passkey that was found, and a passkey for the user of a
session that was. -/
def Warranted (presented : String → Prop) (h : AuthHistory) : AuthCall → Prop
  | .write (.createSession _ userId _) => ∃ credentialId stored user,
      Answered h (.query (.findPasskey credentialId)) (some stored) ∧
        Answered h (.query (.findUserById stored.userId)) (some user) ∧ user.id = userId
  | .write (.createPasskey new) => ∃ sessionId session, presented sessionId ∧
      Answered h (.query (.findSession sessionId)) (some session) ∧ session.userId = new.userId
  | _ => True

section Requests

variable {H : Host} {app : AppState} {W : Webauthn} {presented : String → Prop} {h : AuthHistory}
  {α : Type}

/-- The program makes such calls only. -/
abbrev KeepsTo (H : Host) (may : AuthHistory → AuthCall → Prop) (p : Prog authCalls Error α)
    (h : AuthHistory) : Prop :=
  p.Obeys H.machine (.recording may) (fun _ _ => True) h

theorem completeLogin_warranted {credentialId : String} {stored : PasskeyRow} {user : UserRow}
    (hfound : Answered h (.query (.findPasskey credentialId)) (some stored))
    (huser : Answered h (.query (.findUserById stored.userId)) (some user)) (key : String)
    (verified : W.Credential) (result : W.AuthenticationResult) (sessionId : String) :
    KeepsTo H (Warranted presented) (completeLogin app W key stored verified result user sessionId) h := by
  unfold completeLogin
  split
  · trivial
  · refine lift_obeys (fun text _ => ?_) fun _ _ => trivial
    refine .record trivial (fun _ now _ h₁ _ hsub₁ _ => ?_) fun _ _ _ => trivial
    refine .record trivial (fun _ _ _ h₂ _ hsub₂ _ => ?_) fun _ _ _ => trivial
    refine .record trivial (fun _ _ _ h₃ _ hsub₃ _ => ?_) fun _ _ _ => trivial
    unfold startSession
    refine .record_bind trivial (fun _ (now : Timestamp) _ h₄ _ hsub₄ _ => ?_) fun _ _ _ => trivial
    have hsub := List.Subset.trans hsub₁ (List.Subset.trans hsub₂ (List.Subset.trans hsub₃ hsub₄))
    cases now.add sessionTtl with
    | none => trivial
    | some expiresAt =>
      exact .record ⟨credentialId, stored, user, hfound.mono hsub, huser.mono hsub, rfl⟩
        (fun _ _ _ _ _ _ _ => trivial) fun _ _ _ => trivial

theorem verifyAssertion_warranted (key : String) (credential : W.Assertion)
    (state : W.Authentication) (sessionId : String) :
    KeepsTo H (Warranted presented) (verifyAssertion app W key credential state sessionId) h := by
  unfold verifyAssertion
  refine lift_obeys (fun named _ => ?_) fun _ _ => trivial
  obtain ⟨userId, credentialId⟩ := named
  refine .record trivial (fun _ found _ h₁ _ _ hfound => ?_) fun _ _ _ => trivial
  split
  · exact .record trivial (fun _ _ _ _ _ _ _ => trivial) fun _ _ _ => trivial
  · rename_i stored hstored
    obtain ⟨rfl, hown⟩ := Option.filter_eq_some_iff.mp hstored
    obtain rfl : stored.userId = userId := of_decide_eq_true hown
    refine lift_obeys (fun verified _ => ?_) fun _ _ => trivial
    split
    · exact .record trivial (fun _ _ _ _ _ _ _ => trivial) fun _ _ _ => trivial
    · rename_i result _
      refine .record trivial (fun _ user _ h₂ _ hsub₂ huser => ?_) fun _ _ _ => trivial
      cases user with
      | none => trivial
      | some user => exact completeLogin_warranted (hfound.mono hsub₂) huser key verified result sessionId

theorem loginVerify_warranted (ip : String) (cookies : Option String) (credential : W.Assertion)
    (sessionId : String) :
    KeepsTo H (Warranted presented) (loginVerify app W ip cookies credential sessionId) h := by
  unfold loginVerify
  refine lift_obeys (fun config _ => ?_) fun _ _ => trivial
  refine .record trivial (fun _ decision _ h₁ _ _ _ => ?_) fun _ _ _ => trivial
  split
  · trivial
  · split
    · trivial
    · exact takeChallenge_record (fun _ _ => trivial) (fun _ _ => trivial)
        (fun payload h₂ _ _ => verifyAssertion_warranted _ credential payload.state sessionId)
        fun _ _ _ => trivial

theorem storeCredential_warranted {cookies : Option String}
    (hpresented : ∀ sessionId, sessionIdFrom app cookies = some sessionId → presented sessionId)
    {userId : Id} (maxPerUser : ℕ)
    (hsigned : SignedInAs app cookies h userId) (name : String) (credential : W.Credential) :
    KeepsTo H (Warranted presented) (storeCredential app W maxPerUser userId name credential) h := by
  unfold storeCredential
  refine .record trivial (fun _ owned _ h₁ _ hsub₁ _ => ?_) fun _ _ _ => trivial
  split
  · trivial
  · refine lift_obeys (fun serialized _ => ?_) fun _ _ => trivial
    obtain ⟨sessionId, session, hid, hsession, huser⟩ := hsigned
    exact .record ⟨sessionId, session, hpresented _ hid, hsession.mono hsub₁, huser⟩
      (fun _ _ _ _ _ _ _ => trivial) fun _ _ _ => trivial

theorem registerVerify_warranted {cookies : Option String}
    (hpresented : ∀ sessionId, sessionIdFrom app cookies = some sessionId → presented sessionId)
    (name : Option String) (credential : W.Attestation) :
    KeepsTo H (Warranted presented) (registerVerify app W cookies name credential) h := by
  unfold registerVerify
  refine authenticateUser_record (fun _ _ => trivial) (fun user h₁ _ hsigned => ?_)
    fun _ _ _ => trivial
  refine lift_obeys (fun config _ => ?_) fun _ _ => trivial
  refine lift_obeys (fun name _ => ?_) fun _ _ => trivial
  split
  · trivial
  · refine takeChallenge_record (fun _ _ => trivial) (fun _ _ => trivial)
      (fun payload h₂ hsub₂ _ => ?_) fun _ _ _ => trivial
    split
    · trivial
    · refine lift_obeys (fun key _ => ?_) fun _ _ => trivial
      exact storeCredential_warranted hpresented _ (hsigned.mono hsub₂) name key

theorem loginOptions_warranted (ip : String) (limited : Option ℕ) (drawn : CeremonyDraw) :
    KeepsTo H (Warranted presented) (loginOptions app W ip limited drawn) h := by
  unfold loginOptions
  refine lift_obeys (fun config _ => ?_) fun _ _ => trivial
  split
  · trivial
  · refine .record trivial (fun _ decision _ h₁ _ _ _ => ?_) fun _ _ _ => trivial
    split
    · trivial
    · refine lift_obeys (fun started _ => ?_) fun _ _ => trivial
      exact challengeCookie_record (fun _ _ => trivial) (fun _ _ _ _ _ _ _ => trivial)
        (fun _ _ => trivial) (fun _ _ => trivial) fun _ => trivial

theorem registerOptions_warranted (cookies : Option String) (drawn : CeremonyDraw) :
    KeepsTo H (Warranted presented) (registerOptions app W cookies drawn) h := by
  unfold registerOptions
  refine authenticateUser_record (fun _ _ => trivial) (fun user h₁ _ _ => ?_) fun _ _ _ => trivial
  refine lift_obeys (fun config _ => ?_) fun _ _ => trivial
  refine .record trivial (fun _ _ _ h₂ _ _ _ => ?_) fun _ _ _ => trivial
  split
  · trivial
  · refine .record trivial (fun _ _ _ h₃ _ _ _ => ?_) fun _ _ _ => trivial
    split
    · trivial
    · refine lift_obeys (fun started _ => ?_) fun _ _ => trivial
      exact challengeCookie_record (fun _ _ => trivial) (fun _ _ _ _ _ _ _ => trivial)
        (fun _ _ => trivial) (fun _ _ => trivial) fun _ => trivial

theorem deletePasskey_warranted (cookies : Option String) (id : Id) :
    KeepsTo H (Warranted presented) (deletePasskey app W cookies id) h := by
  unfold deletePasskey
  refine authenticateUser_record (fun _ _ => trivial) (fun user h₁ _ _ => ?_) fun _ _ _ => trivial
  refine lift_obeys (fun config _ => ?_) fun _ _ => trivial
  exact .record trivial (fun _ _ _ _ _ _ _ => trivial) fun _ _ _ => trivial

theorem prog_warranted {req : PasskeyRequest W}
    (hpresented : ∀ sessionId, req.presents app = some sessionId → presented sessionId) :
    KeepsTo H (Warranted presented) (req.prog app W) h := by
  cases req with
  | loginOptions ip limited drawn => exact loginOptions_warranted ip limited drawn
  | login ip cookies credential sessionId => exact loginVerify_warranted ip cookies credential sessionId
  | registerOptions cookies drawn => exact registerOptions_warranted cookies drawn
  | register cookies name credential => exact registerVerify_warranted hpresented name credential
  | delete cookies id => exact deletePasskey_warranted cookies id

theorem prog_disabled (hdisabled : app.passkey = none) (req : PasskeyRequest W) :
    (req.prog app W).Calls (Writes fun _ => False) := by
  have hrequire : requirePasskeys app = .error (.notFound "passkeys are not enabled") := by
    rw [requirePasskeys, hdisabled]
  have hstop : ∀ f : PasskeySettings → Prog authCalls Error (PasskeyResponse W),
      ((lift (requirePasskeys app)).bind f).Calls (Writes fun _ => False) := by
    intro f
    rw [hrequire]
    trivial
  cases req with
  | loginOptions ip limited drawn => exact hstop _
  | login ip cookies credential sessionId => exact hstop _
  | registerOptions cookies drawn => exact (authenticateUser_calls _).bind fun _ => hstop _
  | register cookies name credential => exact (authenticateUser_calls _).bind fun _ => hstop _
  | delete cookies id => exact (authenticateUser_calls _).bind fun _ => hstop _

end Requests

section Runs

variable {H : Host} {app : AppState} {W : Webauthn} {presented fresh : String → Prop} {id : Id}

theorem Query.eval_of_sound {q : Query} {before after : Server} {r : q.Reply}
    (h : Transition.Sound H.machine (⟨before, .query q, .ok r, after⟩ : Transition authCalls Error Server)) :
    q.eval H.argon2 H.backend before = .ok r := by
  obtain ⟨fault, hanswer⟩ := h
  cases fault with
  | some e => cases hanswer
  | none => exact congrArg Prod.fst hanswer

/-- Who has read no credential of the account gives it none. -/
theorem Unread.spares {h : AuthHistory} (hunread : Unread presented id h)
    (hsound : ∀ e ∈ h, e.Sound H.machine) {c : AuthCall} (hc : Warranted presented h c) :
    c.Spares fresh id := by
  cases c with
  | write w =>
    cases w with
    | createSession sessionId userId expiresAt =>
      obtain ⟨credentialId, stored, user, hfound, ⟨before, after, huser⟩, rfl⟩ := hc
      have hread : before.db.userById stored.userId = some user :=
        Except.ok.inj (Query.eval_of_sound (hsound _ huser))
      intro hid
      apply absurd _ (hunread.passkeys credentialId stored hfound)
      rw [← (Accounts.userById_mem hread).2, hid]
    | createPasskey new =>
      obtain ⟨sessionId, session, hpresented, hfound, huser⟩ := hc
      change new.userId ≠ id
      rw [← huser]
      exact hunread.sessions sessionId session hpresented hfound
    | _ => trivial
  | _ => trivial

theorem Unread.snoc {h : AuthHistory} (hunread : Unread presented id h) {s : Server}
    (hs : Revoked fresh id s.db) (hfresh : ∀ sessionId, fresh sessionId → ¬ presented sessionId)
    (c : AuthCall) (fault : Option Error) :
    Unread presented id (h ++ [H.machine.transition c fault s]) := by
  have hlast : ∀ {q : Query} {before after : Server} {r : q.Reply},
      (⟨before, .query q, .ok r, after⟩ : Transition authCalls Error Server) ∈
        h ++ [H.machine.transition c fault s] →
      ⟨before, .query q, .ok r, after⟩ ∈ h ∨ q.eval H.argon2 H.backend s = .ok r := by
    intro q before after r hmem
    rcases List.mem_append.mp hmem with hmem | hmem
    · exact .inl hmem
    · have hlast := List.mem_singleton.mp hmem
      have hsound : Transition.Sound H.machine
          (⟨before, .query q, .ok r, after⟩ : Transition authCalls Error Server) := by
        rw [hlast]
        exact ⟨fault, rfl⟩
      obtain rfl : before = s := congrArg Transition.before hlast
      exact .inr (Query.eval_of_sound hsound)
  constructor
  · rintro credentialId stored ⟨before, after, hmem⟩
    rcases hlast hmem with hmem | hread
    · exact hunread.passkeys credentialId stored ⟨before, after, hmem⟩
    · have hstored : s.db.passkeyByCredentialId credentialId = some stored := Except.ok.inj hread
      exact hs.passkeys stored (lookup_eq_some_mem hstored).1
  · rintro sessionId session hpresented ⟨before, after, hmem⟩ hid
    rcases hlast hmem with hmem | hread
    · exact hunread.sessions sessionId session hpresented ⟨before, after, hmem⟩ hid
    · have hsession : s.db.findSession H.backend sessionId s.clock = some session :=
        Except.ok.inj hread
      obtain ⟨hrow, rfl⟩ := lookup_eq_some_mem (Option.filter_eq_some_iff.mp hsession).1
      exact hfresh session.id (hs.sessions session hrow hid) hpresented

/-- A thread that has ended, or has read no credential of the account that it could use. -/
def Harmless (H : Host) (presented : String → Prop) (id : Id) (th : PasskeyThread W) : Prop :=
  th.rest.ended = true ∨ KeepsTo H (Warranted presented) th.rest th.history ∧
    (∀ e ∈ th.history, e.Sound H.machine) ∧ Unread presented id th.history

/-- Where no request in flight has read a credential of the account, it gets none from them. -/
theorem Revoked.run {p : PasskeyPool W} (hp : Revoked fresh id p.state.db)
    (hthreads : ∀ th ∈ p.threads, Harmless H presented id th)
    (hfresh : ∀ sessionId, fresh sessionId → ¬ presented sessionId)
    {turns : List (Turn authCalls Error)} (hturns : ∀ c, Turn.other c ∈ turns → c.Spares fresh id) :
    Revoked fresh id (p.run H.machine turns).state.db := by
  apply (Pool.keeps_threads (I := fun s => Revoked fresh id s.db) ?_ ?_ hturns hp hthreads).1
  · rintro s h c next fault hs (hended | ⟨hkeeps, hsound, hunread⟩)
    · cases hended
    · refine ⟨hs.answer (hunread.spares hsound hkeeps.1) fault,
        .inr ⟨hkeeps.2 fault s, fun e he => ?_, hunread.snoc hs hfresh c fault⟩⟩
      rcases List.mem_append.mp he with he | he
      · exact hsound e he
      · obtain rfl := List.mem_singleton.mp he
        exact ⟨fault, rfl⟩
  · exact fun s c hc h => h.answer hc none

theorem Revoked.run_silent {p : PasskeyPool W} (hp : Revoked fresh id p.state.db)
    (hthreads : ∀ th ∈ p.threads, th.rest.Calls (Writes fun _ => False))
    {turns : List (Turn authCalls Error)} (hturns : ∀ c, Turn.other c ∈ turns → c.Spares fresh id) :
    Revoked fresh id (p.run H.machine turns).state.db := by
  apply (Pool.keeps_threads (I := fun s => Revoked fresh id s.db) ?_ ?_ hturns hp hthreads).1
  · rintro s h c next fault hs ⟨hc, hcalls⟩
    refine ⟨hs.answer ?_ fault, hcalls _⟩
    cases c with
    | write w => cases hc
    | _ => trivial
  · exact fun s c hc h => h.answer hc none

theorem silent_run {may : AuthCall → Prop} {p : PasskeyPool W} {turns : List (Turn authCalls Error)}
    (h : ∀ th ∈ p.threads, th.rest.Calls may) :
    ∀ th ∈ (p.run H.machine turns).threads, th.rest.Calls may :=
  (Pool.keeps_threads (I := fun _ => True) (m := H.machine)
    (fun _ _ _ _ _ _ hcalls => ⟨trivial, hcalls.2 _⟩) (fun _ _ (_ : True) _ => trivial)
    (fun _ _ => trivial) trivial h).2

theorem harmless_of_unread {requests : List (PasskeyRequest W)} {s : Server}
    {turns : List (Turn authCalls Error)} {th : PasskeyThread W}
    (hth : th ∈ (passkeyRun app H requests s turns).threads)
    (h : th.rest.ended = true ∨ Unread (Presented app requests) id th.history) :
    Harmless H (Presented app requests) id th := by
  rcases h with hended | hunread
  · exact .inl hended
  · obtain ⟨i, hi⟩ := List.mem_iff_getElem?.mp hth
    obtain ⟨req, hreq, hsound⟩ := passkeyRun_at hi
    have hkeeps := hsound.obeys (@prog_warranted H app W (Presented app requests) [] req
      fun sessionId h => ⟨req, List.mem_of_getElem? hreq, h⟩)
    rw [Protocol.after_recording, List.nil_append] at hkeeps
    exact .inr ⟨hkeeps, fun e he => (hsound.calls e he).2, hunread⟩

/-- The sessions that others than the requests give the account. -/
def Granted (turns : List (Turn authCalls Error)) (id : Id) (sessionId : String) : Prop :=
  ∃ expiresAt, Turn.other (AuthCall.write (.createSession sessionId id expiresAt)) ∈ turns

theorem conversion_revokes {requests : List (PasskeyRequest W)} {s : Server}
    {turns₁ turns₂ : List (Turn authCalls Error)}
    (hconverted : ((passkeyRun app H requests s turns₁).state.db.convertToSso id).isOk = true)
    (hothers : ∀ new, Turn.other (AuthCall.write (.createPasskey new)) ∈ turns₂ → new.userId ≠ id)
    (hapart : app.oidc.isSome = true ∧ checkSignIn app.oidc app.passkey = .ok () ∨
      (∀ th ∈ (passkeyRun app H requests s turns₁).threads,
        th.rest.ended = true ∨ Unread (Presented app requests) id th.history) ∧
      ∀ sessionId, Granted turns₂ id sessionId → ¬ Presented app requests sessionId) :
    Revoked (Granted turns₂ id) id (passkeyRun app H requests s
      (turns₁ ++ .other (.write (.convertToSso id)) :: turns₂)).state.db := by
  have hspares : ∀ c, Turn.other c ∈ turns₂ → c.Spares (Granted turns₂ id) id := by
    intro c hc
    cases c with
    | write w =>
      cases w with
      | createSession sessionId userId expiresAt =>
        rintro rfl
        exact ⟨expiresAt, hc⟩
      | createPasskey new => exact hothers new hc
      | _ => trivial
    | _ => trivial
  have hrun : passkeyRun app H requests s (turns₁ ++ .other (.write (.convertToSso id)) :: turns₂) =
      ((passkeyRun app H requests s turns₁).turn H.machine
        (.other (.write (.convertToSso id)))).run H.machine turns₂ := by
    rw [passkeyRun, Pool.run, List.foldl_append, List.foldl_cons]
    rfl
  have hafter : Revoked (Granted turns₂ id) id ((passkeyRun app H requests s turns₁).turn H.machine
      (.other (.write (.convertToSso id)))).state.db := .conversion hconverted
  rw [hrun]
  rcases hapart with ⟨hsso, hcheck⟩ | ⟨hflight, hfresh⟩
  · have hdisabled : app.passkey = none := by
      cases hpasskey : app.passkey with
      | none => rfl
      | some settings =>
        rw [checkSignIn, hsso, hpasskey] at hcheck
        cases hcheck
    refine hafter.run_silent (silent_run fun th hth => ?_) hspares
    obtain ⟨q, hq, rfl⟩ := List.mem_map.mp hth
    obtain ⟨req, -, rfl⟩ := List.mem_map.mp hq
    exact prog_disabled hdisabled req
  · exact hafter.run (fun th hth => harmless_of_unread hth (hflight th hth)) hfresh hspares

end Runs

def oneLogin : List (PasskeyRequest .plain) :=
  [.loginOptions "192.0.2.1" none ⟨"a", 1, []⟩,
    .login "192.0.2.1" (some "soika_passkey_auth=a") ⟨0, 1, 1, 5⟩ "first"]

def turnsOf (is : List ℕ) : List (Turn authCalls Error) := is.map fun i => .thread i none

/-- The conversion comes after the login. -/
theorem conversion_revokes_oneLogin :
    Revoked (Granted [] 0) 0 (passkeyRun (.withPasskeys 1) .plain oneLogin .withPasskey
      (turnsOf ([0, 0, 0, 0] ++ List.replicate 11 1) ++ [.other (.write (.convertToSso 0))])).state.db := by
  apply conversion_revokes
  · decide +kernel
  · exact nofun
  · apply Or.inr
    constructor
    · have hended : ∀ th ∈ (passkeyRun (.withPasskeys 1) .plain oneLogin .withPasskey
          (turnsOf ([0, 0, 0, 0] ++ List.replicate 11 1))).threads, th.rest.ended = true := by
        decide +kernel
      exact fun th hth => .inl (hended th hth)
    · rintro sessionId ⟨expiresAt, hgranted⟩
      cases hgranted

theorem conversion_overtaken :
    let p := passkeyRun (.withPasskeys 1) .plain oneLogin .withPasskey
      (turnsOf ([0, 0, 0, 0] ++ List.replicate 6 1) ++ .other (.write (.convertToSso 0)) ::
        turnsOf (List.replicate 5 1))
    (∀ th ∈ p.threads, th.rest.ended = true) ∧
      (p.state.db.userById 0).map (·.authProvider) = some .oidc ∧
      p.state.db.sessions.map (fun session => (session.id, session.userId)) = [("first", 0)] := by
  decide +kernel

end Soika.Auth
