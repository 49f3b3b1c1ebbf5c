import Soika.Accounts.OwnerPasswords

/-! # How owners sign in

An owner that the administrator list does not name signs in with a password, and one that has a
password can. A role change may find an account without one, and nothing accepts the owner that it
makes.
-/

namespace Soika.Auth

open Table Interaction Accounts

/-- Nothing that passes stands in the way of a session: the key is not locked, no session has the id,
and the clock has a time of expiry. -/
structure Unhindered (H : Host) (s : Server) (key sessionId : String) : Prop where
  unlocked : LoginGuard.checkAt H.lockout key s.instant s.loginGuard = .allowed
  fresh : lookup SessionRow.id sessionId s.db.sessions = none
  expires : (s.clock.add sessionTtl).isSome = true

def PasswordAccepts (H : Host) (app : AppState) (s : Server) (user : UserRow) : Prop :=
  ∃ password, ∀ ip drawn, Unhindered H s (lockoutKey ip user.email) drawn.sessionId →
    (H.machine.exec (login app ip ⟨user.email, password⟩ drawn) .none s).outcome =
      .ok (.account 200 (.of (app.adminUsers.apply user)) (some drawn.sessionId))

/-- A callback with the email of the account, verified, opens a session. -/
def SsoAccepts (H : Host) (app : AppState) (settings : OidcSettings) (s : Server) (user : UserRow) :
    Prop :=
  ∃ provider request claims target,
    Vouched app settings provider request (unixSeconds s.clock) claims ∧ claims.email = user.email ∧
      (H.machine.exec (runCallback app settings provider request) .none s).outcome =
        .ok (.redirect target (some request.sessionId))

/-- Every active account with the stored role Owner is accepted by one of the two. -/
def OwnersSignIn (H : Host) (app : AppState) (settings : OidcSettings) (s : Server) : Prop :=
  ∀ user ∈ s.db.users, user.status = .active → user.instanceRole = .owner →
    PasswordAccepts H app s user ∨ SsoAccepts H app settings s user

section Accepts

variable {H : Host} {app : AppState} {s : Server} {user : UserRow} {α : Type}

theorem exec_get {q : Query} {r : q.Reply} {f : q.Reply → Prog authCalls Error α}
    (h : q.eval H.argon2 H.backend s = .ok r) :
    H.machine.exec ((get q).bind f) .none s = H.machine.exec (f r) .none s :=
  @Machine.exec_ask_ok _ _ _ _ H.machine (.query q) f .none s s r (congrArg (Prod.mk · s) h)

theorem exec_guard {c : LoginGuard.Call} {f : AuthCall.Reply (.guard c) → Prog authCalls Error α} :
    H.machine.exec ((guard c).bind f) .none s =
      H.machine.exec (f (H.guardReply c s)) .none (H.guardStep c s) :=
  @Machine.exec_ask_ok _ _ _ _ H.machine (.guard c) f .none s (H.guardStep c s) (H.guardReply c s) rfl

theorem exec_put {w : Write} {r : w.Reply} {d : Accounts} {f : w.Reply → Prog authCalls Error α}
    (h : w.run H.backend s.clock s.db = .ok (r, d)) :
    H.machine.exec ((put w).bind f) .none s = H.machine.exec (f r) .none { s with db := d } :=
  @Machine.exec_ask_ok _ _ _ _ H.machine (.write w) f .none s { s with db := d } r
    (Host.runWrite_eq_ok.mpr ⟨d, h, rfl⟩)

theorem startSession_outcome {sessionId : String} {userId : Id} (huser : s.db.HasUser userId)
    (hfresh : lookup SessionRow.id sessionId s.db.sessions = none)
    (hexpires : (s.clock.add sessionTtl).isSome = true) (response : Response) :
    (H.machine.exec ((startSession sessionId userId).bind fun _ => Prog.ret response) .none
      s).outcome = .ok response := by
  obtain ⟨expiresAt, hexpiresAt⟩ := Option.isSome_iff_exists.mp hexpires
  have hrun : (Write.createSession sessionId userId expiresAt).run H.backend s.clock s.db = .ok _ :=
    createSession_eq_ok.mpr ⟨huser, hfresh, rfl, rfl⟩
  change (H.machine.exec (((get .now).bind fun now => (Prog.orAbort (Timestamp.add now
    sessionTtl)).bind fun expiresAt => put (.createSession sessionId userId expiresAt)).bind
      fun _ => Prog.ret response) .none s).outcome = _
  rw [Prog.bind_assoc, exec_get rfl, hexpiresAt]
  change (H.machine.exec ((put (.createSession sessionId userId expiresAt)).bind
    fun _ => Prog.ret response) .none s).outcome = _
  rw [exec_put hrun]
  rfl

theorem Keyed.passwordAccepts (h : Keyed H.argon2 s.db) (hlogin : app.emailLoginEnabled = true)
    (hmem : user ∈ s.db.users) (hactive : user.status = .active)
    (howner : user.instanceRole = .owner) : PasswordAccepts H app s user := by
  obtain ⟨hne, hemail, password, hverify⟩ := h.passwords user hmem (h.owners user hmem howner)
  refine ⟨password, fun ip drawn hfree => ?_⟩
  have hfound : s.db.userByEmail user.email = some user := h.emails.lookup_of_mem hmem
  have hrequire : requireEmailLogin app = .ok () := if_pos hlogin
  have hallowed : H.guardReply (.check (lockoutKey ip user.email)) s = LockoutDecision.allowed :=
    hfree.unlocked
  unfold login
  rw [hrequire]
  change (H.machine.exec ((lift (normalizeEmail user.email)).bind fun email =>
    unlessLocked (lockoutKey ip email)
      (attemptLogin app (lockoutKey ip email) email password drawn)) .none s).outcome = _
  rw [hemail]
  change (H.machine.exec ((guard (.check (lockoutKey ip user.email))).bind _) .none s).outcome = _
  rw [exec_guard, hallowed]
  dsimp only
  have hread : (Query.findUserByEmail user.email).eval H.argon2 H.backend
      (H.guardStep (.check (lockoutKey ip user.email)) s) = .ok (some user) :=
    congrArg Except.ok hfound
  have hproved : (Query.verifyPassword password user.passwordHash).eval H.argon2 H.backend
      (H.guardStep (.check (lockoutKey ip user.email)) s) = .ok true := hverify
  have hcheck : verifyLogin password (some (app.adminUsers.apply user)) =
      get (.verifyPassword password user.passwordHash) := if_pos hne
  apply (congrArg Run.outcome (exec_get hread)).trans
  rw [Option.map_some]
  dsimp only
  rw [hcheck]
  apply (congrArg Run.outcome (exec_get hproved)).trans
  have hrole : (app.adminUsers.apply user).instanceRole.isOwner = true :=
    AdminUsers.apply_isOwner.mpr (.inl howner)
  have hmay : mayUsePassword app (app.adminUsers.apply user) = true := by
    rw [mayUsePassword, hrole, Bool.or_true, Bool.and_true]
    change (!user.status.isPending) = true
    rw [hactive]
    rfl
  have hfilter : (some (app.adminUsers.apply user)).filter (fun u => true && mayUsePassword app u) =
      some (app.adminUsers.apply user) := by
    rw [Option.filter_some, Bool.true_and, if_pos hmay]
  unfold finishLogin
  rw [hfilter]
  dsimp only
  apply (congrArg Run.outcome exec_guard).trans
  apply startSession_outcome
  · exact ⟨user, hmem, rfl⟩
  · exact hfree.fresh
  · exact hfree.expires

end Accepts

section Refused

variable {H : Host} {app : AppState} {settings : OidcSettings} {provider : OidcProvider}
  {request : CallbackRequest} {s : Server} {user : UserRow} {nowUnix : ℤ} {α : Type}

theorem Vouched.unique {claims other : OidcClaims}
    (h : Vouched app settings provider request nowUnix claims)
    (h' : Vouched app settings provider request nowUnix other) : claims = other := by
  obtain ⟨signed, json, payload, code, hsigned, hjson, hpayload, -, -, hcode, hclaims⟩ := h.state
  obtain ⟨signed', json', payload', code', hsigned', hjson', hpayload', -, -, hcode', hclaims'⟩ :=
    h'.state
  obtain rfl := Option.some.inj (hsigned.symm.trans hsigned')
  obtain rfl := Except.ok.inj (hjson.symm.trans hjson')
  obtain rfl := Except.ok.inj (hpayload.symm.trans hpayload')
  obtain rfl := Option.some.inj (hcode.symm.trans hcode')
  exact Except.ok.inj (hclaims.symm.trans hclaims')

/-- An owner that is not listed gets no session from the provider. -/
theorem not_ssoAccepts (hemails : UniqueOn UserRow.email s.db.users) (hmem : user ∈ s.db.users)
    (howner : user.instanceRole = .owner) (hunlisted : app.adminUsers.contains user.email = false) :
    ¬ SsoAccepts H app settings s user := by
  rintro ⟨provider, request, claims, target, hvouched, hemail, hrun⟩
  have huntrusted : ¬ Trusted app s.db claims.email := by
    intro htrusted
    have hlisted := htrusted user hmem hemail.symm howner
    rw [hunlisted] at hlisted
    cases hlisted
  have hrefused : (runCallback app settings provider request).Concludes H.machine.faulty
      (fun o _ => ∀ response, o ≠ .ok response) s := by
    unfold runCallback
    apply Prog.concludes_bind.mpr
    apply identify_concludes.mono
    rintro (⟨payload, found⟩ | e | _) s₁ ⟨rfl, hidentified⟩
    · obtain rfl := hvouched.unique (hidentified payload found rfl)
      apply Prog.concludes_bind.mpr
      apply (findOrCreate_refused hemails huntrusted).mono
      rintro (found | e | _) s₂ ⟨-, hno⟩
      · exact absurd rfl (hno found)
      · exact nofun
      · exact nofun
    · exact nofun
    · exact nofun
  exact hrefused.exec .none _ hrun

theorem attemptLogin_refused {key email password : String} {drawn : Drawn}
    (hfound : s.db.userByEmail email = some user) (hunset : user.passwordHash = "") :
    (attemptLogin app key email password drawn).Concludes H.machine.faulty
      (fun o _ => ∀ response, o ≠ .ok response) s := by
  have hdummy : verifyLogin password (some (app.adminUsers.apply user)) = verifyDummy password :=
    if_neg (not_not.mpr hunset)
  unfold attemptLogin
  apply concludes_get fun _ => nofun
  intro found hread
  obtain rfl := Except.ok.inj hread
  rw [hfound, Option.map_some]
  dsimp only
  rw [hdummy]
  intro fault
  apply Prog.concludes_bind.mpr
  have hfinish : ∀ s', (finishLogin app key drawn (some (app.adminUsers.apply user)) false).Concludes
      H.machine.faulty (fun o _ => ∀ response, o ≠ .ok response) s' := by
    intro s' fault
    cases fault <;> exact nofun
  cases fault <;> exact hfinish _

/-- An account without a password gets no session from a login. -/
theorem not_passwordAccepts (hemails : UniqueOn UserRow.email s.db.users) (hmem : user ∈ s.db.users)
    (hemail : normalizeEmail user.email = .ok user.email) (hunset : user.passwordHash = "")
    (ip : String) (drawn : Drawn) (hfree : Unhindered H s (lockoutKey ip user.email) drawn.sessionId) :
    ¬ PasswordAccepts H app s user := by
  rintro ⟨password, haccepts⟩
  have hfound : s.db.userByEmail user.email = some user := hemails.lookup_of_mem hmem
  have hrefused : (login app ip ⟨user.email, password⟩ drawn).Concludes H.machine.faulty
      (fun o _ => ∀ status view session, o ≠ .ok (.account status view session)) s := by
    unfold login
    apply concludes_lift fun _ _ => nofun
    intro _ _
    apply concludes_lift fun _ _ => nofun
    intro email hnormal
    obtain rfl : user.email = email := Except.ok.inj (hemail.symm.trans hnormal)
    unfold unlessLocked
    apply Prog.Concludes.ask_bind fun _ _ _ _ => nofun
    intro fault decision s' hguard
    have hdb : s'.db = s.db := by
      cases fault with
      | some e => cases hguard
      | none =>
        cases hguard
        rfl
    cases decision with
    | locked retryAfterSecs => exact nofun
    | allowed =>
      apply (attemptLogin_refused (hdb ▸ hfound) hunset).mono
      exact fun o s'' ho status view session => ho _
  exact hrefused.exec .none _ _ _ (haccepts ip drawn hfree)

end Refused

section Runs

variable {H : Host} {P : Platform} {write : WritePolicy} {attempts : ℕ → ℕ → ConfigSync.Attempt}
  {A : Argon2} {s : Server}

/-- What others may call: no write to the accounts. -/
def LeavesAccounts : AuthCall → Prop
  | .write w => w.touchesUsers = false
  | _ => True

theorem Keyed.reconciled (h : Keyed A s.db) (userId : Id) (groups : List String) (occasion : ℕ) :
    Keyed A (((H.syncing P write attempts).runSync userId groups occasion s).2).db :=
  have hsame := ConfigSync.reconcileUser_users (P := P) write userId groups (attempts occasion)
    s.db.toDirectory
  h.of_users hsame.users hsame.nextId.ge

theorem Keyed.step (h : Keyed A s.db) {c : AuthCall} (hc : LeavesAccounts c) :
    Keyed A ((H.syncing P write attempts).machine.step c s).2.db := by
  cases c with
  | query q => exact h
  | guard k => exact h
  | write w =>
    rw [Host.machine_write]
    rcases Host.runWrite_state (H := H.syncing P write attempts) w s with hs | ⟨r, d, hrun, hs⟩
    · rwa [hs]
    · rw [hs]
      obtain ⟨hframe, hnext⟩ := Write.frame_and_ids hrun
      exact h.of_users (hframe.users hc) hnext
  | reconcileUser userId groups occasion => exact h.reconciled (H := H) userId groups occasion
  | advance elapsed clock => exact h

theorem Keyed.answer (h : Keyed A s.db) {c : AuthCall} {fault : Option Error} (hc : KeepsKeys A c)
    (hpromotes : PromotesKeyed ((H.syncing P write attempts).machine.transition c fault s)) :
    Keyed A ((H.syncing P write attempts).machine.answer c fault s).2.db := by
  cases fault with
  | some e => exact h
  | none =>
    cases c with
    | query q => exact h
    | guard k => exact h
    | write w =>
      rcases hrun : (H.syncing P write attempts).runWrite w s with ⟨e | r, s'⟩
      · have hs := Host.runWrite_eq_error hrun
        simp only [Machine.answer_none, Host.machine_write, hrun]
        exact hs ▸ h
      · have hstep : (H.syncing P write attempts).machine.transition (.write w) none s =
            ⟨s, .write w, .ok r, s'⟩ := by
          simp only [Machine.transition, Machine.answer_none, Host.machine_write, hrun]
          rfl
        rw [hstep] at hpromotes
        obtain ⟨d, hwrite, rfl⟩ := Host.runWrite_eq_ok.mp hrun
        simp only [Machine.answer_none, Host.machine_write, hrun]
        apply h.run hc hwrite
        rintro id rfl
        exact hpromotes id rfl rfl
    | reconcileUser userId groups occasion => exact h.reconciled (H := H) userId groups occasion
    | advance elapsed clock => exact h

theorem Keyed.new : Keyed A Server.new.db where
  ids := List.nodup_nil
  emails := List.nodup_nil
  fresh := nofun
  passwords := nofun
  owners := nofun

/-- Setups, callbacks, approvals, role changes and deletions in any order, interleaved, and whatever
fails: as long as every role change that makes an owner finds a password set for the account, every
active owner can sign in. -/
theorem owners_sign_in (H : Host) (P : Platform) (write : WritePolicy)
    (attempts : ℕ → ℕ → ConfigSync.Attempt) (app : AppState) (settings : OidcSettings)
    (provider : OidcProvider) (hlogin : app.emailLoginEnabled = true)
    (hargon : H.argon2.RoundTrips) (ops : List OwnerOp) (s : Server) (hs : Keyed H.argon2 s.db)
    (turns : List (Turn authCalls Error)) (hturns : ∀ c, Turn.other c ∈ turns → LeavesAccounts c) :
    let p := (Pool.start (ops.map (OwnerOp.prog app settings provider)) s).run
      (H.syncing P write attempts).machine turns
    (∀ th ∈ p.threads, ∀ e ∈ th.history, PromotesKeyed e) →
      OwnersSignIn (H.syncing P write attempts) app settings p.state := by
  intro p hpromotes
  have hprogs : ∀ q ∈ ops.map (OwnerOp.prog app settings provider),
      q.Obeys (H.syncing P write attempts).machine (keysProtocol H.argon2) (fun _ _ => True)
        True := by
    intro q hq
    obtain ⟨op, -, rfl⟩ := List.mem_map.mp hq
    exact @OwnerOp.keeps (H.syncing P write attempts) app settings provider True hargon op
  have hkeyed : Keyed H.argon2 p.state.db :=
    Pool.run_always (I := fun s => Keyed H.argon2 s.db) (fun s c fault hc hR h => h.answer hc hR)
      (fun s c hc h => h.step hc) hprogs hs hturns hpromotes
  intro user hmem hactive howner
  exact .inl (@Keyed.passwordAccepts (H.syncing P write attempts) app p.state user hkeyed hlogin hmem
    hactive howner)

end Runs

theorem Argon2.plain_roundTrips : Argon2.plain.RoundTrips := by
  rintro salt password stored ⟨⟩
  constructor
  · intro hempty
    have hlist := congrArg String.toList hempty
    rw [String.toList_append, String.toList_append, String.toList_append] at hlist
    cases hlist
  · have hsuffix : ("$" ++ password).toList <:+ ("$" ++ salt ++ "$" ++ password).toList := by
      refine ⟨("$" ++ salt).toList, ?_⟩
      rw [String.append_assoc]
      exact String.toList_append.symm
    exact congrArg Except.ok (List.isSuffixOf_iff_suffix.mpr hsuffix)

def ssoApp : AppState :=
  { AppState.plain .sqlite with signing := .spelled, oidc := some ⟨[], false⟩ }

def bobsProvider : OidcProvider where
  exchangeCode _ _ _ := .ok ⟨"bob@a.b", true, "Bob", []⟩
  payload := ⟨fun _ => .ok "p", fun _ => .ok ⟨"x", "n", "v", none, 600⟩⟩
  headerValue target := target.toList.all isVisible

/-- Ann sets the instance up, Bob signs in with the provider, and Ann makes him an owner. -/
def promotion : List OwnerOp :=
  [.setup ⟨"ann@a.b", "password", "Ann", "Org"⟩ ⟨"s", "1"⟩,
    .callback ⟨some (stateCookie ++ "=" ++ Signing.spelled.signStr "secret".toUTF8 "p"), some "c",
      some "x", "t", 0⟩,
    .setUserRole (some (sessionCookie ++ "=" ++ Signing.spelled.signStr "secret".toUTF8 "s")) 1
      .owner]

def promotionRun (ops : List OwnerOp) : Pool authCalls Error Server Response :=
  (Pool.start (ops.map (OwnerOp.prog ssoApp ⟨[], false⟩ bobsProvider)) .new).run asciiSync.machine
    ((List.replicate 6 0 ++ List.replicate 5 1 ++ List.replicate 4 2).map fun i => .thread i none)

/-- Before Ann makes Bob an owner. -/
theorem owners_sign_in_before : OwnersSignIn asciiSync ssoApp ⟨[], false⟩
    (promotionRun (promotion.take 2)).state :=
  owners_sign_in .plain _ _ _ ssoApp ⟨[], false⟩ bobsProvider rfl Argon2.plain_roundTrips
    (promotion.take 2) .new .new _ (by simp) (by decide +kernel)

/-- Bob after that, with the stored role Owner and no password. -/
def bob : UserRow := ⟨1, "bob@a.b", "Bob", "", .owner, .oidc, .active⟩

/-- Once Bob is an owner the provider is not trusted for him any more, and he has no password. -/
theorem promoted_owner_locked_out :
    ¬ OwnersSignIn asciiSync ssoApp ⟨[], false⟩ (promotionRun promotion).state := by
  have husers : (promotionRun promotion).state.db.users =
      [⟨0, "ann@a.b", "Ann", "$1$password", .owner, .localAccount, .active⟩, bob] := by
    decide +kernel
  have hfree : Unhindered asciiSync (promotionRun promotion).state (lockoutKey "ip" "bob@a.b") "u" :=
    ⟨by decide +kernel, by decide +kernel, by decide +kernel⟩
  have hemails : UniqueOn UserRow.email (promotionRun promotion).state.db.users := by
    rw [husers]
    decide
  have hmem : bob ∈ (promotionRun promotion).state.db.users := by
    rw [husers]
    exact List.mem_cons_of_mem _ (List.mem_singleton_self _)
  intro h
  rcases h bob hmem rfl rfl with haccepts | haccepts
  · exact not_passwordAccepts hemails hmem (by decide +kernel) rfl "ip" ⟨"u", ""⟩ hfree haccepts
  · exact not_ssoAccepts hemails hmem rfl rfl haccepts

end Soika.Auth
