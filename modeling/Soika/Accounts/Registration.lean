import Soika.Accounts.Redemption

/-! # Registering with an invite

A request that accepts an invite registers its account first, then opens a session, and consumes
the invite last, each in a transaction of its own. So its account stays behind without an invite
exactly when a call after the registration does not find what it needs.
-/

namespace Soika.Auth

open Table Interaction Accounts

structure InviteRequest where
  cookies : Option String
  token : String
  ip : String
  body : AcceptInviteRequest
  drawn : Drawn

def InviteRequest.prog (app : AppState) (r : InviteRequest) : Prog authCalls Error Response :=
  acceptInvite app r.cookies r.token r.ip r.body r.drawn

def Registers (e : Transition authCalls Error Server) : Bool :=
  match e with
  | ⟨_, .write (.createAccount _ _), .ok _, _⟩ => true
  | _ => false

def Opens (e : Transition authCalls Error Server) : Bool :=
  match e with
  | ⟨_, .write (.createSession _ _ _), .ok _, _⟩ => true
  | _ => false

def Consumes (e : Transition authCalls Error Server) : Bool := (Redemption e).isSome

structure Admission where
  registered : ℕ
  opened : Bool
  /-- The invite whose row it has locked, and its time. -/
  claim : Option (Invite × Timestamp)
  consumed : ℕ
  /-- Every call after the registration was unobstructed. -/
  clear : Prop

def Admission.start : Admission := ⟨0, false, none, 0, True⟩

/-- What a call of a request needs to find: room for the session's time, its user and a fresh id; the
invite unused, unexpired and not locked by another acceptance; its team, and the user, who is active
and has its address. -/
def Admission.Ready (t : Admission) (B : AccountBackend) (s : Server) : AuthCall → Prop
  | .query .now => t.opened = false → (s.clock.add sessionTtl).isSome = true
  | .query (.findUserById id) => ∀ c ∈ t.claim, checkInvitee c.1.email (s.db.userById id) = .ok ()
  | .write (.createSession id userId _) =>
    s.db.HasUser userId ∧ lookup SessionRow.id id s.db.sessions = none
  | .write (.accept token userId now) => ∃ i, s.db.claimable B token now = some i ∧
      checkInvitee i.email (s.db.userById userId) = .ok () ∧ s.db.HasTeam i.teamId
  | .write (.acceptClaim token now) =>
    token ∉ s.db.lockedInvites ∧ (s.db.claimable B token now).isSome = true
  | .write (.acceptCommit _ teamId userId _ _) => s.db.HasTeam teamId ∧ s.db.HasUser userId
  | _ => True

/-- The call reaches the server, and finds what it needs there. -/
def Admission.Proceeds (t : Admission) (H : Host) (e : Transition authCalls Error Server) : Prop :=
  H.machine.step e.call e.before = (e.answer, e.after) ∧ t.Ready H.backend e.before e.call

def admissionProtocol (H : Host) : Protocol authCalls Error Server Admission where
  may _ _ := True
  next t e :=
    ⟨t.registered + if Registers e then 1 else 0, t.opened || Opens e, claimAfter t.claim e,
      t.consumed + if Consumes e then 1 else 0, t.clear ∧ (0 < t.registered → t.Proceeds H e)⟩

/-- Once it has registered an account, no call of the request is obstructed. -/
def Unobstructed (H : Host) (h : List (Transition authCalls Error Server)) : Prop :=
  ((admissionProtocol H).after .start h).clear

def Fresh (t : Admission) : Prop := t.clear ∧ t.registered = 0

def Underway (t : Admission) : Prop := t.clear ∧ t.registered ≤ 1 ∧ t.consumed = 0

/-- The request has been obstructed, after its registration if there was one. -/
def Stopped (t : Admission) : Prop := (t.clear ↔ t.registered = 0) ∧ t.consumed = 0

/-- An account is left without an invite exactly when a call was obstructed. -/
def Settled (t : Admission) : Prop := t.clear ↔ t.registered ≤ t.consumed

variable {H : Host} {app : AppState} {t : Admission} {e : Transition authCalls Error Server} {α : Type}

theorem Fresh.settled (h : Fresh t) : Settled t :=
  ⟨fun _ => h.2 ▸ Nat.zero_le _, fun _ => h.1⟩

theorem Fresh.underway (h : Fresh t) (hnone : t.consumed = 0) : Underway t :=
  ⟨h.1, h.2 ▸ Nat.zero_le _, hnone⟩

theorem Fresh.stopped (h : Fresh t) (hnone : t.consumed = 0) : Stopped t :=
  ⟨⟨fun _ => h.2, fun _ => h.1⟩, hnone⟩

theorem Stopped.settled (h : Stopped t) : Settled t := by
  rw [Settled, h.2, Nat.le_zero]
  exact h.1

theorem registered_next (he : Registers e = false) :
    ((admissionProtocol H).next t e).registered = t.registered := by
  change t.registered + (if Registers e then 1 else 0) = t.registered
  rw [he]
  rfl

theorem consumed_next (he : Consumes e = false) :
    ((admissionProtocol H).next t e).consumed = t.consumed := by
  change t.consumed + (if Consumes e then 1 else 0) = t.consumed
  rw [he]
  rfl

theorem opened_next (he : Opens e = false) :
    ((admissionProtocol H).next t e).opened = t.opened := by
  change (t.opened || Opens e) = t.opened
  rw [he, Bool.or_false]

theorem Fresh.next (h : Fresh t) (he : Registers e = false) :
    Fresh ((admissionProtocol H).next t e) :=
  ⟨⟨h.1, fun hpos => absurd h.2 hpos.ne'⟩, (registered_next he).trans h.2⟩

theorem Underway.next (h : Underway t) (hregisters : Registers e = false)
    (hconsumes : Consumes e = false) (hproceeds : 0 < t.registered → t.Proceeds H e) :
    Underway ((admissionProtocol H).next t e) :=
  ⟨⟨h.1, hproceeds⟩, (registered_next hregisters).trans_le h.2.1, (consumed_next hconsumes).trans h.2.2⟩

/-- A call that does not: the account, if there is one, stays behind. -/
theorem Underway.stop (h : Underway t) (hregisters : Registers e = false)
    (hconsumes : Consumes e = false) (hstuck : ¬ t.Proceeds H e) :
    Stopped ((admissionProtocol H).next t e) := by
  refine ⟨?_, (consumed_next hconsumes).trans h.2.2⟩
  rw [registered_next hregisters]
  constructor
  · intro hgo
    by_contra hpos
    exact hstuck (hgo.2 (Nat.pos_of_ne_zero hpos))
  · intro hzero
    exact ⟨h.1, fun hpos => absurd hzero hpos.ne'⟩

theorem Stopped.next (h : Stopped t) (hregisters : Registers e = false)
    (hconsumes : Consumes e = false) : Stopped ((admissionProtocol H).next t e) := by
  refine ⟨?_, (consumed_next hconsumes).trans h.2⟩
  rw [registered_next hregisters]
  constructor
  · exact fun hgo => h.1.mp hgo.1
  · exact fun hzero => ⟨h.1.mpr hzero, fun hpos => absurd hzero hpos.ne'⟩

theorem Underway.accept (h : Underway t) (hregisters : Registers e = false)
    (hconsumes : Consumes e = true) (hproceeds : t.Proceeds H e) :
    Settled ((admissionProtocol H).next t e) := by
  have hconsumed : ((admissionProtocol H).next t e).consumed = 1 := by
    change t.consumed + (if Consumes e then 1 else 0) = 1
    rw [hconsumes, h.2.2]
    rfl
  rw [Settled, registered_next hregisters, hconsumed]
  exact ⟨fun _ => h.2.1, fun _ => ⟨h.1, fun _ => hproceeds⟩⟩

theorem Admission.not_proceeds {c : AuthCall}
    (hready : ∀ s, t.Ready H.backend s c → ∃ r s', H.machine.step c s = (.ok r, s'))
    (s : Server) (e : Error) (s' : Server) : ¬ t.Proceeds H ⟨s, c, .error e, s'⟩ := by
  rintro ⟨hserved, hneeds⟩
  obtain ⟨r, s'', hok⟩ := hready s hneeds
  cases hok.symm.trans hserved

def Write.creates : Write → Bool
  | createAccount _ _ => true
  | _ => false

def Write.opens : Write → Bool
  | createSession _ _ _ => true
  | _ => false

/-- Calls that register no account, open no session and accept no invite. -/
structure Aside (w : Write) : Prop where
  creates : w.creates = false
  opens : w.opens = false
  accepts : w.accepts = false

variable {s s' : Server} {c : AuthCall} {a : Except Error c.Reply}

theorem Writes.mono {may may' : Write → Prop} (h : ∀ w, may w → may' w) (hc : Writes may c) :
    Writes may' c := by
  cases c with
  | write w => exact h w hc
  | reconcileUser userId groups occasion => exact hc
  | _ => trivial

theorem registers_of (hc : Writes (fun w => w.creates = false) c) :
    Registers ⟨s, c, a, s'⟩ = false := by
  cases c with
  | write w => cases w <;> first | rfl | cases hc
  | _ => rfl

theorem opens_of (hc : Writes (fun w => w.opens = false) c) : Opens ⟨s, c, a, s'⟩ = false := by
  cases c with
  | write w => cases w <;> first | rfl | cases hc
  | _ => rfl

theorem consumes_of (hc : Writes (fun w => w.accepts = false) c) :
    Consumes ⟨s, c, a, s'⟩ = false := by
  cases c with
  | write w => exact congrArg Option.isSome (redemption_write hc)
  | _ => rfl

theorem fresh_obeys {p : Prog authCalls Error α} (hp : p.Calls (Writes fun w => w.creates = false))
    (ht : Fresh t) : p.Obeys H.machine (admissionProtocol H) (fun t _ => Fresh t) t :=
  Prog.Obeys.of_calls (fun _ _ _ _ => trivial) (fun _ _ _ _ ht hc => ht.next (registers_of hc)) hp ht

structure Early (t : Admission) : Prop where
  fresh : Fresh t
  consumed : t.consumed = 0
  opened : t.opened = false

theorem Early.stopped (h : Early t) : Stopped t := h.fresh.stopped h.consumed

theorem early_obeys {p : Prog authCalls Error α} (hp : p.Calls (Writes Aside)) (ht : Early t) :
    p.Obeys H.machine (admissionProtocol H) (Prog.Ends Early Stopped) t := by
  refine Prog.Obeys.ends_of_calls (fun _ _ _ _ => trivial) (fun t c fault s ht hc => ?_)
    (fun _ ht => ht) (fun _ ht => ht.stopped) hp ht
  exact {
    fresh := ht.fresh.next (registers_of (hc.mono fun _ hw => hw.creates))
    consumed := (consumed_next (consumes_of (hc.mono fun _ hw => hw.accepts))).trans ht.consumed
    opened := (opened_next (opens_of (hc.mono fun _ hw => hw.opens))).trans ht.opened }

/-- The request has its account, and no session yet. -/
def Resolved (t : Admission) : Prop := Underway t ∧ t.opened = false

theorem Early.resolved (h : Early t) : Resolved t := ⟨h.fresh.underway h.consumed, h.opened⟩

/-- The account of a new address: it is registered, and nothing else has happened. -/
theorem createUser_obeys (email password displayName : String) (drawn : Drawn) (ht : Early t) :
    (createUser app email password displayName drawn).Obeys H.machine (admissionProtocol H)
      (Prog.Ends Resolved Stopped) t := by
  refine (early_obeys (lift_calls _) ht).andThen fun new t ht => ?_
  refine (early_obeys (get_calls _) ht).andThen fun found t ht => ?_
  cases found with
  | some u => exact ht.stopped
  | none =>
    refine (early_obeys (get_calls _) ht).andThen fun passwordHash t ht => ?_
    have hzero := ht.fresh.2
    refine Prog.Obeys.ask trivial (fun s u s' _ => ?_) fun _ s e s' _ => ?_
    · refine ⟨⟨⟨ht.fresh.1, fun hpos => absurd hzero hpos.ne'⟩, ?_, ht.consumed⟩, ?_⟩
      · exact Nat.succ_le_succ hzero.le
      · exact (opened_next rfl).trans ht.opened
    · exact (ht.fresh.next rfl).stopped ht.consumed

theorem resolveInvitee_obeys (email password : String) (displayName : Option String) (drawn : Drawn)
    (found : Option UserRow) (ht : Early t) :
    (resolveInvitee app email password displayName drawn found).Obeys H.machine (admissionProtocol H)
      (Prog.Ends Resolved Stopped) t := by
  cases found with
  | none =>
    simp only [resolveInvitee, registerInvitee]
    split
    · exact ht.stopped
    · exact createUser_obeys _ _ _ _ ht
  | some existing =>
    have hcalls : (authenticateInvitee app password existing).Calls (Writes Aside) := by
      unfold authenticateInvitee
      split_ifs
      · trivial
      · trivial
      · refine Prog.Calls.bind (get_calls _) fun verified => ?_
        split <;> trivial
    refine (early_obeys hcalls ht).mono fun t o h => ?_
    cases o with
    | ok u => exact h.resolved
    | err e => exact h
    | panic => exact h

def Opened (t : Admission) : Prop := Underway t ∧ t.opened = true

/-- A session is opened unless its id is taken, its user is gone or the clock is at its end. -/
theorem startSession_obeys (sessionId : String) (userId : Id) (ht : Resolved t) :
    (startSession sessionId userId).Obeys H.machine (admissionProtocol H) (Prog.Ends Opened Stopped) t := by
  obtain ⟨hway, hopened⟩ := ht
  refine Prog.Obeys.ask trivial (fun s now s' hnow => ?_) fun _ s e s' _ => ?_
  · obtain ⟨⟨⟩, rfl⟩ := Prod.mk.inj hnow
    cases hadd : s.clock.add sessionTtl with
    | none =>
      refine hway.stop rfl rfl fun hproceeds => ?_
      have hsome := hproceeds.2 hopened
      simp [hadd] at hsome
    | some expiresAt =>
      have hnext := hway.next rfl rfl (e := ⟨s, .query .now, .ok s.clock, s⟩) (H := H)
        fun _ => ⟨rfl, fun _ => by simp [hadd]⟩
      refine Prog.Obeys.ask_last trivial (fun s₁ session s₁' hcreate => ?_) fun _ s₁ e s₁' _ => ?_
      · refine ⟨hnext.next rfl rfl fun _ => ⟨hcreate, ?_⟩, Bool.or_true _⟩
        obtain ⟨d, hrun, -⟩ := Host.runWrite_eq_ok.mp hcreate
        obtain ⟨huser, hfresh, -⟩ := createSession_eq_ok.mp hrun
        exact ⟨huser, hfresh⟩
      · refine hnext.stop rfl rfl (Admission.not_proceeds (fun s hready => ?_) s₁ e s₁')
        exact ⟨_, _, Host.runWrite_eq_ok.mpr
          ⟨_, createSession_eq_ok.mpr ⟨hready.1, hready.2, rfl, rfl⟩, rfl⟩⟩
  · exact hway.stop rfl rfl (Admission.not_proceeds (fun s _ => ⟨_, _, rfl⟩) s e s')

theorem join_succeeds (B : AccountBackend) {d : Accounts} (now : Timestamp) (token : String)
    {teamId userId : Id} (role : TeamRole) (hteam : d.HasTeam teamId) (huser : d.HasUser userId) :
    ∃ d', (d.markAccepted B token now).join B teamId userId role now = .ok ((), d') :=
  ⟨_, upsertMember_eq_ok.mpr ⟨⟨hteam, huser⟩, rfl⟩⟩

theorem sqlite_accept_settles (token : String) (userId : Id) (now : Timestamp) (ht : Underway t) :
    (sqliteRepositories.accept token userId now).Obeys H.machine (admissionProtocol H)
      (Prog.Ends Settled Settled) t := by
  refine Prog.Obeys.ask_last trivial (fun s r s' haccept => ?_) fun _ s e s' _ => ?_
  · refine ht.accept rfl rfl ⟨haccept, ?_⟩
    obtain ⟨d, hrun, -⟩ := Host.runWrite_eq_ok.mp haccept
    obtain ⟨i, hclaimable, hcheck, hjoin⟩ := accept_eq_ok.mp hrun
    exact ⟨i, hclaimable, hcheck, (upsertMember_eq_ok.mp hjoin).1.1⟩
  · refine (ht.stop rfl rfl (Admission.not_proceeds (fun s hready => ?_) s e s')).settled
    obtain ⟨i, hclaimable, hcheck, hteam⟩ := hready
    obtain ⟨u, hu, -⟩ := checkInvitee_eq_ok.mp hcheck
    obtain ⟨hmem, hid⟩ := userById_mem hu
    obtain ⟨d', hjoin⟩ := join_succeeds H.backend now token
      i.role hteam ⟨u, hmem, hid⟩
    exact ⟨_, _, Host.runWrite_eq_ok.mpr ⟨d', accept_eq_ok.mpr ⟨i, hclaimable, hcheck, hjoin⟩, rfl⟩⟩

theorem pg_accept_settles (token : String) (userId : Id) (now : Timestamp) (ht : Underway t) :
    (pgRepositories.accept token userId now).Obeys H.machine (admissionProtocol H)
      (Prog.Ends Settled Settled) t := by
  refine Prog.Obeys.ask trivial (fun s i s' hclaim => ?_) fun _ s e s' _ => ?_
  · have hready : t.Ready H.backend s (.write (.acceptClaim token now)) := by
      obtain ⟨d, hrun, -⟩ := Host.runWrite_eq_ok.mp hclaim
      obtain ⟨hfree, hclaimable, -⟩ := acceptClaim_eq_ok.mp hrun
      exact ⟨hfree, Option.isSome_iff_exists.mpr ⟨i, hclaimable⟩⟩
    have hlocked := ht.next rfl rfl (H := H)
      (e := ⟨s, .write (.acceptClaim token now), .ok i, s'⟩) fun _ => ⟨hclaim, hready⟩
    generalize hopen : (admissionProtocol H).next t _ = t₁ at hlocked ⊢
    have hclaimed : t₁.claim = some (i, now) := hopen ▸ rfl
    clear hopen
    have hrollback : ∀ {t : Admission} {e : Error}, Stopped t →
        RollsBack H.machine (admissionProtocol H) (Prog.Ends (α := Unit) Settled Settled)
          (.acceptRollback token) t (.err e) :=
      fun ht => ⟨trivial, fun fault s => (ht.next rfl rfl).settled⟩
    refine orRollback_obeys (Prog.Obeys.ask trivial (fun s user s' hread => ?_) fun _ s e s' _ => ?_)
    · obtain ⟨hreply, rfl⟩ := Prod.mk.inj hread
      obtain rfl : s.db.userById userId = user := Except.ok.inj hreply
      cases hcheck : checkInvitee i.email (s.db.userById userId) with
      | error e =>
        refine hrollback (hlocked.stop rfl rfl fun hproceeds => ?_)
        have hok := hproceeds.2 _ hclaimed
        cases hok.symm.trans hcheck
      | ok r =>
        have hchecked := hlocked.next rfl rfl (H := H)
          (e := ⟨s, .query (.findUserById userId), .ok (s.db.userById userId), s⟩) fun _ =>
            ⟨rfl, fun c hc => by cases hclaimed.symm.trans hc; exact hcheck⟩
        refine Prog.Obeys.ask_last trivial (fun s r s' hcommit => ?_) fun _ s e s' _ => ?_
        · refine hchecked.accept rfl rfl ⟨hcommit, ?_⟩
          obtain ⟨d, hrun, -⟩ := Host.runWrite_eq_ok.mp hcommit
          obtain ⟨joined, hjoin, -⟩ := acceptCommit_eq_ok.mp hrun
          exact (upsertMember_eq_ok.mp hjoin).1
        · refine hrollback (hchecked.stop rfl rfl (Admission.not_proceeds (fun s hready => ?_) s e s'))
          obtain ⟨d', hjoin⟩ := join_succeeds H.backend now token
            i.role hready.1 hready.2
          exact ⟨(), _, Host.runWrite_eq_ok.mpr ⟨_, acceptCommit_eq_ok.mpr ⟨d', hjoin, rfl⟩, rfl⟩⟩
    · refine hrollback (hlocked.stop rfl rfl (Admission.not_proceeds (fun s _ => ⟨_, _, rfl⟩) s e s'))
  · refine (ht.stop rfl rfl (Admission.not_proceeds (fun s hready => ?_) s e s')).settled
    obtain ⟨i, hclaimable⟩ := Option.isSome_iff_exists.mp hready.2
    exact ⟨_, _, Host.runWrite_eq_ok.mpr
      ⟨_, acceptClaim_eq_ok.mpr ⟨hready.1, hclaimable, rfl⟩, rfl⟩⟩

theorem redeem_settles (token : String) (user : UserRow) (session : Option String) (ht : Opened t) :
    (redeem app token user session).Obeys H.machine (admissionProtocol H)
      (Prog.Ends Settled Settled) t := by
  obtain ⟨hway, hopened⟩ := ht
  refine Prog.Obeys.ask trivial (fun s now s' hnow => ?_) fun _ s e s' _ => ?_
  · have hnext := hway.next rfl rfl (H := H) (e := ⟨s, .query .now, .ok now, s'⟩) fun _ =>
      ⟨hnow, fun hclosed => by rw [hopened] at hclosed; cases hclosed⟩
    refine Prog.Obeys.andThen (?_ : Prog.Obeys _ _ (Prog.Ends Settled Settled) _ _) fun _ _ ht => ht
    cases app.dialect with
    | sqlite => exact sqlite_accept_settles token user.id now hnext
    | postgres => exact pg_accept_settles token user.id now hnext
  · exact (hway.stop rfl rfl (Admission.not_proceeds (fun s _ => ⟨_, _, rfl⟩) s e s')).settled

/-- Whoever already has an account needs no registration. -/
theorem redeem_fresh (token : String) (user : UserRow) (session : Option String) (ht : Fresh t) :
    (redeem app token user session).Obeys H.machine (admissionProtocol H)
      (Prog.Ends Settled Settled) t := by
  have hcalls : (redeem app token user session).Calls (Writes fun w => w.creates = false) :=
    redeem_calls (fun w hw => by cases w <;> first | rfl | cases hw) _ _ _
  refine (fresh_obeys hcalls ht).mono fun t o h => ?_
  cases o <;> exact h.settled

theorem acceptAnonymously_settles (key : String) (invite : Invite) (req : AcceptInviteRequest)
    (drawn : Drawn) (ht : Early t) :
    (acceptAnonymously app key invite req drawn).Obeys H.machine (admissionProtocol H)
      (Prog.Ends Settled Settled) t := by
  have hresolve : (resolveOrRegisterInvitee app invite req drawn).Obeys H.machine
      (admissionProtocol H) (Prog.Ends Opened Stopped) t := by
    refine (early_obeys (lift_calls _) ht).andThen fun _ t ht => ?_
    refine (early_obeys (lift_calls _) ht).andThen fun credentials t ht => ?_
    refine (early_obeys (get_calls _) ht).andThen fun found t ht => ?_
    refine (resolveInvitee_obeys _ _ _ _ found ht).andThen fun user t ht => ?_
    exact (startSession_obeys _ _ ht).andThen fun _ _ ht => ht
  refine Prog.Obeys.resultThen hresolve (fun user t ht => ?_) (fun e t ht => ?_)
    fun t ht => ht.settled
  · obtain ⟨hway, hopened⟩ := ht
    refine Prog.Obeys.ask trivial (fun s r s' hstep => ?_) fun _ s e s' _ => ?_
    · refine redeem_settles _ _ _ ⟨hway.next rfl rfl fun _ => ⟨hstep, trivial⟩, ?_⟩
      exact (opened_next rfl).trans hopened
    · exact (hway.stop rfl rfl (Admission.not_proceeds (fun s _ => ⟨_, _, rfl⟩) s e s')).settled
  · have hguard : ∀ msg, ((guard (.failure key)).bind fun _ =>
        (Prog.fail (.auth msg) : Prog authCalls Error Response)).Obeys H.machine
          (admissionProtocol H) (Prog.Ends Settled Settled) t := fun msg =>
      Prog.Obeys.ask trivial (fun _ _ _ _ => (ht.next rfl rfl).settled)
        fun _ _ _ _ _ => (ht.next rfl rfl).settled
    cases e with
    | auth msg => exact hguard msg
    | _ => exact ht.settled

theorem InviteRequest.settles (r : InviteRequest) (ht : Early t) :
    (r.prog app).Obeys H.machine (admissionProtocol H) (Prog.Ends Settled Settled) t := by
  have hstop : ∀ {α : Type} {p : Prog authCalls Error α} {t : Admission}, p.Calls (Writes Aside) →
      Early t → p.Obeys H.machine (admissionProtocol H) (Prog.Ends Early Settled) t := by
    intro α p t hp ht
    refine (early_obeys hp ht).mono fun t o h => ?_
    cases o with
    | ok a => exact h
    | err e => exact h.settled
    | panic => exact h.settled
  refine (hstop (currentUser_calls r.cookies) ht).andThen fun current t ht => ?_
  refine (hstop (lift_calls _) ht).andThen fun _ t ht => ?_
  refine (hstop (loadUsableInvite_calls r.token) ht).andThen fun invite t ht => ?_
  refine (hstop (lift_calls _) ht).andThen fun _ t ht => ?_
  cases current with
  | some user => exact redeem_fresh _ _ _ ht.fresh
  | none =>
    refine (hstop (guard_calls _) ht).andThen fun decision t ht => ?_
    cases decision with
    | locked retryAfterSecs => exact ht.fresh.settled
    | allowed => exact acceptAnonymously_settles _ _ _ _ ht

def registered (p : Pool authCalls Error Server Response) : ℕ :=
  ((p.threads.filter fun th => th.rest.ended).map fun th => th.history.countP Registers).sum

theorem admission_after (h : List (Transition authCalls Error Server)) :
    ((admissionProtocol H).after t h).registered = t.registered + h.countP Registers ∧
      ((admissionProtocol H).after t h).consumed = t.consumed + h.countP Consumes := by
  induction h generalizing t with
  | nil => exact ⟨rfl, rfl⟩
  | cons e h ih =>
    refine ⟨ih.1.trans ?_, ih.2.trans ?_⟩
    · rw [List.countP_cons, Nat.add_comm (List.countP Registers h), ← Nat.add_assoc]
      rfl
    · rw [List.countP_cons, Nat.add_comm (List.countP Consumes h), ← Nat.add_assoc]
      rfl

theorem sum_filter_le {ι : Type} {as : List ι} {p : ι → Bool} {f g : ι → ℕ}
    (h : ∀ a ∈ as, p a = true → f a ≤ g a) : ((as.filter p).map f).sum ≤ (as.map g).sum := by
  induction as with
  | nil => exact le_rfl
  | cons a as ih =>
    have htail := ih fun b hb => h b (List.mem_cons_of_mem _ hb)
    rw [List.map_cons, List.sum_cons, List.filter_cons]
    split
    · rename_i ha
      rw [List.map_cons, List.sum_cons]
      exact Nat.add_le_add (h a List.mem_cons_self ha) htail
    · exact htail.trans (Nat.le_add_left _ _)

/-- In every interleaving of requests with each other and with anything else: a request that has ended
leaves an account without an invite exactly when it was obstructed after its registration; so when no
request is, the accounts of ended requests are at most as many as the invites consumed. -/
theorem accounts_le_consumed (H : Host) (app : AppState) (requests : List InviteRequest) (s : Server)
    (turns : List (Turn authCalls Error)) :
    let p := (Pool.start (requests.map (InviteRequest.prog app)) s).run H.machine turns
    (∀ th ∈ p.threads, th.rest.ended = true →
      (th.history.countP Registers ≤ th.history.countP Consumes ↔ Unobstructed H th.history)) ∧
      ((∀ th ∈ p.threads, Unobstructed H th.history) → registered p ≤ p.tally Consumes) := by
  intro p
  have hprogs : ∀ q ∈ requests.map (InviteRequest.prog app),
      q.Obeys H.machine (admissionProtocol H) (Prog.Ends Settled Settled) .start := by
    intro q hq
    obtain ⟨r, -, rfl⟩ := List.mem_map.mp hq
    exact r.settles ⟨⟨trivial, rfl⟩, rfl, rfl⟩
  have hobeys : p.Obeys H.machine (admissionProtocol H) (Prog.Ends Settled Settled) .start :=
    (Pool.Obeys.run_start (J := fun _ _ => True) (fun _ _ _ _ _ _ _ _ _ => trivial)
      (fun _ _ _ (_ : True) _ => trivial) hprogs trivial fun _ _ => trivial).1
  have hended : ∀ th ∈ p.threads, th.rest.ended = true →
      (th.history.countP Registers ≤ th.history.countP Consumes ↔ Unobstructed H th.history) := by
    intro th hth hended
    have hsettled : Settled ((admissionProtocol H).after .start th.history) := by
      have hend := hobeys th hth
      cases hrest : th.rest with
      | ret a => rwa [hrest] at hend
      | fail e => rwa [hrest] at hend
      | abort => rwa [hrest] at hend
      | call c next =>
        rw [hrest] at hended
        cases hended
    obtain ⟨hregistered, hconsumed⟩ := admission_after (H := H) (t := .start) th.history
    rw [Settled, hregistered, hconsumed, Admission.start, Nat.zero_add, Nat.zero_add] at hsettled
    exact hsettled.symm
  refine ⟨hended, fun hclear => sum_filter_le fun th hth hend => ?_⟩
  exact (hended th hth hend).mpr (hclear th hth)

def openInvite : Server :=
  { Server.new with
    db := { Accounts.new with
      teams := [⟨1, "web", .epoch, .epoch, none⟩]
      invites := [⟨"t", 1, .contributor, none, none, .epoch, .atSecond 60, none⟩]
      nextId := 2 } }

def invitee (email sessionId : String) : InviteRequest :=
  ⟨none, "t", "ip", ⟨some email, some "password", none⟩, ⟨sessionId, "1"⟩⟩

/-- Two strangers with one link: both register, and one of them finds the invite used up. -/
theorem two_accounts_one_invite :
    let p := (Pool.start ([invitee "ann@a.b" "s1", invitee "bob@a.b" "s2"].map
      (InviteRequest.prog (.plain .sqlite))) openInvite).run Host.plain.machine
        (List.replicate 12 [.thread 0 none, .thread 1 none]).flatten
    p.threads.all (fun th => th.rest.ended) = true ∧ registered p = 2 ∧ p.tally Consumes = 1 := by
  decide +kernel

end Soika.Auth
