import Soika.Adapters.Accounts
import Soika.Auth.Lockout
import Soika.ConfigSync.Apply
import Soika.Library.Prog

/-! # The server's state

What the requests of a server share: the database, the login guard and the clocks. A call
reads it, records a credential check, runs one transaction, or lets time pass.
-/

namespace Soika.Auth

open Interaction

/-- `argon2`, with the salt that is drawn for a hash. -/
structure Argon2 where
  hashPassword : String → String → Except Error String
  verifyPassword : String → String → Except Error Bool

namespace Argon2

variable (A : Argon2)

def hash (salt password : String) : Except Error String :=
  if password = "" then .error (.validation "password must not be empty")
  else A.hashPassword salt password

/-- Verify a plaintext password against a stored hash. -/
def verify (password stored : String) : Except Error Bool :=
  if stored = "" then .ok false else A.verifyPassword password stored

end Argon2

structure Server where
  db : Accounts
  loginGuard : Entries
  /-- The monotonic clock. -/
  instant : ℕ
  /-- The wall clock. -/
  clock : Timestamp

/-- A server that has just started on a new database. -/
def Server.new : Server := ⟨.new, .empty, 0, .epoch⟩

inductive Query where
  | now
  | hashPassword (salt password : String)
  | verifyPassword (password stored : String)
  | verifyDummy (password : String)
  | findUserById (id : Id)
  | findUserByEmail (email : String)
  | countOwners
  | findSession (id : String)
  | memberRole (teamId userId : Id)
  | findInvite (token : String)
  | findPasskey (credentialId : String)
  | passkeysOf (userId : Id)
  | allowSignup

def Query.Reply : Query → Type
  | now => Timestamp
  | hashPassword _ _ => String
  | verifyPassword _ _ => Bool
  | verifyDummy _ => Unit
  | findUserById _ => Option UserRow
  | findUserByEmail _ => Option UserRow
  | countOwners => ℕ
  | findSession _ => Option SessionRow
  | memberRole _ _ => Option TeamRole
  | findInvite _ => Option Invite
  | findPasskey _ => Option PasskeyRow
  | passkeysOf _ => List PasskeyRow
  | allowSignup => Bool

def Query.eval (A : Argon2) (B : AccountBackend) (s : Server) : (q : Query) → Except Error q.Reply
  | now => .ok s.clock
  | hashPassword salt password => A.hash salt password
  | verifyPassword password stored => A.verify password stored
  | verifyDummy _ => .ok ()
  | findUserById id => .ok (s.db.userById id)
  | findUserByEmail email => .ok (s.db.userByEmail email)
  | countOwners => .ok s.db.countOwners
  | findSession id => .ok (s.db.findSession B id s.clock)
  | memberRole teamId userId => .ok ((s.db.memberOf teamId userId).map TeamMember.role)
  | findInvite token => .ok (s.db.inviteByToken token)
  | findPasskey credentialId => .ok (s.db.passkeyByCredentialId credentialId)
  | passkeysOf userId => .ok (s.db.passkeysOf userId)
  | allowSignup => .ok s.db.allowSignup

/-- The transactions, and the parts of one that PostgreSQL runs under a lock of one row. -/
inductive Write where
  | createAccount (new : NewUser) (initialOwner : Bool)
  | setupLock
  | setupInsert (new : NewUser)
  | setupRollback
  | updateUser (id : Id) (update : UserUpdate)
  | setInstanceRole (id : Id) (role : InstanceRole)
  | deleteUser (id : Id)
  | convertToSso (id : Id)
  | createSession (id : String) (userId : Id) (expiresAt : Timestamp)
  | deleteSession (id : String)
  | deleteSessionsForUser (userId : Id)
  | addMember (teamId userId : Id) (role : TeamRole)
  | setMemberRole (teamId userId : Id) (role : TeamRole)
  | removeMember (teamId userId : Id)
  | deleteTeam (id : Id) (moveProjectsTo : Option Id)
  | createInvite (new : NewInvite)
  | deleteInvite (token : String)
  | accept (token : String) (userId : Id) (now : Timestamp)
  | acceptClaim (token : String) (now : Timestamp)
  | acceptCommit (token : String) (teamId userId : Id) (role : TeamRole) (now : Timestamp)
  | acceptRollback (token : String)
  | createPasskey (new : NewPasskey)
  | touchPasskey (id : Id) (credential : String) (usedAt : Timestamp)
  | deletePasskey (userId id : Id)
  | createChallenge (dropped : List String) (id purpose state : String) (expiresAt : Timestamp)
  | takeChallenge (id purpose : String) (now : Timestamp)
  | setOrgName (name : String)

def Write.Reply : Write → Type
  | createAccount _ _ => UserRow
  | setupInsert _ => UserRow
  | setInstanceRole _ _ => UserRow
  | createSession _ _ _ => SessionRow
  | createInvite _ => Invite
  | acceptClaim _ _ => Invite
  | createPasskey _ => PasskeyRow
  | takeChallenge _ _ _ => Option String
  | _ => Unit

/-- One attempt at a write, at the time of the adapter's own clock. -/
def Write.run (B : AccountBackend) (now : Timestamp) (d : Accounts) :
    (w : Write) → Except Error (w.Reply × Accounts)
  | createAccount new initialOwner => d.createAccount B new initialOwner now
  | setupLock => d.setupLock
  | setupInsert new => d.setupInsert B new now
  | setupRollback => .ok ((), d.setupRollback)
  | updateUser id update => d.updateUser id update
  | setInstanceRole id role => d.setInstanceRole id role
  | deleteUser id => d.deleteUser id
  | convertToSso id => d.convertToSso id
  | createSession id userId expiresAt => d.createSession B id userId expiresAt now
  | deleteSession id => .ok ((), d.deleteSession id)
  | deleteSessionsForUser userId => .ok ((), d.deleteSessionsForUser userId)
  | addMember teamId userId role => d.addMember B teamId userId role now
  | setMemberRole teamId userId role => d.setMemberRole teamId userId role
  | removeMember teamId userId => d.removeMember teamId userId
  | deleteTeam id moveProjectsTo => d.deleteTeam id moveProjectsTo
  | createInvite new => d.createInvite B new now
  | deleteInvite token => d.deleteInvite token
  | accept token userId now => d.accept B token userId now
  | acceptClaim token now => d.acceptClaim B token now
  | acceptCommit token teamId userId role now => d.acceptCommit B token teamId userId role now
  | acceptRollback token => .ok ((), d.acceptRollback token)
  | createPasskey new => d.createPasskey B new now
  | touchPasskey id credential usedAt => .ok ((), d.touchPasskey B id credential usedAt)
  | deletePasskey userId id => d.deletePasskey userId id
  | createChallenge dropped id purpose state expiresAt =>
    d.createChallenge B dropped id purpose state expiresAt now
  | takeChallenge id purpose now => .ok (d.takeChallenge B id purpose now)
  | setOrgName name => d.setOrgName name

inductive AuthCall where
  | query (q : Query)
  | guard (c : LoginGuard.Call)
  | write (w : Write)
  /-- `reconcile_user`, in the circumstances that the number stands for. -/
  | reconcileUser (userId : Id) (groups : List String) (occasion : ℕ)
  /-- The clocks go on: the monotonic one by so much, and the other to that instant. -/
  | advance (elapsed : ℕ) (clock : Timestamp)

def AuthCall.isSync : AuthCall → Bool
  | reconcileUser _ _ _ => true
  | _ => false

def AuthCall.Reply : AuthCall → Type
  | query q => q.Reply
  | guard (.check _) => LockoutDecision
  | guard _ => Unit
  | write w => w.Reply
  | reconcileUser _ _ _ => Bool
  | advance _ _ => Unit

abbrev authCalls : Signature := ⟨AuthCall, AuthCall.Reply⟩

/-- What the process runs on: its guard, its database, and the circumstances of its syncs. -/
structure Host where
  argon2 : Argon2
  backend : AccountBackend
  lockout : LockoutConfig
  sync : ℕ → Id → List String → Directory → Except Error Bool × Directory

namespace Host

variable (H : Host)

def guardReply (key : LoginGuard.Call) (s : Server) : AuthCall.Reply (.guard key) :=
  match key with
  | .check key => LoginGuard.checkAt H.lockout key s.instant s.loginGuard
  | .failure _ => ()
  | .success _ => ()

-- a failure that panics ends the process, so the calls of a run return
def guardStep (c : LoginGuard.Call) (s : Server) : Server :=
  { s with loginGuard := LoginGuard.step H.lockout s.loginGuard (s.instant, c) }

def runWrite (w : Write) (s : Server) : Except Error w.Reply × Server :=
  match w.run H.backend s.clock s.db with
  | .ok (r, d) => (.ok r, { s with db := d })
  | .error e => (.error e, s)

def runSync (userId : Id) (groups : List String) (occasion : ℕ) (s : Server) :
    Except Error Bool × Server :=
  let (r, d) := H.sync occasion userId groups s.db.toDirectory
  (r, { s with db := { s.db with toDirectory := d } })

def machine : Machine authCalls Error Server where
  step
    | .query q, s => (q.eval H.argon2 H.backend s, s)
    | .guard c, s => (.ok (H.guardReply c s), H.guardStep c s)
    | .write w, s => H.runWrite w s
    | .reconcileUser userId groups occasion, s => H.runSync userId groups occasion s
    | .advance elapsed clock, s => (.ok (), { s with instant := s.instant + elapsed, clock })

variable {H} {s s' : Server}

theorem runWrite_eq_ok {w : Write} {r : w.Reply} :
    H.runWrite w s = (.ok r, s') ↔
      ∃ d, w.run H.backend s.clock s.db = .ok (r, d) ∧ s' = { s with db := d } := by
  unfold runWrite
  rcases w.run H.backend s.clock s.db with e | ⟨r', d⟩
  · simp
  · simp only [Prod.mk.injEq, Except.ok.injEq]
    exact ⟨fun ⟨hr, hs⟩ => ⟨d, ⟨hr, rfl⟩, hs.symm⟩, fun ⟨d', ⟨hr, hd⟩, hs⟩ => ⟨hr, hd ▸ hs.symm⟩⟩

theorem runWrite_eq_error {w : Write} {e : Error} (h : H.runWrite w s = (.error e, s')) :
    s' = s := by
  unfold runWrite at h
  split at h
  · cases h
  · exact (congrArg Prod.snd h).symm

theorem runWrite_state (w : Write) (s : Server) :
    (H.runWrite w s).2 = s ∨ ∃ r d, w.run H.backend s.clock s.db = .ok (r, d) ∧
      (H.runWrite w s).2 = { s with db := d } := by
  rcases h : H.runWrite w s with ⟨e | r, s'⟩
  · exact .inl (runWrite_eq_error h)
  · obtain ⟨d, hd, rfl⟩ := runWrite_eq_ok.mp h
    exact .inr ⟨r, d, hd, rfl⟩

@[simp] theorem machine_query (q : Query) (s : Server) :
    H.machine.step (.query q) s = (q.eval H.argon2 H.backend s, s) := rfl

@[simp] theorem machine_guard (c : LoginGuard.Call) (s : Server) :
    H.machine.step (.guard c) s = (.ok (H.guardReply c s), H.guardStep c s) := rfl

@[simp] theorem machine_write (w : Write) (s : Server) :
    H.machine.step (.write w) s = H.runWrite w s := rfl

@[simp] theorem machine_reconcileUser (userId : Id) (groups : List String) (occasion : ℕ)
    (s : Server) : H.machine.step (.reconcileUser userId groups occasion) s =
      H.runSync userId groups occasion s := rfl

@[simp] theorem machine_advance (elapsed : ℕ) (clock : Timestamp) (s : Server) :
    H.machine.step (.advance elapsed clock) s =
      (.ok (), { s with instant := s.instant + elapsed, clock }) := rfl

theorem answer_error {c : AuthCall} (hc : c.isSync = false) {fault : Option Error} {e : Error}
    (h : H.machine.answer c fault s = (.error e, s')) : s' = s := by
  cases fault with
  | some f => exact (congrArg Prod.snd h).symm
  | none =>
    cases c with
    | query q => exact (congrArg Prod.snd h).symm
    | guard k => cases h
    | write w => exact runWrite_eq_error h
    | reconcileUser userId groups occasion => cases hc
    | advance elapsed clock => cases h

/-- What no transaction of a write can break on the database, no call can but a sync. -/
theorem step_db {I : Accounts → Prop}
    (hwrite : ∀ (w : Write) (r : w.Reply) (now : Timestamp) (d d' : Accounts),
      w.run H.backend now d = .ok (r, d') → I d → I d') {c : AuthCall} (hc : c.isSync = false) (h : I s.db) : I (H.machine.step c s).2.db := by
  cases c with
  | query q => exact h
  | guard k => exact h
  | write w =>
    rcases runWrite_state (H := H) w s with hs | ⟨r, d, hrun, hs⟩
    · rwa [machine_write, hs]
    · rw [machine_write, hs]
      exact hwrite w r _ _ _ hrun h
  | reconcileUser userId groups occasion => cases hc
  | advance elapsed clock => exact h

theorem answer_db {I : Accounts → Prop}
    (hwrite : ∀ (w : Write) (r : w.Reply) (now : Timestamp) (d d' : Accounts),
      w.run H.backend now d = .ok (r, d') → I d → I d') {c : AuthCall} (hc : c.isSync = false) (fault : Option Error) (h : I s.db) :
    I (H.machine.answer c fault s).2.db := by
  rcases H.machine.answer_state c fault s with hs | hs
  · rwa [hs]
  · rw [hs]
    exact step_db hwrite hc h

end Host

/-- Stands in for `argon2` in examples: a hash shows its password. -/
def Argon2.plain : Argon2 where
  hashPassword salt password := .ok ("$" ++ salt ++ "$" ++ password)
  verifyPassword password stored := .ok (("$" ++ password).toList.isSuffixOf stored.toList)

/-- A host for examples, which locks a key for a minute after three failures. -/
def Host.plain : Host where
  argon2 := .plain
  backend := sqliteAccounts true
  lockout := LoginGuard.threeAttempts
  sync _ _ _ d := (.ok false, d)

variable {α : Type}

def get (q : Query) : Prog authCalls Error q.Reply := Prog.ask (S := authCalls) (.query q)

def guard (c : LoginGuard.Call) : Prog authCalls Error (AuthCall.Reply (.guard c)) :=
  Prog.ask (S := authCalls) (.guard c)

def put (w : Write) : Prog authCalls Error w.Reply := Prog.ask (S := authCalls) (.write w)

/-- The value of a computation that makes no call. -/
def lift : Except Error α → Prog authCalls Error α
  | .ok a => .ret a
  | .error e => .fail e

end Soika.Auth
