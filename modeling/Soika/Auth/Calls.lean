import Soika.Api.Settings
import Soika.Auth.Handlers

/-! # What requests write

The transactions that a request can run, whatever its calls are answered.
-/

namespace Soika.Auth

open Interaction

def Writes (may : Write → Prop) : AuthCall → Prop
  | .write w => may w
  | .reconcileUser _ _ _ => False
  | _ => True

theorem Writes.isSync {may : Write → Prop} {c : AuthCall} (h : Writes may c) : c.isSync = false := by
  cases c with
  | reconcileUser userId groups occasion => exact h.elim
  | _ => rfl

/-- The steps of an acceptance. -/
def Write.accepts : Write → Bool
  | accept _ _ _ | acceptClaim _ _ | acceptCommit _ _ _ _ _ | acceptRollback _ => true
  | _ => false

def Write.setsUp : Write → Bool
  | createAccount _ true | setupLock | setupInsert _ | setupRollback => true
  | _ => false

variable {may : Write → Prop} {α : Type} {app : AppState}

theorem get_calls (q : Query) : (get q).Calls (Writes may) := Prog.Calls.ask trivial

theorem guard_calls (c : LoginGuard.Call) : (guard c).Calls (Writes may) := Prog.Calls.ask trivial

theorem put_calls {w : Write} (h : may w) : (put w).Calls (Writes may) := Prog.Calls.ask h

theorem lift_calls (x : Except Error α) : (lift x).Calls (Writes may) := by
  cases x <;> trivial

theorem orRollback_calls {rollback : Write} (h : may rollback) {p : Prog authCalls Error α}
    (hp : p.Calls (Writes may)) : (orRollback rollback p).Calls (Writes may) := by
  refine hp.result.bind fun r => ?_
  cases r with
  | error e => exact Prog.Calls.bind (p := Prog.attempt _) ⟨h, fun _ => trivial⟩ fun _ => trivial
  | ok a => trivial

theorem accept_calls (dialect : Dialect) (h : ∀ w : Write, w.accepts = true → may w) (token : String)
    (userId : Id) (now : Timestamp) :
    (dialect.repositories.accept token userId now).Calls (Writes may) := by
  cases dialect with
  | sqlite => exact put_calls (h _ rfl)
  | postgres =>
    refine (put_calls (h _ rfl)).bind fun invite => ?_
    refine orRollback_calls (h _ rfl) ?_
    refine (get_calls _).bind fun user => ?_
    exact (lift_calls _).bind fun _ => put_calls (h _ rfl)

theorem authenticateUser_calls (cookies : Option String) :
    (authenticateUser app cookies).Calls (Writes may) := by
  unfold authenticateUser
  split
  · trivial
  · refine (get_calls _).bind fun session => ?_
    split
    · trivial
    · refine (get_calls _).bind fun user => ?_
      split
      · trivial
      · exact lift_calls _

theorem currentUser_calls (cookies : Option String) : (currentUser app cookies).Calls (Writes may) :=
  (authenticateUser_calls cookies).result.bind fun _ => trivial

theorem adminUser_calls (cookies : Option String) : (adminUser app cookies).Calls (Writes may) := by
  refine (authenticateUser_calls cookies).bind fun user => ?_
  split <;> trivial

theorem startSession_calls (h : ∀ id userId expiresAt, may (.createSession id userId expiresAt))
    (sessionId : String) (userId : Id) : (startSession sessionId userId).Calls (Writes may) := by
  refine (get_calls _).bind fun now => ?_
  refine Prog.Calls.bind (p := Prog.orAbort _) ?_ fun expiresAt => put_calls (h ..)
  cases Timestamp.add now sessionTtl <;> trivial

theorem checkRegistration_role {email password displayName : String} {new : NewUser}
    (h : checkRegistration app email password displayName = .ok new) :
    new.instanceRole = .member := by
  simp only [checkRegistration, bind_eq_ok] at h
  obtain ⟨email, -, h⟩ := h
  split at h
  · cases h
  · simp only [bind_eq_ok] at h
    obtain ⟨_, -, displayName, -, h⟩ := h
    cases h
    rfl

theorem createUser_calls (hcreate : ∀ new : NewUser, new.instanceRole = .member →
    may (.createAccount new false)) (email password displayName : String) (drawn : Drawn) :
    (createUser app email password displayName drawn).Calls (Writes may) := by
  unfold createUser
  cases hnew : checkRegistration app email password displayName with
  | error e => trivial
  | ok new =>
    have hrole := checkRegistration_role hnew
    refine Prog.Calls.bind (get_calls _) fun found => ?_
    split
    · trivial
    · refine (get_calls _).bind fun passwordHash => ?_
      refine Prog.Calls.bind (put_calls (hcreate { new with passwordHash } hrole)) fun _ => ?_
      trivial

section

variable (hsession : ∀ id userId expiresAt, may (.createSession id userId expiresAt))
include hsession

section

variable (hcreate : ∀ new : NewUser, new.instanceRole = .member → may (.createAccount new false))
include hcreate

theorem register_calls (body : RegisterRequest) (drawn : Drawn) :
    (register app body drawn).Calls (Writes may) := by
  unfold register
  refine Prog.Calls.bind (lift_calls _) fun _ => Prog.Calls.bind (lift_calls _) fun _ => ?_
  split
  · trivial
  · refine Prog.Calls.bind (get_calls _) fun allowSignup => ?_
    split
    · trivial
    · refine Prog.Calls.bind (createUser_calls hcreate _ _ _ _) fun user => ?_
      refine Prog.Calls.bind (startSession_calls hsession _ _) fun _ => ?_
      trivial

omit hsession in
theorem resolveInvitee_calls (email password : String) (displayName : Option String)
    (drawn : Drawn) (found : Option UserRow) :
    (resolveInvitee app email password displayName drawn found).Calls (Writes may) := by
  cases found with
  | none =>
    simp only [resolveInvitee, registerInvitee]
    split
    · trivial
    · exact createUser_calls hcreate _ _ _ _
  | some existing =>
    simp only [resolveInvitee, authenticateInvitee]
    split_ifs
    · trivial
    · trivial
    · refine Prog.Calls.bind (get_calls _) fun verified => ?_
      split <;> trivial

theorem resolveOrRegisterInvitee_calls (app : AppState) (invite : Invite) (req : AcceptInviteRequest)
    (drawn : Drawn) : (resolveOrRegisterInvitee app invite req drawn).Calls (Writes may) := by
  unfold resolveOrRegisterInvitee
  refine Prog.Calls.bind (lift_calls _) fun _ => ?_
  refine Prog.Calls.bind (lift_calls _) fun credentials => ?_
  refine Prog.Calls.bind (get_calls _) fun found => ?_
  refine Prog.Calls.bind (resolveInvitee_calls hcreate _ _ _ _ found) fun user => ?_
  refine Prog.Calls.bind (startSession_calls hsession _ _) fun _ => ?_
  trivial

variable (haccept : ∀ w : Write, w.accepts = true → may w)
include haccept

omit hsession hcreate in
theorem redeem_calls (token : String) (user : UserRow) (session : Option String) :
    (redeem app token user session).Calls (Writes may) := by
  refine Prog.Calls.bind (get_calls _) fun now => ?_
  refine Prog.Calls.bind (accept_calls _ haccept _ _ _) fun _ => ?_
  trivial

omit hsession hcreate haccept in
theorem loadUsableInvite_calls (token : String) : (loadUsableInvite token).Calls (Writes may) := by
  refine Prog.Calls.bind (get_calls _) fun found => ?_
  split
  · trivial
  · refine Prog.Calls.bind (get_calls _) fun now => Prog.Calls.bind (lift_calls _) fun _ => ?_
    trivial

theorem acceptInvite_calls (cookies : Option String) (token ip : String)
    (req : AcceptInviteRequest) (drawn : Drawn) :
    (acceptInvite app cookies token ip req drawn).Calls (Writes may) := by
  unfold acceptInvite
  refine Prog.Calls.bind (currentUser_calls _) fun current => ?_
  refine Prog.Calls.bind (lift_calls _) fun _ => ?_
  refine Prog.Calls.bind (loadUsableInvite_calls token) fun invite => ?_
  refine Prog.Calls.bind (lift_calls _) fun _ => ?_
  split
  · exact redeem_calls haccept _ _ _
  · refine Prog.Calls.bind (guard_calls _) fun decision => ?_
    split
    · trivial
    · unfold acceptAnonymously
      refine Prog.Calls.bind (resolveOrRegisterInvitee_calls hsession hcreate _ _ _ _).result
        fun result => ?_
      split
      · exact Prog.Calls.bind (guard_calls _) fun _ => redeem_calls haccept _ _ _
      · refine Prog.Calls.bind (guard_calls _) fun _ => ?_
        trivial
      · trivial

end

end

end Soika.Auth
