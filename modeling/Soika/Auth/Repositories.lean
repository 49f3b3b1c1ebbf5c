import Soika.Auth.Server
import Soika.Library.Protocol

/-! # Account repositories

The operations of the repositories that take more than one call: writes that read their
row back, and the two transactions that PostgreSQL runs in several steps.
-/

namespace Soika.Auth

open Interaction

variable {α : Type}

/-- `update` -/
def updateUser (id : Id) (update : UserUpdate) : Prog authCalls Error UserRow := do
  put (.updateUser id update)
  match ← get (.findUserById id) with
  | some user => return user
  | none => Prog.fail (.notFound s!"user not found: {id}")

/-- `convert_to_sso` -/
def convertToSso (id : Id) : Prog authCalls Error UserRow := do
  put (.convertToSso id)
  match ← get (.findUserById id) with
  | some user => return user
  | none => Prog.fail (.notFound "user not found")

structure Repositories where
  createInitialOwner : NewUser → Prog authCalls Error UserRow
  accept : String → Id → Timestamp → Prog authCalls Error Unit

def mustBeOwner (new : NewUser) : Except Error Unit :=
  if new.instanceRole ≠ .owner then .error (.validation "initial account must be an owner")
  else .ok ()

def sqliteRepositories : Repositories where
  createInitialOwner new := do
    lift (mustBeOwner new)
    put (.createAccount new true)
  accept token userId now := put (.accept token userId now)

/-- The rest of an open transaction, which is rolled back when it fails. -/
def orRollback (rollback : Write) (p : Prog authCalls Error α) : Prog authCalls Error α := do
  match ← p.result with
  | .ok a => return a
  | .error e =>
    let _ ← Prog.attempt (S := authCalls) (.write rollback)
    Prog.fail e

def pgRepositories : Repositories where
  createInitialOwner new := do
    lift (mustBeOwner new)
    put .setupLock
    orRollback .setupRollback (put (.setupInsert new))
  accept token userId now := do
    let invite ← put (.acceptClaim token now)
    orRollback (.acceptRollback token) do
      let user ← get (.findUserById userId)
      lift (Accounts.checkInvitee invite.email user)
      put (.acceptCommit token invite.teamId userId invite.role now)

/-- How the body of a transaction ends: regularly, or before a rollback. -/
def RollsBack {τ : Type} (m : Machine authCalls Error Server) (P : Protocol authCalls Error Server τ)
    (Q : τ → Interaction.Outcome Error α → Prop) (rollback : Write) (t : τ) : Interaction.Outcome Error α → Prop
  | .err e => P.may t (.write rollback) ∧
      ∀ fault s, Q (P.next t (m.transition (.write rollback) fault s)) (.err e)
  | o => Q t o

theorem orRollback_obeys {τ : Type} {m : Machine authCalls Error Server}
    {P : Protocol authCalls Error Server τ} {Q : τ → Interaction.Outcome Error α → Prop} {rollback : Write}
    {p : Prog authCalls Error α} {t : τ} (hp : p.Obeys m P (RollsBack m P Q rollback) t) :
    (orRollback rollback p).Obeys m P Q t := by
  refine Prog.Obeys.result (hp.mono fun t o h => ?_)
  cases o with
  | ok a => exact h
  | err e => exact h
  | panic => exact h

inductive Dialect where
  | sqlite
  | postgres

def Dialect.repositories : Dialect → Repositories
  | sqlite => sqliteRepositories
  | postgres => pgRepositories

def Dialect.backend (assignDefaultTeams : Bool) : Dialect → AccountBackend
  | sqlite => sqliteAccounts assignDefaultTeams
  | postgres => postgresAccounts assignDefaultTeams

end Soika.Auth
