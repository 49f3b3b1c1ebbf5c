import Soika.Adapters.AccountsSpec
import Soika.Auth.Calls
import Soika.Library.Protocol

/-! # Refused operations

An operation on accounts that is refused has changed no row. In PostgreSQL an acceptance
locks the row of its invite first, and writes with the commit.
-/

namespace Soika

/-- The rows of the tables, without the locks of open transactions. -/
def Accounts.rows (d : Accounts) : Accounts := { d with lockedInvites := [], settingsLocked := false }

namespace Auth

open Interaction Accounts

def KeepsRows (e : Transition authCalls Error Server) : Prop :=
  e.after.db.rows = e.before.db.rows

/-- The local state says that every call that is watched has left the rows alone. -/
def rowsProtocol (watched : AuthCall → Bool) : Protocol authCalls Error Server Prop :=
  Protocol.always (fun c => c.isSync = false) fun e => watched e.call = true → KeepsRows e

def Refusal {α : Type} : Prop → Interaction.Outcome Error α → Prop :=
  Prog.Ends (fun _ => True) fun unchanged => unchanged

variable {H : Host} {watched : AuthCall → Bool} {t : Prop} {α : Type}

theorem put_refusal {w : Write} (ht : t) :
    (put w).Obeys H.machine (rowsProtocol watched) Refusal t := by
  refine Prog.Obeys.ask_last rfl (fun _ _ _ _ => trivial) fun fault s e s' h => ⟨ht, fun _ => ?_⟩
  rw [KeepsRows, Host.answer_error rfl h]

theorem get_keepsRows {q : Query} {s s' : Server} {a : Except Error q.Reply} {fault : Option Error}
    (h : H.machine.answer (.query q) fault s = (a, s')) : KeepsRows ⟨s, .query q, a, s'⟩ := by
  obtain rfl : s = s' := by
    cases fault <;> exact congrArg Prod.snd h
  rfl

theorem rollback_keepsRows (token : String) (fault : Option Error) (s : Server) :
    KeepsRows (H.machine.transition (.write (.acceptRollback token)) fault s) := by
  cases fault <;> rfl

/-- In PostgreSQL an acceptance locks the row of its invite, and writes with the commit. -/
theorem pg_accept_refusal (token : String) (userId : Id) (now : Timestamp) (ht : t) :
    (pgRepositories.accept token userId now).Obeys H.machine (rowsProtocol watched) Refusal t := by
  refine Prog.Obeys.ask rfl ?_ fun fault s e s' h => ⟨ht, fun _ => ?_⟩
  · intro s invite s' hclaim
    have hrows : KeepsRows ⟨s, .write (.acceptClaim token now), .ok invite, s'⟩ := by
      obtain ⟨d, hrun, rfl⟩ := Host.runWrite_eq_ok.mp hclaim
      obtain ⟨-, -, rfl⟩ := acceptClaim_eq_ok.mp hrun
      rfl
    have hrollback : ∀ {t : Prop} {e : Error}, t → RollsBack (α := Unit) H.machine
        (rowsProtocol watched) Refusal (.acceptRollback token) t (.err e) :=
      fun ht => ⟨rfl, fun fault s => ⟨ht, fun _ => rollback_keepsRows token fault s⟩⟩
    refine orRollback_obeys (Prog.Obeys.ask rfl (fun s user s' h => ?_) fun fault s e s' h => ?_)
    · have hread := @get_keepsRows H _ _ _ _ none h
      cases Accounts.checkInvitee invite.email user with
      | error e => exact hrollback ⟨⟨ht, fun _ => hrows⟩, fun _ => hread⟩
      | ok u =>
        refine Prog.Obeys.ask_last rfl (fun _ _ _ _ => trivial) fun fault s e s' h => ?_
        refine hrollback ⟨⟨⟨ht, fun _ => hrows⟩, fun _ => hread⟩, fun _ => ?_⟩
        rw [KeepsRows, Host.answer_error rfl h]
    · exact hrollback ⟨⟨ht, fun _ => hrows⟩, fun _ => get_keepsRows h⟩
  · rw [KeepsRows, Host.answer_error rfl h]

theorem accept_refusal (dialect : Dialect) (token : String) (userId : Id) (now : Timestamp)
    (ht : t) : (dialect.repositories.accept token userId now).Obeys H.machine (rowsProtocol watched)
      Refusal t := by
  cases dialect with
  | sqlite => exact put_refusal ht
  | postgres => exact pg_accept_refusal token userId now ht

end Auth

end Soika
