import Soika.ConfigSync.Apply

/-! # Reconciliation of one user

The grants of the configuration file are applied to a user at sign-in. The users themselves stay
as they are.
-/

namespace Soika

open Transaction

variable {P : Platform} {d₀ : Directory} {α : Type}

structure SameUsers (d d' : Directory) : Prop where
  users : d'.users = d.users
  nextId : d'.nextId = d.nextId

theorem SameUsers.refl (d : Directory) : SameUsers d d := ⟨rfl, rfl⟩

theorem SameUsers.trans {d d' d'' : Directory} (h : SameUsers d d') (h' : SameUsers d' d'') :
    SameUsers d d'' :=
  ⟨h'.users.trans h.users, h'.nextId.trans h.nextId⟩

/-- The transaction does not touch the users, and makes no row that has an id. -/
def KeepsUsers (d₀ : Directory) (tx : SyncTx α) : Prop :=
  ∀ s, SameUsers d₀ s.db →
    Ensures (fun _ => True) (fun _ => True) tx (fun _ s' => SameUsers d₀ s'.db) s

theorem keepsUsers_execute {f : SyncWorld → Directory → Except Error (α × Directory)}
    (hf : ∀ w d a d', f w d = .ok (a, d') → SameUsers d d') :
    KeepsUsers d₀ (ConfigSync.execute f) := by
  intro s hs
  refine Ensures.statement ?_ fun _ _ _ _ => trivial
  intro w a s' _ hrun
  cases hfault : w.fault with
  | some e => simp [hfault] at hrun
  | none =>
    simp only [hfault] at hrun
    split at hrun
    · rename_i b d hb
      cases hrun
      exact hs.trans (hf w _ _ _ hb)
    · cases hrun

theorem keepsUsers_bind {β : Type} {tx : SyncTx α} {f : α → SyncTx β} (htx : KeepsUsers d₀ tx)
    (hf : ∀ a, KeepsUsers d₀ (f a)) : KeepsUsers d₀ (tx >>= f) := by
  intro s hs
  exact (htx s hs).bind fun a s' hs' => hf a s' hs'

theorem keepsUsers_fold {β ι : Type} {f : β → ι → SyncTx β} {b : β} {xs : List ι}
    (hf : ∀ b x, KeepsUsers d₀ (f b x)) : KeepsUsers d₀ (Transaction.fold f b xs) := by
  intro s hs
  exact Ensures.fold (I := fun _ s' => SameUsers d₀ s'.db) hs fun b before x after t _ ht =>
    hf b x t ht

theorem keepsUsers_fetch (value : Directory → α) : KeepsUsers d₀ (ConfigSync.fetch value) := by
  apply keepsUsers_execute
  rintro w d _ _ ⟨⟩
  exact .refl d

theorem keepsUsers_select (rows : Directory → List α) :
    KeepsUsers d₀ (ConfigSync.select rows) := by
  apply keepsUsers_execute
  rintro w d _ _ ⟨⟩
  exact .refl d

theorem keepsUsers_update {f : Directory → Directory} (hf : ∀ d, SameUsers d (f d)) :
    KeepsUsers d₀ (ConfigSync.update f) := by
  apply keepsUsers_execute
  rintro w d _ _ ⟨⟩
  exact hf d

theorem keepsUsers_pure (a : α) : KeepsUsers d₀ (pure a) := fun _ hs => .ret hs

theorem keepsUsers_reconcile (team user : Id) (email : String) (now : Timestamp) :
    KeepsUsers d₀ (ConfigSync.reconcile P team user email now) := by
  apply keepsUsers_bind
  · exact keepsUsers_select _
  intro roles
  apply keepsUsers_bind
  · exact keepsUsers_update fun _ => ⟨rfl, rfl⟩
  intro _
  exact keepsUsers_pure _

theorem keepsUsers_insertSsoGroup (g : UserSsoGroup) :
    KeepsUsers d₀ (ConfigSync.insertSsoGroup P g) := by
  apply keepsUsers_execute
  intro w d _ d' hrun
  split at hrun
  · cases hrun
  · split at hrun
    · cases hrun
    · cases hrun
      exact ⟨rfl, rfl⟩

theorem keepsUsers_reconcileUserOnce (user : Id) (groups : List String) (now : Timestamp) :
    KeepsUsers d₀ (ConfigSync.reconcileUserOnce P user groups now) := by
  apply keepsUsers_bind
  · exact keepsUsers_update fun _ => ⟨rfl, rfl⟩
  intro _
  apply keepsUsers_bind
  · exact keepsUsers_fold fun _ group => keepsUsers_insertSsoGroup _
  intro _
  apply keepsUsers_bind
  · exact keepsUsers_fetch _
  intro row
  cases row with
  | none => exact fun _ _ => .fail trivial
  | some row =>
    apply keepsUsers_bind
    · exact keepsUsers_select _
    intro teams
    apply keepsUsers_bind
    · apply keepsUsers_fold
      intro granted team
      exact keepsUsers_bind (keepsUsers_reconcile _ _ _ _) fun _ => keepsUsers_pure _
    intro granted
    exact keepsUsers_bind (keepsUsers_fetch _) fun _ => keepsUsers_pure _

theorem attempt_error {tx : ConfigSync.Attempt → SyncTx α} {a : ConfigSync.Attempt}
    {d d' : Directory} {e : Error} (hrun : ConfigSync.attempt tx a d = (.error e, d')) : d' = d := by
  rw [ConfigSync.attempt] at hrun
  rcases hcommit : (tx a).commit a.worlds ⟨d, .empty⟩ with ⟨e' | r, s'⟩
  · obtain rfl := Transaction.commit_error hcommit
    simp only [hcommit, Prod.mk.injEq] at hrun
    exact hrun.2.symm
  · simp [hcommit] at hrun

theorem attempt_users {tx : ConfigSync.Attempt → SyncTx α} {a : ConfigSync.Attempt} {d d' : Directory}
    {r : α} (htx : KeepsUsers d (tx a)) (hrun : ConfigSync.attempt tx a d = (.ok r, d')) :
    SameUsers d d' := by
  obtain ⟨hok, -⟩ := (htx ⟨d, .empty⟩ (.refl d)).commit (fun n : ℕ => trivial)
  rw [ConfigSync.attempt] at hrun
  rcases hcommit : (tx a).commit a.worlds ⟨d, .empty⟩ with ⟨e | r', s'⟩
  · simp [hcommit] at hrun
  · simp only [hcommit, Prod.mk.injEq] at hrun
    rw [← hrun.2]
    exact hok r' s' hcommit

theorem ConfigSync.reconcileUser_users (write : WritePolicy) (user : Id) (groups : List String)
    (attempts : ℕ → ConfigSync.Attempt) (d : Directory) :
    SameUsers d (ConfigSync.reconcileUser P write user groups attempts d).2 := by
  have hcases := @retryFrom_cases _ _ "reconcile SSO grants"
    (fun n => attempt (fun a => reconcileUserOnce P user groups a.now) (attempts n))
    (fun n d e d' hrun => attempt_error hrun) write.maxRetries 0 d
  rw [reconcileUser, retryWrite]
  rcases hcases with ⟨n, a, d', hrun, hretry⟩ | ⟨e, hretry⟩
  · rw [hretry]
    exact attempt_users (keepsUsers_reconcileUserOnce _ _ _) hrun
  · rw [hretry]
    exact .refl d

end Soika
