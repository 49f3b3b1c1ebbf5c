import Soika.Adapters.AccountsFrame
import Soika.Api.Confinement

/-! # Owners

Only an owner makes or unmakes an owner. Whatever the managers and everyone else request, and in
whatever order their calls come, the accounts of the owners stay as they are.
-/

namespace Soika.Site

open Table Interaction Auth

/-- The accounts that own the instance, by their stored role or by the configuration. -/
def effectiveOwners (app : AppState) (d : Accounts) : List UserRow :=
  d.users.filter fun user => (app.adminUsers.apply user).instanceRole.isOwner

/-- The owners are these accounts, and the sessions that are presented are of other people. -/
structure OwnedBy (app : AppState) (presented : String → Prop) (people : Id → Prop)
    (owners : List UserRow) (s : Server) : Prop where
  userIds : UniqueOn UserRow.id s.db.users
  sessions : ∀ session ∈ s.db.sessions, presented session.id → people session.userId
  owners : effectiveOwners app s.db = owners

section Readings

variable {H : SiteHost} {I : Server → Prop} {h : SiteHistory} (hw : Witnessed H.site I h)
  {app : AppState} {presented : String → Prop} {people : Id → Prop} {owners : List UserRow}
  (hI : ∀ s, I s → OwnedBy app presented people owners s) (hpeople : ∀ u ∈ owners, ¬ people u.id)
include hw hI hpeople

theorem not_owns : ¬ Owns app presented (Told h) := by
  rintro ⟨user, ⟨sessionId, session, stored, hpresented, hsession, hstored, hadmitted⟩, howner⟩
  obtain ⟨s₁, hs₁, hfound⟩ := Told.at hw hsession
  obtain ⟨hlookup, -⟩ := Option.filter_eq_some_iff.mp (Except.ok.inj hfound)
  obtain ⟨hmem, hid⟩ := lookup_eq_some_mem hlookup
  obtain ⟨s₂, hs₂, huser⟩ := Told.at hw hstored
  obtain ⟨hstoredMem, hstoredId⟩ := Accounts.userById_mem (Except.ok.inj huser)
  obtain ⟨-, -, rfl⟩ := admission_eq_ok.mp hadmitted
  apply hpeople stored
  · rw [← (hI s₂ hs₂).owners]
    exact List.mem_filter.mpr ⟨hstoredMem, howner⟩
  · rw [hstoredId]
    exact (hI s₁ hs₁).sessions session hmem (hid.symm ▸ hpresented)

theorem MayAdminister.not_owner {id : Id} (ha : MayAdminister app presented (Told h) id) :
    ∀ u ∈ owners, u.id ≠ id := by
  obtain ⟨-, howns | ⟨target, htarget, hrole⟩⟩ := ha
  · exact absurd howns (not_owns hw hI hpeople)
  · rintro u hu rfl
    obtain ⟨s, hs, hreply⟩ := Told.at hw htarget
    obtain ⟨hmem, hid⟩ := Accounts.userById_mem (Except.ok.inj hreply)
    rw [← (hI s hs).owners] at hu
    obtain ⟨huser, howner⟩ := List.mem_filter.mp hu
    obtain rfl := (hI s hs).userIds.eq_of_key huser hmem hid.symm
    rw [hrole] at howner
    cases howner

end Readings

section Writes

variable {B : AccountBackend} {d d' : Accounts} {app : AppState} {id : Id} {now : Timestamp}

theorem effectiveOwners_modifyUser {f : UserRow → UserRow} (hid : ∀ u ∈ effectiveOwners app d, u.id ≠ id)
    (hf : ∀ u, (app.adminUsers.apply u).instanceRole.isOwner = false →
      (app.adminUsers.apply (f u)).instanceRole.isOwner = false) :
    effectiveOwners app (d.modifyUser id f) = effectiveOwners app d := by
  apply filter_modify
  rintro u hu rfl
  have hnone : (app.adminUsers.apply u).instanceRole.isOwner = false := by
    cases howner : (app.adminUsers.apply u).instanceRole.isOwner with
    | false => rfl
    | true => exact absurd rfl (hid u (List.mem_filter.mpr ⟨hu, howner⟩))
  exact ⟨hnone, hf u hnone⟩

theorem effectiveOwners_removeUser (hid : ∀ u ∈ effectiveOwners app d, u.id ≠ id) :
    effectiveOwners app (d.removeUser id) = effectiveOwners app d := by
  apply filter_remove
  rintro u hu rfl
  cases howner : (app.adminUsers.apply u).instanceRole.isOwner with
  | false => rfl
  | true => exact absurd rfl (hid u (List.mem_filter.mpr ⟨hu, howner⟩))

theorem runOn_accounts (H : SiteHost) (now : Timestamp) (d : Accounts) (w : SiteWrite) :
    (H.runOn now d w).2.users = d.users ∧ (H.runOn now d w).2.sessions = d.sessions := by
  have hsettle : ∀ {α : Type} (x : Except Error (α × Accounts)),
      (∀ a d', x = .ok (a, d') → d'.users = d.users ∧ d'.sessions = d.sessions) →
      (d.settle x).2.users = d.users ∧ (d.settle x).2.sessions = d.sessions := by
    intro α x hx
    rcases Accounts.settle_state (d := d) x with hstate | ⟨a, hok⟩
    · rw [hstate]
      exact ⟨rfl, rfl⟩
    · exact hx a _ hok
  cases w with
  | insertProject new shortId =>
    apply hsettle
    intro a d' hok
    obtain ⟨-, -, -, rfl⟩ := Accounts.insertProject_eq_ok.mp hok
    exact ⟨rfl, rfl⟩
  | updateProject id u =>
    apply hsettle
    intro a d' hok
    obtain ⟨-, -, -, -, rfl⟩ := Accounts.updateProject_eq_ok.mp hok
    exact ⟨rfl, rfl⟩
  | regenerateDsn id key =>
    apply hsettle
    intro a d' hok
    obtain ⟨-, -, -, -, rfl⟩ := Accounts.regenerateDsn_eq_ok.mp hok
    exact ⟨rfl, rfl⟩
  | addFavorite userId projectId =>
    apply hsettle
    intro a d' hok
    obtain ⟨-, rfl⟩ := Accounts.addFavorite_eq_ok.mp hok
    exact ⟨rfl, rfl⟩
  | createTeam name =>
    apply hsettle
    intro a d' hok
    obtain ⟨-, -, rfl⟩ := Accounts.createTeam_eq_ok.mp hok
    exact ⟨rfl, rfl⟩
  | renameTeam id name =>
    apply hsettle
    intro a d' hok
    obtain ⟨-, -, -, rfl⟩ := Accounts.renameTeam_eq_ok.mp hok
    exact ⟨rfl, rfl⟩
  | _ => exact ⟨rfl, rfl⟩

end Writes

section Steps

variable {H : SiteHost} {I : Server → Prop} {h : SiteHistory} (hw : Witnessed H.site I h)
  {app : AppState} {presented : String → Prop} {people : Id → Prop} {owners : List UserRow}
  (hI : ∀ s, I s → OwnedBy app presented people owners s) (hpeople : ∀ u ∈ owners, ¬ people u.id)
include hw hI hpeople

theorem change_owners {s : Server} (hs : I s) {w : Auth.Write}
    (hmay : PermitsChange app presented (Told h) w) {now : Timestamp} {r : w.Reply} {s' : Server}
    (hrun : w.run H.backend now s.db = .ok (r, s'.db)) : OwnedBy app presented people owners s' := by
  obtain ⟨huserIds, hsessions, howners⟩ := hI s hs
  obtain ⟨hframe, -⟩ := Auth.Write.frame_and_ids hrun
  -- the accounts may change, and sessions may go
  have hkeep : ∀ (hids : UniqueOn UserRow.id s'.db.users)
      (hsub : ∀ session ∈ s'.db.sessions, session ∈ s.db.sessions)
      (hsame : effectiveOwners app s'.db = effectiveOwners app s.db),
      OwnedBy app presented people owners s' := fun hids hsub hsame =>
    ⟨hids, fun session hmem => hsessions session (hsub session hmem), hsame.trans howners⟩
  have hsame : w.touchesUsers = false → w.touchesSessions = false →
      OwnedBy app presented people owners s' := by
    intro husers hsess
    have heq := hframe.users husers
    apply hkeep
    · rwa [heq]
    · rw [hframe.sessions hsess]
      exact fun _ hmem => hmem
    · unfold effectiveOwners
      rw [heq]
  have hnot : ∀ id, MayAdminister app presented (Told h) id →
      ∀ u ∈ effectiveOwners app s.db, u.id ≠ id := by
    intro id ha
    rw [howners]
    exact ha.not_owner hw hI hpeople
  cases w with
  | addMember | setMemberRole | removeMember | createInvite | deleteInvite | deleteTeam =>
    exact hsame rfl rfl
  | updateUser id update =>
    obtain ⟨user, -, hdb⟩ := Accounts.updateUser_eq_ok.mp hrun
    apply hkeep
    · rw [hdb]
      exact huserIds.modify (f := update.apply) fun _ => rfl
    · rw [hframe.sessions rfl]
      exact fun _ hmem => hmem
    · rw [hdb]
      exact effectiveOwners_modifyUser (hnot id hmay) fun _ hnone => hnone
  | deleteUser id =>
    obtain ⟨-, -, -, hdb⟩ := Accounts.deleteUser_eq_ok.mp hrun
    apply hkeep
    · rw [hdb]
      change UniqueOn UserRow.id (remove UserRow.id id s.db.users)
      exact huserIds.remove
    · rw [hdb]
      exact fun session hmem => List.mem_of_mem_filter hmem
    · rw [hdb]
      exact effectiveOwners_removeUser (hnot id hmay)
  | setInstanceRole id role =>
    obtain ⟨-, user, -, -, hdb⟩ := Accounts.setInstanceRole_eq_ok.mp hrun
    have hrole : role ≠ .owner := fun howner => not_owns hw hI hpeople (hmay.2 howner)
    apply hkeep
    · rw [hdb]
      exact huserIds.modify (f := UserRow.withRole role) fun _ => rfl
    · rw [hframe.sessions rfl]
      exact fun _ hmem => hmem
    · rw [hdb]
      apply effectiveOwners_modifyUser (hnot id hmay.1)
      intro u hnone
      rw [← Bool.not_eq_true, AdminUsers.apply_isOwner] at hnone ⊢
      rintro (hstored | hconfigured)
      · exact hrole hstored
      · exact hnone (.inr hconfigured)
  | _ => exact hmay.elim

theorem answer_owners {s : Server} (hs : I s) {call : siteCalls.Cmd}
    (hmay : Permits app presented h call) (fault : Option Error) :
    OwnedBy app presented people owners (H.site.answer call fault s).2 := by
  have hs' := hI s hs
  rcases permitted_db (H := H) hmay fault s with hsame | ⟨w, r, hmay, hrun⟩ | ⟨w, -, hsame⟩
  · exact ⟨hsame ▸ hs'.userIds, hsame ▸ hs'.sessions, hsame ▸ hs'.owners⟩
  · exact change_owners hw hI hpeople hs hmay hrun
  · obtain ⟨husers, hsessions⟩ := runOn_accounts H s.clock s.db w
    rw [← hsame] at husers hsessions
    refine ⟨husers ▸ hs'.userIds, hsessions ▸ hs'.sessions, ?_⟩
    unfold effectiveOwners
    rw [husers]
    exact hs'.owners

end Steps

/-- The owners are those that the server has started with. -/
abbrev OwnersStand (app : SiteState) (requests : List Incoming) (people : Id → Prop) (s : Server) :
    Server → Prop :=
  OwnedBy app.toAppState (Presented app requests) people (effectiveOwners app.toAppState s.db)

/-- Requests of others than owners leave the owners' accounts as they are, and make no owner. -/
theorem owners_confined (H : SiteHost) (app : SiteState) (requests : List Incoming)
    (people : Id → Prop) (s : Server) (turns : List (Turn siteCalls Error))
    (huserIds : UniqueOn UserRow.id s.db.users)
    (hsessions : ∀ session ∈ s.db.sessions, Presented app requests session.id →
      people session.userId)
    (hpeople : ∀ u ∈ effectiveOwners app.toAppState s.db, ¬ people u.id)
    (hothers : ∀ c, Turn.other c ∈ turns → ∀ s', OwnersStand app requests people s s' →
      OwnersStand app requests people s (H.site.step c s').2) :
    effectiveOwners app.toAppState ((serve app requests s).run H.site turns).state.db =
      effectiveOwners app.toAppState s.db := by
  have hown : ∀ s' h c fault, OwnersStand app requests people s s' →
      Witnessed H.site (OwnersStand app requests people s) h →
      Permits app.toAppState (Presented app requests) h c →
      OwnersStand app requests people s (H.site.answer c fault s').2 :=
    fun s' h c fault hs' hw hmay => answer_owners hw (fun _ hs => hs) hpeople hs' hmay fault
  exact (serve_keeps hown hothers ⟨huserIds, hsessions, rfl⟩).1.owners

/-- Ann owns the instance, Bob manages it and is signed in, and Cid is a member. -/
def managed : Server :=
  { Server.new with
    db := { Accounts.new with
      users := [⟨0, "ann@example.com", "Ann", "", .owner, .localAccount, .active⟩,
        ⟨1, "bob@example.com", "Bob", "", .manager, .localAccount, .active⟩,
        ⟨2, "cid@example.com", "Cid", "", .member, .localAccount, .active⟩]
      sessions := [⟨"b", 1, .epoch, .atSecond 3600⟩]
      nextId := 3 } }

/-- Bob makes Cid a manager, but neither himself an owner nor Ann no user. -/
def managersRequests : List Incoming :=
  [⟨some "soika_session=b.secretb", .deleteUser 0⟩,
    ⟨some "soika_session=b.secretb", .setUserRole 1 .owner⟩,
    ⟨some "soika_session=b.secretb", .setUserRole 2 .manager⟩]

theorem owners_confined_managed :
    effectiveOwners SiteState.plain.toAppState
        ((serve .plain managersRequests managed).run plainHost.site bobsTurns).state.db =
      effectiveOwners SiteState.plain.toAppState managed.db := by
  apply owners_confined plainHost .plain managersRequests (· = 1)
  · decide
  · intro session hmem _
    obtain rfl := List.mem_singleton.mp hmem
    rfl
  · decide
  · intro c hc s' hs'
    obtain rfl : c = .inl (.advance 1 (.atSecond 1)) := by
      simpa [bobsTurns] using hc
    exact ⟨hs'.userIds, hs'.sessions, hs'.owners⟩

end Soika.Site
