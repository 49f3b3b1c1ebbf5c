import Soika.Adapters.AccountsConsistent
import Soika.Adapters.AccountsFrame
import Soika.Accounts.Refusals

/-! # The last admin of a team

Every operation on members that takes an admin away looks for another one first, under the
lock that it writes under. So a team that has an admin keeps one for as long as it exists,
and an operation that is refused has changed no row.
-/

namespace Soika

open Table

namespace Accounts

def HasAdmin (d : Accounts) (teamId : Id) : Prop :=
  ∃ m ∈ d.teamMembers, m.teamId = teamId ∧ m.role = .admin

instance (d : Accounts) (teamId : Id) : Decidable (d.HasAdmin teamId) :=
  inferInstanceAs (Decidable (∃ m ∈ d.teamMembers, _))

variable {B : AccountBackend} {d d' : Accounts} {now : Timestamp} {teamId userId : Id}

namespace HasAdmin

theorem mono (h : d.HasAdmin teamId) (hsub : ∀ m ∈ d.teamMembers, m ∈ d'.teamMembers) :
    d'.HasAdmin teamId := by
  obtain ⟨m, hm, hteam, hrole⟩ := h
  exact ⟨m, hsub m hm, hteam, hrole⟩

/-- A member who is not the last admin of a team leaves it with another one. -/
theorem other {p : TeamMember → Prop} (h : d.HasAdmin teamId)
    (hp : ∀ m m', p m → m'.teamId = m.teamId → m'.userId ≠ m.userId → ¬ p m')
    (hlast : ∀ m ∈ d.teamMembers, p m → ¬ d.IsLastAdmin m) :
    ∃ m ∈ d.teamMembers, (m.teamId = teamId ∧ m.role = .admin) ∧ ¬ p m := by
  obtain ⟨m, hm, hteam, hrole⟩ := h
  by_cases hpm : p m
  · have hother := hlast m hm hpm
    simp only [IsLastAdmin, hrole, true_and, not_not] at hother
    obtain ⟨m', hm', hteam', hrole', huser⟩ := hother
    exact ⟨m', hm', ⟨hteam'.trans hteam, hrole'⟩, hp m m' hpm hteam' huser⟩
  · exact ⟨m, hm, ⟨hteam, hrole⟩, hpm⟩

theorem another (h : d.HasAdmin teamId) {t u : Id} (hneed : ¬ d.NeedsAnotherAdmin t u) :
    ∃ m ∈ d.teamMembers, (m.teamId = teamId ∧ m.role = .admin) ∧ m.key ≠ (t, u) := by
  refine h.other (p := fun m => m.key = (t, u)) ?_ fun m hm hkey hlast => hneed ⟨m, hm, hkey, hlast⟩
  rintro m m' hkey - huser hkey'
  exact huser (congrArg Prod.snd (hkey'.trans hkey.symm))

/-- A member's role is changed: to admin, or not the last admin's. -/
theorem modify (h : d.HasAdmin teamId) {t u : Id} {role : TeamRole}
    (hneed : ¬ (role ≠ .admin ∧ d.NeedsAnotherAdmin t u))
    (hmembers : d'.teamMembers =
      Table.modify TeamMember.key (t, u) (TeamMember.withRole role) d.teamMembers) :
    d'.HasAdmin teamId := by
  by_cases hrole : role = .admin
  · obtain ⟨m, hm, hteam, hadmin⟩ := h
    refine ⟨_, hmembers ▸ mem_modify.mpr ⟨m, hm, rfl⟩, ?_⟩
    split
    · exact ⟨hteam, hrole⟩
    · exact ⟨hteam, hadmin⟩
  · obtain ⟨m, hm, hm', hkey⟩ := h.another fun hn => hneed ⟨hrole, hn⟩
    exact ⟨m, hmembers ▸ mem_modify.mpr ⟨m, hm, if_neg hkey⟩, hm'⟩

theorem setMember (h : d.HasAdmin teamId) {t u : Id} {role : TeamRole}
    (hneed : ¬ (role ≠ .admin ∧ d.NeedsAnotherAdmin t u)) :
    (d.withTeams (d.setMember t u (some role) now)).HasAdmin teamId := by
  cases hm : d.memberOf t u with
  | none =>
    refine h.mono fun m hmem => ?_
    simp only [withTeams, TeamTables.setMember, hm]
    exact List.mem_append_left _ hmem
  | some m =>
    refine h.modify hneed ?_
    simp only [withTeams, TeamTables.setMember, hm]

end HasAdmin

theorem join_hasAdmin (teamId : Id) (hd : d.Consistent) {t u : Id} {role : TeamRole} {r : Unit}
    (hjoin : d.join B t u role now = .ok (r, d')) :
    (d'.HasTeam teamId → d.HasTeam teamId) ∧ (d.HasAdmin teamId → d'.HasAdmin teamId) := by
  obtain ⟨-, rfl⟩ := upsertMember_eq_ok.mp hjoin
  refine ⟨id, fun h => h.setMember ?_⟩
  rintro ⟨hrole, m, hm, hkey, hadmin, -⟩
  have hmember : d.memberOf t u = some m := by
    have := hd.memberOf_of_mem hm
    rwa [show m.teamId = t from congrArg Prod.fst hkey,
      show m.userId = u from congrArg Prod.snd hkey] at this
  exact hrole (by simp [joinedRole, hmember, hadmin])

theorem mem_addUser {new : NewUser} {m : TeamMember} (hm : m ∈ d.teamMembers) :
    m ∈ (d.addUser B new now).teamMembers := by
  unfold addUser
  dsimp only
  split
  · exact List.mem_append_left _ hm
  · exact hm

end Accounts

open Accounts Auth Interaction

/-- No write creates a team, and none leaves one that it keeps without the admin that it had. -/
theorem Accounts.HasAdmin.run {B : AccountBackend} {now : Timestamp} {d d' : Accounts} {teamId : Id}
    (hd : d.Consistent) {w : Write} {r : w.Reply} (hrun : w.run B now d = .ok (r, d'))
    (hteam : d'.HasTeam teamId) : d.HasTeam teamId ∧ (d.HasAdmin teamId → d'.HasAdmin teamId) := by
  cases htouch : w.touchesMembers with
  | false =>
    have hframe := Write.frame hrun
    have hteams : d.HasTeam teamId := by
      rwa [TeamTables.HasTeam, hframe.teams htouch] at hteam
    refine ⟨hteams, fun h => ?_⟩
    rwa [HasAdmin, hframe.members htouch]
  | true =>
    cases w with
    | createAccount new initialOwner =>
      obtain ⟨-, -, -, rfl⟩ := createAccount_eq_ok.mp hrun
      exact ⟨hteam, fun h => h.mono fun m hm => mem_addUser hm⟩
    | setupInsert new =>
      obtain ⟨-, -, rfl⟩ := setupInsert_eq_ok.mp hrun
      exact ⟨hteam, fun h => h.mono fun m hm => mem_addUser hm⟩
    | deleteUser id =>
      obtain ⟨-, hlast, -, rfl⟩ := deleteUser_eq_ok.mp hrun
      refine ⟨hteam, fun h => ?_⟩
      obtain ⟨m, hm, hm', hne⟩ := h.other (p := fun m => m.userId = id)
        (fun m m' hid _ huser hid' => huser (hid'.trans hid.symm)) hlast
      exact ⟨m, mem_remove.mpr ⟨hm, hne⟩, hm'⟩
    | addMember t u role =>
      obtain ⟨hneed, -, rfl⟩ := addMember_eq_ok.mp hrun
      exact ⟨hteam, fun h => h.setMember hneed⟩
    | setMemberRole t u role =>
      obtain ⟨hneed, _, -, rfl⟩ := setMemberRole_eq_ok.mp hrun
      exact ⟨hteam, fun h => h.modify hneed rfl⟩
    | removeMember t u =>
      obtain ⟨hneed, rfl⟩ := removeMember_eq_ok.mp hrun
      refine ⟨hteam, fun h => ?_⟩
      obtain ⟨m, hm, hm', hkey⟩ := h.another hneed
      exact ⟨m, mem_remove.mpr ⟨hm, hkey⟩, hm'⟩
    | deleteTeam id moveProjectsTo =>
      obtain ⟨-, _, rfl⟩ := deleteTeam_of_ok hrun
      obtain ⟨t, ht, rfl⟩ := hteam
      obtain ⟨ht, hne⟩ := mem_remove.mp ht
      refine ⟨⟨t, ht, rfl⟩, fun ⟨m, hm, hm', hrole⟩ => ?_⟩
      exact ⟨m, mem_remove.mpr ⟨hm, hm' ▸ hne⟩, hm', hrole⟩
    | accept token userId now =>
      obtain ⟨i, -, -, hjoin⟩ := accept_eq_ok.mp hrun
      have h := join_hasAdmin teamId (hd.markAccepted token) hjoin
      exact ⟨h.1 hteam, h.2⟩
    | acceptCommit token t u role now =>
      obtain ⟨joined, hjoin, rfl⟩ := acceptCommit_eq_ok.mp hrun
      have h := join_hasAdmin teamId (hd.markAccepted token) hjoin
      exact ⟨h.1 hteam, h.2⟩
    | _ => cases htouch

namespace Auth

/-- The operations on the members of teams. -/
inductive MembershipOp where
  | addMember (teamId userId : Id) (role : TeamRole)
  | setMemberRole (teamId userId : Id) (role : TeamRole)
  | removeMember (teamId userId : Id)
  | deleteUser (id : Id)
  | acceptInvite (token : String) (userId : Id) (now : Timestamp)

def MembershipOp.prog (repositories : Repositories) : MembershipOp → Prog authCalls Error Unit
  | addMember teamId userId role => put (.addMember teamId userId role)
  | setMemberRole teamId userId role => put (.setMemberRole teamId userId role)
  | removeMember teamId userId => put (.removeMember teamId userId)
  | deleteUser id => put (.deleteUser id)
  | acceptInvite token userId now => repositories.accept token userId now

variable {H : Host}

theorem MembershipOp.refusal (dialect : Dialect) (op : MembershipOp) {watched : AuthCall → Bool} :
    (op.prog dialect.repositories).Obeys H.machine (rowsProtocol watched) Refusal True := by
  cases op with
  | addMember teamId userId role => exact put_refusal trivial
  | setMemberRole teamId userId role => exact put_refusal trivial
  | removeMember teamId userId => exact put_refusal trivial
  | deleteUser id => exact put_refusal trivial
  | acceptInvite token userId now => exact accept_refusal dialect token userId now trivial

def KeepsAdmin (teamId : Id) (d : Accounts) : Prop :=
  d.Consistent ∧ (d.HasTeam teamId → d.HasAdmin teamId)

theorem KeepsAdmin.run {B : AccountBackend} {now : Timestamp} {d d' : Accounts} {teamId : Id}
    {w : Write} {r : w.Reply} (hrun : w.run B now d = .ok (r, d')) (h : KeepsAdmin teamId d) :
    KeepsAdmin teamId d' := by
  refine ⟨h.1.run hrun, fun hteam => ?_⟩
  have hkeep := HasAdmin.run h.1 hrun hteam
  exact hkeep.2 (h.2 hkeep.1)

/-- In every interleaving of membership operations with each other and with all other calls but
syncs, a team that has an admin has one as long as it exists; an operation that is refused has left
every row alone. -/
theorem team_keeps_admin (H : Host) (dialect : Dialect) (ops : List MembershipOp) (s : Server)
    (hs : s.db.Consistent) (turns : List (Turn authCalls Error))
    (hturns : ∀ c, Turn.other c ∈ turns → c.isSync = false) :
    let p := (Pool.start (ops.map (MembershipOp.prog dialect.repositories)) s).run H.machine turns
    (∀ teamId, s.db.HasAdmin teamId → p.state.db.HasTeam teamId → p.state.db.HasAdmin teamId) ∧
      ∀ th ∈ p.threads, ∀ e, th.rest = .fail e → ∀ c ∈ th.history, KeepsRows c := by
  intro p
  have hprogs : ∀ q ∈ ops.map (MembershipOp.prog dialect.repositories),
      q.Obeys H.machine (rowsProtocol fun _ => true) Refusal True := by
    intro q hq
    obtain ⟨op, -, rfl⟩ := List.mem_map.mp hq
    exact op.refusal dialect
  have hrun : ∀ teamId, s.db.HasAdmin teamId → KeepsAdmin teamId p.state.db := by
    intro teamId hadmin
    exact (Pool.Obeys.run_start (J := fun s _ => KeepsAdmin teamId s.db)
      (fun s ts i t c fault _ hc h => Host.answer_db (fun _ _ _ _ _ => KeepsAdmin.run) hc fault h)
      (fun s ts c hc h => Host.step_db (fun _ _ _ _ _ => KeepsAdmin.run) hc h)
      hprogs ⟨hs, fun _ => hadmin⟩ hturns).2
  refine ⟨fun teamId hadmin => (hrun teamId hadmin).2, fun th hth e he => ?_⟩
  have hobeys : p.Obeys H.machine (rowsProtocol fun _ => true) Refusal True :=
    (Pool.Obeys.run_start (J := fun _ _ => True) (fun _ _ _ _ _ _ _ _ _ => trivial)
      (fun _ _ _ _ _ => trivial) hprogs trivial hturns).1
  have hend := hobeys th hth
  rw [he] at hend
  exact fun c hc => (Protocol.after_always.mp hend).2 c hc rfl

/-- Two admins of a team: one is removed, and then the other cannot be demoted. -/
def twoAdmins : Server :=
  { Server.new with
    db := { Accounts.new with
      teams := [⟨1, "web", .epoch, .epoch, none⟩]
      users := [⟨2, "ann@a.b", "Ann", "$1$secret", .member, .localAccount, .active⟩,
        ⟨3, "bob@a.b", "Bob", "$2$secret", .member, .localAccount, .active⟩]
      teamMembers := [⟨1, 2, .admin, .epoch⟩, ⟨1, 3, .admin, .epoch⟩]
      nextId := 4 } }

theorem team_keeps_admin_of_two :
    ((Pool.start ([.removeMember 1 2, .setMemberRole 1 3 .contributor].map
      (MembershipOp.prog Dialect.postgres.repositories)) twoAdmins).run Host.plain.machine
      [.thread 0 none, .thread 1 none]).state.db.HasAdmin 1 :=
  (team_keeps_admin .plain .postgres [.removeMember 1 2, .setMemberRole 1 3 .contributor] twoAdmins
    ⟨by decide, by decide, by decide, by decide, by decide, by decide, by decide⟩
    [.thread 0 none, .thread 1 none] (by simp)).1 1 (by decide) ⟨_, List.mem_singleton_self _, rfl⟩

end Auth

end Soika
