import Soika.Adapters.AccountsSpec
import Soika.Auth.Server

/-! # Consistency of the account tables

What the keys and references of the schema guarantee, and that every write keeps it.
-/

namespace Soika

open Table

namespace Accounts

/-- What the schema guarantees of the users, the members and the invites; ids are drawn once. -/
structure Consistent (d : Accounts) : Prop where
  userIds : UniqueOn UserRow.id d.users
  emails : UniqueOn UserRow.email d.users
  userFresh : ∀ u ∈ d.users, u.id < d.nextId
  memberKeys : UniqueOn TeamMember.key d.teamMembers
  memberUser : ∀ m ∈ d.teamMembers, d.HasUser m.userId
  defaultTeams : d.defaultTeams.Nodup
  tokens : UniqueOn Invite.token d.invites

namespace Consistent

variable {B : AccountBackend} {d d' : Accounts} {now : Timestamp}

theorem userById_of_mem (h : d.Consistent) {user : UserRow} (hu : user ∈ d.users) :
    d.userById user.id = some user :=
  h.userIds.lookup_of_mem hu

theorem inviteByToken_of_mem (h : d.Consistent) {i : Invite} (hi : i ∈ d.invites) :
    d.inviteByToken i.token = some i :=
  h.tokens.lookup_of_mem hi

theorem memberOf_of_mem (h : d.Consistent) {m : TeamMember} (hm : m ∈ d.teamMembers) :
    d.memberOf m.teamId m.userId = some m :=
  h.memberKeys.lookup_of_mem hm

theorem of_same (h : d.Consistent) (husers : d'.users = d.users)
    (hmembers : d'.teamMembers = d.teamMembers) (hdefault : d'.defaultTeams = d.defaultTeams)
    (hinvites : d'.invites = d.invites) (hnext : d.nextId ≤ d'.nextId) : d'.Consistent where
  userIds := husers ▸ h.userIds
  emails := husers ▸ h.emails
  userFresh u hu := Nat.lt_of_lt_of_le (h.userFresh u (husers ▸ hu)) hnext
  memberKeys := hmembers ▸ h.memberKeys
  memberUser m hm := by
    obtain ⟨u, hu, hid⟩ := h.memberUser m (hmembers ▸ hm)
    exact ⟨u, husers ▸ hu, hid⟩
  defaultTeams := hdefault ▸ h.defaultTeams
  tokens := hinvites ▸ h.tokens

theorem addUser (h : d.Consistent) {new : NewUser} (hemail : d.userByEmail new.email = none) :
    (d.addUser B new now).Consistent := by
  have hkeep : ∀ id, d.HasUser id → (d.addUser B new now).HasUser id :=
    fun id ⟨u, hu, hid⟩ => ⟨u, List.mem_append_left _ hu, hid⟩
  have hold : ∀ m ∈ d.teamMembers, m.userId < d.nextId := fun m hm => by
    obtain ⟨u, hu, hid⟩ := h.memberUser m hm
    exact hid ▸ h.userFresh u hu
  exact {
    userIds := h.userIds.append_single fun u hu => (h.userFresh u hu).ne
    emails := h.emails.append_single (lookup_eq_none.mp hemail)
    userFresh := forall_mem_snoc (fun u hu => Nat.lt_succ_of_lt (h.userFresh u hu))
      (Nat.lt_succ_self _)
    memberKeys := by
      unfold Accounts.addUser
      dsimp only
      split
      · rw [UniqueOn, List.map_append, List.map_map]
        refine List.nodup_append.mpr ⟨h.memberKeys, ?_, ?_⟩
        · exact h.defaultTeams.map fun t t' htt => congrArg Prod.fst htt
        · rintro _ hk k hk' rfl
          obtain ⟨m, hm, hkey⟩ := List.mem_map.mp hk
          obtain ⟨t, -, htkey⟩ := List.mem_map.mp hk'
          have huser : m.userId = d.nextId := congrArg Prod.snd (hkey.trans htkey.symm)
          exact (hold m hm).ne huser
      · exact h.memberKeys
    memberUser := by
      intro m hm
      unfold Accounts.addUser at hm
      dsimp only at hm
      split at hm
      · rcases List.mem_append.mp hm with hm | hm
        · exact hkeep _ (h.memberUser m hm)
        · obtain ⟨t, -, rfl⟩ := List.mem_map.mp hm
          exact ⟨_, List.mem_append_right _ (List.mem_singleton_self _), rfl⟩
      · exact hkeep _ (h.memberUser m hm)
    defaultTeams := h.defaultTeams
    tokens := h.tokens }

theorem modifyUsers (h : d.Consistent) {id : Id} {f : UserRow → UserRow} (hid : ∀ u, (f u).id = u.id)
    (hemail : ∀ u, (f u).email = u.email) (husers : d'.users = modify UserRow.id id f d.users)
    (hmembers : d'.teamMembers = d.teamMembers) (hdefault : d'.defaultTeams = d.defaultTeams)
    (hinvites : d'.invites = d.invites) (hnext : d'.nextId = d.nextId) : d'.Consistent := by
  have hrow : ∀ u, (if u.id = id then f u else u).id = u.id := fun u => by split <;> simp [hid]
  exact {
    userIds := husers ▸ h.userIds.modify hid
    emails := husers ▸ h.emails.modify hemail
    userFresh := by
      intro u hu
      obtain ⟨v, hv, rfl⟩ := mem_modify.mp (husers ▸ hu)
      rw [hrow, hnext]
      exact h.userFresh v hv
    memberKeys := hmembers ▸ h.memberKeys
    memberUser := by
      intro m hm
      obtain ⟨u, hu, heq⟩ := h.memberUser m (hmembers ▸ hm)
      exact ⟨_, husers ▸ mem_modify.mpr ⟨u, hu, rfl⟩, (hrow u).trans heq⟩
    defaultTeams := hdefault ▸ h.defaultTeams
    tokens := hinvites ▸ h.tokens }

theorem removeUser (h : d.Consistent) (id : Id) : (d.removeUser id).Consistent where
  userIds := h.userIds.remove
  emails := h.emails.remove
  userFresh u hu := h.userFresh u (mem_remove.mp hu).1
  memberKeys := h.memberKeys.remove
  memberUser m hm := by
    obtain ⟨hm, hne⟩ := mem_remove.mp hm
    obtain ⟨u, hu, heq⟩ := h.memberUser m hm
    exact ⟨u, mem_remove.mpr ⟨hu, fun hid => hne (heq ▸ hid)⟩, heq⟩
  defaultTeams := h.defaultTeams
  tokens := h.tokens.map fun i => by split <;> rfl

theorem members (h : d.Consistent) {teamMembers : List TeamMember}
    (hkeys : UniqueOn TeamMember.key teamMembers) (husers : ∀ m ∈ teamMembers, d.HasUser m.userId) :
    ({ d with teamMembers } : Accounts).Consistent :=
  { h with memberKeys := hkeys, memberUser := husers }

theorem setMember (h : d.Consistent) {userId : Id} (huser : d.HasUser userId) (teamId : Id)
    (role : TeamRole) : (d.withTeams (d.setMember teamId userId (some role) now)).Consistent := by
  cases hm : d.memberOf teamId userId with
  | none =>
    simp only [TeamTables.setMember, hm]
    exact h.members (h.memberKeys.append_single (lookup_eq_none.mp hm))
      (forall_mem_snoc h.memberUser huser)
  | some m =>
    simp only [TeamTables.setMember, hm]
    refine h.members (h.memberKeys.modify (TeamMember.withRole_key role)) fun m' hm' => ?_
    obtain ⟨m, hm, rfl⟩ := mem_modify.mp hm'
    split <;> exact h.memberUser m hm

theorem invites (h : d.Consistent) {invites : List Invite} (ht : UniqueOn Invite.token invites) :
    ({ d with invites } : Accounts).Consistent :=
  { h with tokens := ht }

theorem markAccepted (h : d.Consistent) (token : String) : (d.markAccepted B token now).Consistent :=
  h.invites (h.tokens.modify (f := Invite.accepted (B.ts now)) fun _ => rfl)

theorem join (h : d.Consistent) {teamId userId : Id} {role : TeamRole} {u : Unit}
    (hjoin : d.join B teamId userId role now = .ok (u, d')) : d'.Consistent := by
  obtain ⟨⟨-, huser⟩, rfl⟩ := upsertMember_eq_ok.mp hjoin
  exact h.setMember huser _ _

theorem removeTeam (h : d.Consistent) (id : Id) {projects : List ProjectRow} :
    (({ d with projects } : Accounts).withTeams (d.removeTeam id)).Consistent where
  userIds := h.userIds
  emails := h.emails
  userFresh := h.userFresh
  memberKeys := h.memberKeys.remove
  memberUser m hm := h.memberUser m (mem_remove.mp hm).1
  defaultTeams := h.defaultTeams.filter _
  tokens := h.tokens.remove

theorem new : Accounts.new.Consistent :=
  ⟨by decide, by decide, by decide, by decide, by decide, by decide, by decide⟩

end Consistent

end Accounts

open Accounts Auth

theorem Accounts.Consistent.run {B : AccountBackend} {now : Timestamp} {d d' : Accounts}
    (h : d.Consistent) {w : Write} {r : w.Reply} (hrun : w.run B now d = .ok (r, d')) :
    d'.Consistent := by
  cases w with
  | createAccount new initialOwner =>
    obtain ⟨-, hemail, -, rfl⟩ := createAccount_eq_ok.mp hrun
    exact h.addUser hemail
  | setupLock =>
    obtain ⟨-, -, rfl⟩ := setupLock_eq_ok.mp hrun
    exact h.of_same rfl rfl rfl rfl le_rfl
  | setupInsert new =>
    obtain ⟨hemail, -, rfl⟩ := setupInsert_eq_ok.mp hrun
    exact (h.addUser (B := B) hemail).of_same rfl rfl rfl rfl le_rfl
  | updateUser id update =>
    obtain ⟨_, -, rfl⟩ := updateUser_eq_ok.mp hrun
    exact h.modifyUsers (f := update.apply) (fun _ => rfl) (fun _ => rfl) rfl rfl rfl rfl rfl
  | setInstanceRole id role =>
    obtain ⟨-, _, -, -, rfl⟩ := setInstanceRole_eq_ok.mp hrun
    exact h.modifyUsers (f := UserRow.withRole role) (fun _ => rfl) (fun _ => rfl) rfl rfl rfl rfl rfl
  | deleteUser id =>
    obtain ⟨-, -, -, rfl⟩ := deleteUser_eq_ok.mp hrun
    exact h.removeUser id
  | convertToSso id =>
    obtain ⟨_, -, -, rfl⟩ := convertToSso_eq_ok.mp hrun
    exact h.modifyUsers (f := UserRow.ssoOnly) (fun _ => rfl) (fun _ => rfl) rfl rfl rfl rfl rfl
  | createSession id userId expiresAt =>
    obtain ⟨-, -, -, rfl⟩ := createSession_eq_ok.mp hrun
    exact h.of_same rfl rfl rfl rfl le_rfl
  | addMember teamId userId role =>
    obtain ⟨-, ⟨-, huser⟩, rfl⟩ := addMember_eq_ok.mp hrun
    exact h.setMember huser _ _
  | setMemberRole teamId userId role =>
    obtain ⟨-, _, -, rfl⟩ := setMemberRole_eq_ok.mp hrun
    refine h.members (h.memberKeys.modify (TeamMember.withRole_key role)) fun m' hm' => ?_
    obtain ⟨m, hm, rfl⟩ := mem_modify.mp hm'
    split <;> exact h.memberUser m hm
  | removeMember teamId userId =>
    obtain ⟨-, rfl⟩ := removeMember_eq_ok.mp hrun
    exact h.members h.memberKeys.remove fun m hm => h.memberUser m (mem_remove.mp hm).1
  | deleteTeam id moveProjectsTo =>
    obtain ⟨-, _, rfl⟩ := deleteTeam_of_ok hrun
    exact h.removeTeam id
  | createInvite new =>
    obtain ⟨-, hnew, -, rfl⟩ := createInvite_eq_ok.mp hrun
    exact h.invites (h.tokens.append_single (lookup_eq_none.mp hnew))
  | deleteInvite token =>
    obtain ⟨-, rfl⟩ := deleteInvite_eq_ok.mp hrun
    exact h.invites h.tokens.remove
  | accept token userId now =>
    obtain ⟨_, -, -, hjoin⟩ := accept_eq_ok.mp hrun
    exact (h.markAccepted token).join hjoin
  | acceptClaim token now =>
    obtain ⟨-, -, rfl⟩ := acceptClaim_eq_ok.mp hrun
    exact h.of_same rfl rfl rfl rfl le_rfl
  | acceptCommit token teamId userId role now =>
    obtain ⟨joined, hjoin, rfl⟩ := acceptCommit_eq_ok.mp hrun
    exact ((h.markAccepted token).join hjoin).of_same rfl rfl rfl rfl le_rfl
  | createPasskey new =>
    obtain ⟨-, -, -, rfl⟩ := createPasskey_eq_ok.mp hrun
    exact h.of_same rfl rfl rfl rfl (Nat.le_succ _)
  | deletePasskey userId id =>
    obtain ⟨-, rfl⟩ := deletePasskey_eq_ok.mp hrun
    exact h.of_same rfl rfl rfl rfl le_rfl
  | createChallenge dropped id purpose state expiresAt =>
    obtain ⟨_, rfl⟩ := createChallenge_of_ok hrun
    exact h.of_same rfl rfl rfl rfl le_rfl
  | takeChallenge id purpose now =>
    obtain ⟨_, hd⟩ := takeChallenge_state (B := B) (d := d) id purpose
    have hd' : d' = (d.takeChallenge B id purpose now).2 :=
      (congrArg Prod.snd (Except.ok.inj hrun)).symm
    rw [hd', hd]
    exact h.of_same rfl rfl rfl rfl le_rfl
  | setOrgName name =>
    obtain ⟨-, rfl⟩ := setOrgName_eq_ok.mp hrun
    exact h.of_same rfl rfl rfl rfl le_rfl
  | _ =>
    cases hrun
    exact h.of_same rfl rfl rfl rfl le_rfl

end Soika
