import Mathlib.Tactic.Push
import Soika.Adapters.Accounts

/-! # What the account transactions do

One lemma for each transaction that can be refused: when it succeeds, what it returns and
what it commits.
-/

namespace Soika

open Table

namespace Accounts

variable {B : AccountBackend} {d d' : Accounts} {now : Timestamp} {u : Unit}

theorem userById_mem {id : Id} {user : UserRow} (h : d.userById id = some user) :
    user ∈ d.users ∧ user.id = id :=
  lookup_eq_some_mem h

theorem userByEmail_mem {email : String} {user : UserRow} (h : d.userByEmail email = some user) :
    user ∈ d.users ∧ user.email = email :=
  lookup_eq_some_mem h

theorem inviteByToken_mem {token : String} {i : Invite} (h : d.inviteByToken token = some i) :
    i ∈ d.invites ∧ i.token = token :=
  lookup_eq_some_mem h

theorem insertUser_eq_ok {new : NewUser} {user : UserRow} :
    d.insertUser B new now = .ok (user, d') ↔
      d.userByEmail new.email = none ∧ user = new.row d.nextId ∧ d' = d.addUser B new now := by
  unfold insertUser
  cases d.userByEmail new.email <;> simp [eq_comm]

theorem createAccount_eq_ok {new : NewUser} {initialOwner : Bool} {user : UserRow} :
    d.createAccount B new initialOwner now = .ok (user, d') ↔
      ¬ (initialOwner ∧ 0 < d.countOwners) ∧ d.userByEmail new.email = none ∧
        user = new.row d.nextId ∧ d' = d.addUser B new now := by
  simp only [createAccount, ite_error_eq_ok, insertUser_eq_ok]

theorem setupLock_eq_ok : d.setupLock = .ok (u, d') ↔
    d.settingsLocked = false ∧ d.countOwners = 0 ∧ d' = { d with settingsLocked := true } := by
  simp only [setupLock, ite_error_eq_ok, ok_eq_ok, Bool.not_eq_true, Nat.pos_iff_ne_zero, not_not,
    Prod.mk.injEq, true_and]

theorem setupInsert_eq_ok {new : NewUser} {user : UserRow} :
    d.setupInsert B new now = .ok (user, d') ↔
      d.userByEmail new.email = none ∧ user = new.row d.nextId ∧
        d' = { d.addUser B new now with settingsLocked := false } := by
  unfold setupInsert insertUser
  cases d.userByEmail new.email <;> simp [eq_comm]

theorem updateUser_eq_ok {id : Id} {update : UserUpdate} :
    d.updateUser id update = .ok (u, d') ↔
      ∃ user, d.userById id = some user ∧ d' = d.modifyUser id update.apply := by
  unfold updateUser
  cases d.userById id <;> simp [eq_comm]

theorem setInstanceRole_eq_ok {id : Id} {role : InstanceRole} {user : UserRow} :
    d.setInstanceRole id role = .ok (user, d') ↔
      ¬ (role ≠ .owner ∧ d.IsLastOwner id) ∧
        ∃ before, d.userById id = some before ∧ user = before.withRole role ∧
          d' = d.modifyUser id (UserRow.withRole role) := by
  rw [setInstanceRole, ite_error_eq_ok]
  cases d.userById id <;> simp [eq_comm]

theorem deleteUser_eq_ok {id : Id} :
    d.deleteUser id = .ok (u, d') ↔
      ¬ d.IsLastOwner id ∧ (∀ m ∈ d.teamMembers, m.userId = id → ¬ d.IsLastAdmin m) ∧
        (∀ i ∈ d.invites, i.createdBy = some id → i.token ∉ d.lockedInvites) ∧
        d' = d.removeUser id := by
  simp only [deleteUser, ite_error_eq_ok, ok_eq_ok, Prod.mk.injEq, true_and, not_exists, not_and]

theorem convertToSso_eq_ok {id : Id} :
    d.convertToSso id = .ok (u, d') ↔
      ∃ user, d.userById id = some user ∧ user.instanceRole ≠ .owner ∧
        d' = d.dropCredentials id := by
  unfold convertToSso
  cases d.userById id with
  | none => simp
  | some user =>
    simp only [ite_error_eq_ok, ok_eq_ok, Option.some.injEq, exists_eq_left', Prod.mk.injEq,
      true_and, ne_eq]

theorem createSession_eq_ok {id : String} {userId : Id} {expiresAt : Timestamp}
    {session : SessionRow} :
    d.createSession B id userId expiresAt now = .ok (session, d') ↔
      d.HasUser userId ∧ lookup SessionRow.id id d.sessions = none ∧
        session = ⟨id, userId, B.ts now, B.ts expiresAt⟩ ∧
        d' = { d with sessions := d.sessions ++ [⟨id, userId, B.ts now, B.ts expiresAt⟩] } := by
  rw [createSession, ite_error_eq_ok, not_not]
  cases lookup SessionRow.id id d.sessions <;> simp [eq_comm]

theorem upsertMember_eq_ok {teamId userId : Id} {role : TeamRole} :
    d.upsertMember B teamId userId role now = .ok (u, d') ↔
      (d.HasTeam teamId ∧ d.HasUser userId) ∧
        d' = d.withTeams (d.setMember teamId userId (some role) (B.ts now)) := by
  simp only [upsertMember, ite_ok_eq_ok, Prod.mk.injEq, true_and]
  exact Iff.rfl

theorem addMember_eq_ok {teamId userId : Id} {role : TeamRole} :
    d.addMember B teamId userId role now = .ok (u, d') ↔
      ¬ (role ≠ .admin ∧ d.NeedsAnotherAdmin teamId userId) ∧
        (d.HasTeam teamId ∧ d.HasUser userId) ∧
        d' = d.withTeams (d.setMember teamId userId (some role) (B.ts now)) := by
  rw [addMember, ite_error_eq_ok, upsertMember_eq_ok]

theorem setMemberRole_eq_ok {teamId userId : Id} {role : TeamRole} :
    d.setMemberRole teamId userId role = .ok (u, d') ↔
      ¬ (role ≠ .admin ∧ d.NeedsAnotherAdmin teamId userId) ∧
        ∃ m, d.memberOf teamId userId = some m ∧ d' = { d with
          teamMembers := modify TeamMember.key (teamId, userId) (TeamMember.withRole role)
            d.teamMembers } := by
  rw [setMemberRole, ite_error_eq_ok]
  cases d.memberOf teamId userId <;> simp [eq_comm]

theorem removeMember_eq_ok {teamId userId : Id} :
    d.removeMember teamId userId = .ok (u, d') ↔
      ¬ d.NeedsAnotherAdmin teamId userId ∧
        d' = { d with teamMembers := remove TeamMember.key (teamId, userId) d.teamMembers } := by
  simp only [removeMember, ite_error_eq_ok, ok_eq_ok, Prod.mk.injEq, true_and]

theorem deleteTeam_of_ok {id : Id} {target : Option Id} (h : d.deleteTeam id target = .ok (u, d')) :
    (∀ i ∈ d.invites, i.teamId = id → i.token ∉ d.lockedInvites) ∧
      ∃ projects, d' = ({ d with projects } : Accounts).withTeams (d.removeTeam id) := by
  unfold deleteTeam at h
  obtain ⟨-, h⟩ := ite_error_eq_ok.mp h
  obtain ⟨hlocked, h⟩ := ite_error_eq_ok.mp h
  push Not at hlocked
  refine ⟨hlocked, ?_⟩
  cases target with
  | some target =>
    obtain ⟨-, h⟩ := ite_ok_eq_ok.mp h
    exact ⟨_, congrArg Prod.snd h⟩
  | none =>
    obtain ⟨-, h⟩ := ite_error_eq_ok.mp h
    cases h
    exact ⟨_, rfl⟩

theorem createInvite_eq_ok {new : NewInvite} {i : Invite} :
    d.createInvite B new now = .ok (i, d') ↔
      (∃ t ∈ d.teams, t.id = new.teamId) ∧ d.inviteByToken new.token = none ∧
        i = new.row (B.ts now) (B.ts new.expiresAt) ∧
        d' = { d with invites := d.invites ++ [new.row (B.ts now) (B.ts new.expiresAt)] } := by
  rw [createInvite, ite_error_eq_ok, not_not]
  cases d.inviteByToken new.token <;> simp [eq_comm]

theorem deleteInvite_eq_ok {token : String} :
    d.deleteInvite token = .ok (u, d') ↔
      token ∉ d.lockedInvites ∧ d' = { d with invites := remove Invite.token token d.invites } := by
  simp only [deleteInvite, ite_error_eq_ok, ok_eq_ok, Prod.mk.injEq, true_and]

theorem claimable_eq_some {token : String} {i : Invite} :
    d.claimable B token now = some i ↔
      d.inviteByToken token = some i ∧ i.acceptedAt = none ∧ B.le i.expiresAt now = false := by
  rw [claimable, Option.filter_eq_some_iff, isClaimable]
  simp

theorem checkInvitee_eq_ok {recipient : Option String} {user : Option UserRow} :
    checkInvitee recipient user = .ok u ↔
      ∃ row, user = some row ∧ row.status = .active ∧
        ∀ target ∈ recipient, eqIgnoreAsciiCase target row.email = true := by
  cases user with
  | none => simp [checkInvitee]
  | some row =>
    simp only [checkInvitee, ite_error_eq_ok, Option.some.injEq, exists_eq_left']
    cases recipient <;> simp

theorem accept_eq_ok {token : String} {userId : Id} :
    d.accept B token userId now = .ok (u, d') ↔
      ∃ i, d.claimable B token now = some i ∧
        checkInvitee i.email (d.userById userId) = .ok () ∧
        (d.markAccepted B token now).join B i.teamId userId i.role now = .ok (u, d') := by
  unfold accept
  cases d.claimable B token now with
  | none => simp
  | some i =>
    simp only [Option.some.injEq, exists_eq_left']
    rcases checkInvitee i.email (d.userById userId) with e | ⟨⟩ <;> simp

theorem acceptClaim_eq_ok {token : String} {i : Invite} :
    d.acceptClaim B token now = .ok (i, d') ↔
      token ∉ d.lockedInvites ∧ d.claimable B token now = some i ∧
        d' = { d with lockedInvites := token :: d.lockedInvites } := by
  rw [acceptClaim, ite_error_eq_ok]
  cases d.claimable B token now <;> simp [eq_comm]

theorem acceptCommit_eq_ok {token : String} {teamId userId : Id} {role : TeamRole} :
    d.acceptCommit B token teamId userId role now = .ok (u, d') ↔
      ∃ joined, (d.markAccepted B token now).join B teamId userId role now = .ok ((), joined) ∧
        d' = { joined with lockedInvites := d.lockedInvites.erase token } := by
  unfold acceptCommit
  rcases (d.markAccepted B token now).join B teamId userId role now with e | ⟨⟨⟩, joined⟩
  · simp
  · simp [eq_comm]

theorem createPasskey_eq_ok {new : NewPasskey} {key : PasskeyRow} :
    d.createPasskey B new now = .ok (key, d') ↔
      d.HasUser new.userId ∧ d.passkeyByCredentialId new.credentialId = none ∧
        key = new.row d.nextId (B.ts now) ∧
        d' = { d with
          passkeys := d.passkeys ++ [new.row d.nextId (B.ts now)], nextId := d.nextId + 1 } := by
  rw [createPasskey, ite_error_eq_ok, not_not]
  cases d.passkeyByCredentialId new.credentialId <;> simp [eq_comm]

theorem deletePasskey_eq_ok {userId id : Id} :
    d.deletePasskey userId id = .ok (u, d') ↔
      (∃ k ∈ d.passkeys, k.id = id ∧ k.userId = userId) ∧
        d' = { d with
          passkeys := d.passkeys.filter fun k => ¬ (k.id = id ∧ k.userId = userId) } := by
  simp only [deletePasskey, ite_ok_eq_ok, Prod.mk.injEq, true_and]

theorem createChallenge_eq_ok {dropped : List String} {id purpose state : String}
    {expiresAt : Timestamp} :
    d.createChallenge B dropped id purpose state expiresAt now = .ok (u, d') ↔
      ∃ kept, kept = d.authChallenges.filter
          (fun c => ! (expiredChallenge B now c && dropped.contains c.id)) ∧
        lookup AuthChallenge.id id kept = none ∧
        d' = { d with authChallenges := kept ++ [⟨id, purpose, state, B.ts expiresAt⟩] } := by
  rw [createChallenge, exists_eq_left]
  split <;> rename_i h
  · rw [h]
    constructor
    · intro hd
      cases hd
    · rintro ⟨hd, -⟩
      cases hd
  · rw [h, ok_eq_ok, Prod.mk.injEq]
    constructor
    · rintro ⟨-, hd⟩
      exact ⟨rfl, hd⟩
    · rintro ⟨-, hd⟩
      exact ⟨rfl, hd⟩

theorem takeChallenge_eq_some {id purpose state : String} :
    d.takeChallenge B id purpose now = (some state, d') ↔ ∃ c,
      lookup AuthChallenge.id id d.authChallenges = some c ∧ c.purpose = purpose ∧
        expiredChallenge B now c = false ∧ c.state = state ∧
        d' = { d with authChallenges := remove AuthChallenge.id id d.authChallenges } := by
  unfold takeChallenge takeable
  cases lookup AuthChallenge.id id d.authChallenges with
  | none => simp
  | some c =>
    by_cases hp : c.purpose = purpose
    · cases he : expiredChallenge B now c with
      | true => simp [Option.filter, hp, he]
      | false =>
        simp only [Option.filter, hp, he, decide_true, Bool.not_false, Bool.and_self, if_true,
          Prod.mk.injEq, Option.some.injEq]
        constructor
        · rintro ⟨rfl, rfl⟩
          exact ⟨c, rfl, hp, he, rfl, rfl⟩
        · rintro ⟨_, rfl, -, -, rfl, rfl⟩
          exact ⟨rfl, rfl⟩
    · simp [Option.filter, hp]

theorem takeChallenge_eq_none {id purpose : String}
    (h : d.takeChallenge B id purpose now = (none, d')) : d' = d := by
  unfold takeChallenge at h
  split at h <;> cases h
  rfl

theorem createChallenge_of_ok {dropped : List String} {id purpose state : String}
    {expiresAt : Timestamp}
    (h : d.createChallenge B dropped id purpose state expiresAt now = .ok (u, d')) :
    ∃ authChallenges, d' = { d with authChallenges } := by
  unfold createChallenge at h
  dsimp only at h
  split at h
  · cases h
  · cases h
    exact ⟨_, rfl⟩

theorem takeChallenge_state (id purpose : String) :
    ∃ authChallenges, (d.takeChallenge B id purpose now).2 = { d with authChallenges } := by
  unfold takeChallenge
  cases d.takeable B id purpose now with
  | none => exact ⟨_, rfl⟩
  | some c => exact ⟨_, rfl⟩

theorem setOrgName_eq_ok {name : String} :
    d.setOrgName name = .ok (u, d') ↔ d.settingsLocked = false ∧ d' = { d with orgName := name } := by
  simp only [setOrgName, ite_error_eq_ok, ok_eq_ok, Bool.not_eq_true, Prod.mk.injEq, true_and]

end Accounts

end Soika
