import Soika.Adapters.AccountsConsistent
import Soika.Adapters.AccountsFrame
import Soika.Auth.Calls

/-! # Invites in the database

Which writes leave an invite usable, which rows an open acceptance can rely on, and the
membership that an accepted invite leaves.
-/

namespace Soika

open Table

def TeamRole.AtLeast (r other : TeamRole) : Prop := other = .admin → r = .admin

instance (r other : TeamRole) : Decidable (r.AtLeast other) :=
  inferInstanceAs (Decidable (_ → _))

namespace Accounts

variable {B : AccountBackend} {d d' : Accounts} {now : Timestamp} {token : String} {id : Id}

/-- An invite with the token is there and has not been accepted. -/
def Unused (d : Accounts) (token : String) : Prop :=
  ∃ i, d.inviteByToken token = some i ∧ i.acceptedAt = none

instance (d : Accounts) (token : String) : Decidable (d.Unused token) :=
  decidable_of_iff ((d.inviteByToken token).any fun i => i.acceptedAt.isNone) <| by
    rw [Unused]
    cases d.inviteByToken token <;> simp

def uses (d : Accounts) (token : String) : ℕ := if d.Unused token then 1 else 0

theorem uses_le_one : d.uses token ≤ 1 := by
  unfold uses
  split <;> omega

theorem uses_of_unused (h : d.Unused token) : d.uses token = 1 := if_pos h

theorem uses_of_not (h : ¬ d.Unused token) : d.uses token = 0 := if_neg h

theorem uses_mono (h : d'.Unused token → d.Unused token) : d'.uses token ≤ d.uses token := by
  by_cases h' : d'.Unused token
  · rw [uses_of_unused h', uses_of_unused (h h')]
  · rw [uses_of_not h']
    exact Nat.zero_le _

theorem uses_congr (h : d'.inviteByToken token = d.inviteByToken token) :
    d'.uses token = d.uses token := by
  have hiff : d'.Unused token ↔ d.Unused token := by rw [Unused, h, Unused]
  exact le_antisymm (uses_mono hiff.mp) (uses_mono hiff.mpr)

theorem Unused.of_sub (hd : d.Consistent)
    (hsub : ∀ i' ∈ d'.invites, ∃ i ∈ d.invites, i.token = i'.token ∧ i.acceptedAt = i'.acceptedAt)
    (h : d'.Unused token) : d.Unused token := by
  obtain ⟨i', hi', hnone⟩ := h
  obtain ⟨hmem', rfl⟩ := inviteByToken_mem hi'
  obtain ⟨i, hmem, htoken, haccepted⟩ := hsub i' hmem'
  exact ⟨i, htoken ▸ hd.inviteByToken_of_mem hmem, haccepted.trans hnone⟩

/-- What a write leaves of the invites: none comes back to use, and a locked row is as it was. -/
structure KeepsInvites (d d' : Accounts) : Prop where
  unused : ∀ token, d'.Unused token → d.Unused token
  locked : ∀ token ∈ d.lockedInvites, d'.inviteByToken token = d.inviteByToken token
  locks : d'.lockedInvites = d.lockedInvites

theorem KeepsInvites.of_same (hinvites : d'.invites = d.invites)
    (hlocks : d'.lockedInvites = d.lockedInvites) : KeepsInvites d d' where
  unused token h := by rwa [Unused, inviteByToken, hinvites] at h
  locked token _ := by rw [inviteByToken, hinvites, inviteByToken]
  locks := hlocks

theorem removeUser_keepsInvites (hd : d.Consistent)
    (hlocked : ∀ i ∈ d.invites, i.createdBy = some id → i.token ∉ d.lockedInvites) :
    KeepsInvites d (d.removeUser id) where
  unused token := by
    refine Unused.of_sub hd fun i' hi' => ?_
    obtain ⟨i, hi, rfl⟩ := List.mem_map.mp hi'
    refine ⟨i, hi, ?_⟩
    split <;> exact ⟨rfl, rfl⟩
  locked token htoken := by
    have hmap : (d.removeUser id).inviteByToken token = (d.inviteByToken token).map fun i =>
        if i.createdBy = some id then { i with createdBy := none } else i :=
      lookup_map (fun i => by split <;> rfl) token d.invites
    rw [hmap]
    cases hi : d.inviteByToken token with
    | none => rfl
    | some i =>
      obtain ⟨hmem, rfl⟩ := inviteByToken_mem hi
      rw [Option.map_some, if_neg fun hby => hlocked i hmem hby htoken]
  locks := rfl

theorem filter_keepsInvites {p : Invite → Bool} (hd : d.Consistent)
    (hlocked : ∀ i ∈ d.invites, i.token ∈ d.lockedInvites → p i = true)
    (hinvites : d'.invites = d.invites.filter p) (hlocks : d'.lockedInvites = d.lockedInvites) :
    KeepsInvites d d' where
  unused token := by
    refine Unused.of_sub hd fun i hi => ⟨i, ?_, rfl, rfl⟩
    rw [hinvites] at hi
    exact (List.mem_filter.mp hi).1
  locked token htoken := by
    rw [inviteByToken, hinvites]
    exact lookup_filter fun i hi hit => hlocked i hi (hit ▸ htoken)
  locks := hlocks

theorem inviteByToken_markAccepted (token' : String) :
    (d.markAccepted B token now).inviteByToken token' =
      if token' = token then (d.inviteByToken token').map (Invite.accepted (B.ts now))
      else d.inviteByToken token' := by
  split
  · rename_i h
    rw [h]
    exact lookup_modify_self (f := Invite.accepted (B.ts now)) (fun _ => rfl) token d.invites
  · rename_i h
    exact lookup_modify_ne (f := Invite.accepted (B.ts now)) (fun _ => rfl) h d.invites

theorem unused_markAccepted (token' : String) :
    (d.markAccepted B token now).Unused token' ↔ token' ≠ token ∧ d.Unused token' := by
  unfold Unused
  rw [inviteByToken_markAccepted]
  split
  · rename_i h
    simp only [h, ne_eq, not_true_eq_false, false_and, iff_false, not_exists, not_and]
    intro i hi
    obtain ⟨i, -, rfl⟩ := Option.map_eq_some_iff.mp hi
    exact Option.some_ne_none _
  · rename_i h
    simp [h]

theorem joinedRole_atLeast (before : Option TeamMember) (role : TeamRole) :
    (joinedRole before role).AtLeast role ∧
      ∀ m, before = some m → (joinedRole before role).AtLeast m.role := by
  unfold joinedRole TeamRole.AtLeast
  refine ⟨fun h => ?_, ?_⟩
  · split <;> [rfl; exact h]
  · rintro m rfl h
    simp [h]

theorem join_member {teamId userId : Id} {role : TeamRole} {u : Unit}
    (h : d.join B teamId userId role now = .ok (u, d')) :
    ∃ m, d'.memberOf teamId userId = some m ∧ m.role = joinedRole (d.memberOf teamId userId) role := by
  obtain ⟨-, rfl⟩ := upsertMember_eq_ok.mp h
  generalize joinedRole (d.memberOf teamId userId) role = joined
  cases hm : d.memberOf teamId userId with
  | none =>
    refine ⟨⟨teamId, userId, joined, B.ts now⟩, ?_, rfl⟩
    have hrows : (d.setMember teamId userId (some joined) (B.ts now)).teamMembers =
        d.teamMembers ++ [⟨teamId, userId, joined, B.ts now⟩] := by
      simp only [TeamTables.setMember, hm]
    have hnone : lookup TeamMember.key (teamId, userId) d.teamMembers = none := hm
    change lookup _ _ (d.setMember teamId userId (some joined) (B.ts now)).teamMembers = _
    rw [hrows, lookup_append_single, hnone]
    simp [TeamMember.key]
  | some m =>
    refine ⟨m.withRole joined, ?_, rfl⟩
    have hrows : (d.setMember teamId userId (some joined) (B.ts now)).teamMembers =
        Table.modify TeamMember.key (teamId, userId) (TeamMember.withRole joined) d.teamMembers := by
      simp only [TeamTables.setMember, hm]
    have hsome : lookup TeamMember.key (teamId, userId) d.teamMembers = some m := hm
    change lookup _ _ (d.setMember teamId userId (some joined) (B.ts now)).teamMembers = _
    rw [hrows, lookup_modify_self (TeamMember.withRole_key joined), hsome]
    rfl

/-- An account that has been read has kept its address, and is active if it was. -/
def Remembers (d : Accounts) (u : UserRow) : Prop :=
  u.id < d.nextId ∧ ∀ v ∈ d.users, v.id = u.id →
    v.email = u.email ∧ (u.status = .active → v.status = .active)

theorem remembers_of_mem (hd : d.Consistent) {u : UserRow} (hu : u ∈ d.users) : d.Remembers u := by
  refine ⟨hd.userFresh u hu, fun v hv hid => ?_⟩
  obtain rfl := hd.userIds.eq_of_key hv hu hid
  exact ⟨rfl, id⟩

theorem Remembers.modify {u : UserRow} {f : UserRow → UserRow} (h : d.Remembers u)
    (hid : ∀ v, (f v).id = v.id) (hemail : ∀ v, (f v).email = v.email)
    (hstatus : ∀ v, v.status = .active → (f v).status = .active)
    (husers : d'.users = Table.modify UserRow.id id f d.users) (hnext : d'.nextId = d.nextId) :
    d'.Remembers u := by
  refine ⟨hnext ▸ h.1, fun v hv hvid => ?_⟩
  obtain ⟨v, hmem, rfl⟩ := mem_modify.mp (husers ▸ hv)
  clear hv
  by_cases hv : v.id = id
  · rw [if_pos hv] at hvid ⊢
    obtain ⟨hv, hactive⟩ := h.2 v hmem ((hid v).symm.trans hvid)
    exact ⟨(hemail v).trans hv, fun hu => hstatus v (hactive hu)⟩
  · rw [if_neg hv] at hvid ⊢
    exact h.2 v hmem hvid

theorem Remembers.addUser {u : UserRow} {new : NewUser} (h : d.Remembers u) :
    (d.addUser B new now).Remembers u := by
  refine ⟨Nat.lt_succ_of_lt h.1, fun v hv hid => ?_⟩
  rcases List.mem_append.mp hv with hv | hv
  · exact h.2 v hv hid
  · obtain rfl := List.mem_singleton.mp hv
    exact absurd hid h.1.ne'

end Accounts

open Accounts Auth

/-- The token of the invite that a write creates. -/
def Auth.Write.issues : Write → Option String
  | createInvite new => some new.token
  | _ => none

def Auth.Write.deactivates : Write → Bool
  | updateUser _ update => update.status = some .pending
  | _ => false

/-- Writes that leave the users alone draw ids at most for other rows. -/
theorem Accounts.Remembers.of_frame {B : AccountBackend} {now : Timestamp} {d d' : Accounts}
    {w : Write} {r : w.Reply} {u : UserRow} (h : d.Remembers u)
    (hrun : w.run B now d = .ok (r, d')) (htouch : w.touchesUsers = false) : d'.Remembers u := by
  refine ⟨Nat.lt_of_lt_of_le h.1 (Write.nextId_le hrun), fun v hv hid => ?_⟩
  exact h.2 v ((Write.frame hrun).users htouch ▸ hv) hid

/-- What has been read of an account stays true, until it is sent back to approval. -/
theorem Accounts.Remembers.run {B : AccountBackend} {now : Timestamp} {d d' : Accounts} {w : Write}
    {r : w.Reply} {u : UserRow} (h : d.Remembers u) (hrun : w.run B now d = .ok (r, d'))
    (hactive : w.deactivates = false) : d'.Remembers u := by
  cases htouch : w.touchesUsers with
  | false => exact h.of_frame hrun htouch
  | true =>
    cases w with
    | createAccount new initialOwner =>
      obtain ⟨-, -, -, rfl⟩ := createAccount_eq_ok.mp hrun
      exact h.addUser
    | setupInsert new =>
      obtain ⟨-, -, rfl⟩ := setupInsert_eq_ok.mp hrun
      exact h.addUser
    | updateUser id update =>
      obtain ⟨_, -, rfl⟩ := updateUser_eq_ok.mp hrun
      refine h.modify (f := update.apply) (fun _ => rfl) (fun _ => rfl) (fun v hv => ?_)
        rfl rfl
      have hne : update.status ≠ some .pending := by simpa [Write.deactivates] using hactive
      rcases hs : update.status with _ | _ | _
      · simpa [UserUpdate.apply, hs] using hv
      · simp [UserUpdate.apply, hs]
      · exact absurd hs hne
    | setInstanceRole id role =>
      obtain ⟨-, _, -, -, rfl⟩ := setInstanceRole_eq_ok.mp hrun
      exact h.modify (f := UserRow.withRole role) (fun _ => rfl) (fun _ => rfl)
        (fun _ hv => hv) rfl rfl
    | deleteUser id =>
      obtain ⟨-, -, -, rfl⟩ := deleteUser_eq_ok.mp hrun
      exact ⟨h.1, fun v hv => h.2 v (mem_remove.mp hv).1⟩
    | convertToSso id =>
      obtain ⟨_, -, -, rfl⟩ := convertToSso_eq_ok.mp hrun
      exact h.modify (f := UserRow.ssoOnly) (fun _ => rfl) (fun _ => rfl)
        (fun _ hv => hv) rfl rfl
    | _ => cases htouch

theorem Accounts.keepsInvites_of_run {B : AccountBackend} {now : Timestamp} {d d' : Accounts}
    (hd : d.Consistent) {w : Write} {r : w.Reply} (hrun : w.run B now d = .ok (r, d'))
    (haccepts : w.accepts = false) (hcreates : w.issues = none) : KeepsInvites d d' := by
  cases htouch : w.touchesInvites with
  | false =>
    have hframe := Write.frame hrun
    refine .of_same (hframe.invites htouch) ?_
    cases hlocks : w.touchesLocks with
    | false => exact hframe.lockedInvites hlocks
    | true =>
      cases w with
      | setupLock =>
        obtain ⟨-, -, rfl⟩ := setupLock_eq_ok.mp hrun
        rfl
      | setupInsert new =>
        obtain ⟨-, -, rfl⟩ := setupInsert_eq_ok.mp hrun
        rfl
      | setupRollback =>
        cases hrun
        rfl
      | acceptClaim token now => cases haccepts
      | acceptCommit token teamId userId role now => cases haccepts
      | acceptRollback token => cases haccepts
      | _ => cases hlocks
  | true =>
    cases w with
    | deleteUser id =>
      obtain ⟨-, -, hlocked, rfl⟩ := deleteUser_eq_ok.mp hrun
      exact removeUser_keepsInvites hd hlocked
    | deleteTeam id moveProjectsTo =>
      obtain ⟨hlocked, _, rfl⟩ := deleteTeam_of_ok hrun
      refine filter_keepsInvites (p := fun i => i.teamId ≠ id) hd (fun i hi ht => ?_) rfl rfl
      exact decide_eq_true fun hid => hlocked i hi hid ht
    | deleteInvite token =>
      obtain ⟨hlocked, rfl⟩ := deleteInvite_eq_ok.mp hrun
      refine filter_keepsInvites (p := fun i => i.token ≠ token) hd (fun i hi ht => ?_) rfl rfl
      exact decide_eq_true fun heq => hlocked (heq ▸ ht)
    | createInvite new => cases hcreates
    | accept token userId now => cases haccepts
    | acceptCommit token teamId userId role now => cases haccepts
    | _ => cases htouch

end Soika
