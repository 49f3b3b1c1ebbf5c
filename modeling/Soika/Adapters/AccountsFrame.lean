import Soika.Adapters.AccountsSpec
import Soika.Auth.Server

/-! # Which tables a write touches

A write leaves the tables that it does not name as they were.
-/

namespace Soika

open Accounts Auth Interaction

namespace Auth.Write

def touchesUsers : Write → Bool
  | createAccount _ _ | setupInsert _ | updateUser _ _ | setInstanceRole _ _ | deleteUser _ => true
  | convertToSso _ => true
  | _ => false

def touchesMembers : Write → Bool
  | createAccount _ _ | setupInsert _ | deleteUser _ | deleteTeam _ _ => true
  | addMember _ _ _ | setMemberRole _ _ _ | removeMember _ _ => true
  | accept _ _ _ | acceptCommit _ _ _ _ _ => true
  | _ => false

def touchesInvites : Write → Bool
  | deleteUser _ | deleteTeam _ _ | createInvite _ | deleteInvite _ => true
  | accept _ _ _ | acceptCommit _ _ _ _ _ => true
  | _ => false

def touchesSessions : Write → Bool
  | deleteUser _ | convertToSso _ | createSession _ _ _ => true
  | deleteSession _ | deleteSessionsForUser _ => true
  | _ => false

def touchesPasskeys : Write → Bool
  | deleteUser _ | convertToSso _ | createPasskey _ | touchPasskey _ _ _ | deletePasskey _ _ => true
  | _ => false

def touchesChallenges : Write → Bool
  | createChallenge _ _ _ _ _ | takeChallenge _ _ _ => true
  | _ => false

def touchesLocks : Write → Bool
  | setupLock | setupInsert _ | setupRollback => true
  | acceptClaim _ _ | acceptCommit _ _ _ _ _ | acceptRollback _ => true
  | _ => false

end Auth.Write

/-- What a write leaves as it was. -/
structure Auth.Write.Frame (w : Write) (d d' : Accounts) : Prop where
  users : w.touchesUsers = false → d'.users = d.users
  members : w.touchesMembers = false → d'.teamMembers = d.teamMembers
  teams : w.touchesMembers = false → d'.teams = d.teams
  invites : w.touchesInvites = false → d'.invites = d.invites
  sessions : w.touchesSessions = false → d'.sessions = d.sessions
  passkeys : w.touchesPasskeys = false → d'.passkeys = d.passkeys
  challenges : w.touchesChallenges = false → d'.authChallenges = d.authChallenges
  lockedInvites : w.touchesLocks = false → d'.lockedInvites = d.lockedInvites
  settingsLocked : w.touchesLocks = false → d'.settingsLocked = d.settingsLocked

theorem Accounts.join_frame {B : AccountBackend} {now : Timestamp} {d d' : Accounts}
    {teamId userId : Id} {role : TeamRole} {u : Unit}
    (h : d.join B teamId userId role now = .ok (u, d')) :
    ∃ teamMembers, d' = { d with teamMembers } := by
  obtain ⟨-, rfl⟩ := upsertMember_eq_ok.mp h
  exact ⟨_, rfl⟩

/-- What a write leaves alone; ids are drawn one after the other. -/
theorem Auth.Write.frame_and_ids {B : AccountBackend} {now : Timestamp} {d d' : Accounts} {w : Write}
    {r : w.Reply} (hrun : w.run B now d = .ok (r, d')) :
    w.Frame d d' ∧ d.nextId ≤ d'.nextId := by
  cases w with
  | createAccount new initialOwner =>
    obtain ⟨-, -, -, rfl⟩ := createAccount_eq_ok.mp hrun
    exact ⟨by constructor <;> rintro ⟨⟩ <;> rfl, Nat.le_succ _⟩
  | setupLock =>
    obtain ⟨-, -, rfl⟩ := setupLock_eq_ok.mp hrun
    exact ⟨by constructor <;> rintro ⟨⟩ <;> rfl, le_rfl⟩
  | setupInsert new =>
    obtain ⟨-, -, rfl⟩ := setupInsert_eq_ok.mp hrun
    exact ⟨by constructor <;> rintro ⟨⟩ <;> rfl, Nat.le_succ _⟩
  | updateUser id update =>
    obtain ⟨_, -, rfl⟩ := updateUser_eq_ok.mp hrun
    exact ⟨by constructor <;> rintro ⟨⟩ <;> rfl, le_rfl⟩
  | setInstanceRole id role =>
    obtain ⟨-, _, -, -, rfl⟩ := setInstanceRole_eq_ok.mp hrun
    exact ⟨by constructor <;> rintro ⟨⟩ <;> rfl, le_rfl⟩
  | deleteUser id =>
    obtain ⟨-, -, -, rfl⟩ := deleteUser_eq_ok.mp hrun
    exact ⟨by constructor <;> rintro ⟨⟩ <;> rfl, le_rfl⟩
  | convertToSso id =>
    obtain ⟨_, -, -, rfl⟩ := convertToSso_eq_ok.mp hrun
    exact ⟨by constructor <;> rintro ⟨⟩ <;> rfl, le_rfl⟩
  | createSession id userId expiresAt =>
    obtain ⟨-, -, -, rfl⟩ := createSession_eq_ok.mp hrun
    exact ⟨by constructor <;> rintro ⟨⟩ <;> rfl, le_rfl⟩
  | addMember teamId userId role =>
    obtain ⟨-, -, rfl⟩ := addMember_eq_ok.mp hrun
    exact ⟨by constructor <;> rintro ⟨⟩ <;> rfl, le_rfl⟩
  | setMemberRole teamId userId role =>
    obtain ⟨-, _, -, rfl⟩ := setMemberRole_eq_ok.mp hrun
    exact ⟨by constructor <;> rintro ⟨⟩ <;> rfl, le_rfl⟩
  | removeMember teamId userId =>
    obtain ⟨-, rfl⟩ := removeMember_eq_ok.mp hrun
    exact ⟨by constructor <;> rintro ⟨⟩ <;> rfl, le_rfl⟩
  | deleteTeam id moveProjectsTo =>
    obtain ⟨-, _, rfl⟩ := deleteTeam_of_ok hrun
    exact ⟨by constructor <;> rintro ⟨⟩ <;> rfl, le_rfl⟩
  | createInvite new =>
    obtain ⟨-, -, -, rfl⟩ := createInvite_eq_ok.mp hrun
    exact ⟨by constructor <;> rintro ⟨⟩ <;> rfl, le_rfl⟩
  | deleteInvite token =>
    obtain ⟨-, rfl⟩ := deleteInvite_eq_ok.mp hrun
    exact ⟨by constructor <;> rintro ⟨⟩ <;> rfl, le_rfl⟩
  | accept token userId now =>
    obtain ⟨_, -, -, hjoin⟩ := accept_eq_ok.mp hrun
    obtain ⟨_, rfl⟩ := join_frame hjoin
    exact ⟨by constructor <;> rintro ⟨⟩ <;> rfl, le_rfl⟩
  | acceptClaim token now =>
    obtain ⟨-, -, rfl⟩ := acceptClaim_eq_ok.mp hrun
    exact ⟨by constructor <;> rintro ⟨⟩ <;> rfl, le_rfl⟩
  | acceptCommit token teamId userId role now =>
    obtain ⟨joined, hjoin, rfl⟩ := acceptCommit_eq_ok.mp hrun
    obtain ⟨_, rfl⟩ := join_frame hjoin
    exact ⟨by constructor <;> rintro ⟨⟩ <;> rfl, le_rfl⟩
  | createPasskey new =>
    obtain ⟨-, -, -, rfl⟩ := createPasskey_eq_ok.mp hrun
    exact ⟨by constructor <;> rintro ⟨⟩ <;> rfl, Nat.le_succ _⟩
  | deletePasskey userId id =>
    obtain ⟨-, rfl⟩ := deletePasskey_eq_ok.mp hrun
    exact ⟨by constructor <;> rintro ⟨⟩ <;> rfl, le_rfl⟩
  | createChallenge dropped id purpose state expiresAt =>
    obtain ⟨_, rfl⟩ := createChallenge_of_ok hrun
    exact ⟨by constructor <;> rintro ⟨⟩ <;> rfl, le_rfl⟩
  | takeChallenge id purpose now =>
    obtain ⟨_, hd⟩ := takeChallenge_state (B := B) (d := d) id purpose
    obtain rfl : _ = d' := hd.symm.trans (congrArg Prod.snd (Except.ok.inj hrun))
    exact ⟨by constructor <;> rintro ⟨⟩ <;> rfl, le_rfl⟩
  | setOrgName name =>
    obtain ⟨-, rfl⟩ := setOrgName_eq_ok.mp hrun
    exact ⟨by constructor <;> rintro ⟨⟩ <;> rfl, le_rfl⟩
  | _ =>
    cases hrun
    exact ⟨by constructor <;> rintro ⟨⟩ <;> rfl, le_rfl⟩

theorem Auth.Write.frame {B : AccountBackend} {now : Timestamp} {d d' : Accounts} {w : Write}
    {r : w.Reply} (hrun : w.run B now d = .ok (r, d')) : w.Frame d d' :=
  (frame_and_ids hrun).1

theorem Auth.Write.nextId_le {B : AccountBackend} {now : Timestamp} {d d' : Accounts} {w : Write}
    {r : w.Reply} (hrun : w.run B now d = .ok (r, d')) : d.nextId ≤ d'.nextId :=
  (frame_and_ids hrun).2

theorem Auth.Write.sessions_cases {B : AccountBackend} {now : Timestamp} {d d' : Accounts} {w : Write}
    {r : w.Reply} (hrun : w.run B now d = .ok (r, d')) :
    (∃ id userId expiresAt, w = .createSession id userId expiresAt ∧
        d'.sessions = d.sessions ++ [⟨id, userId, B.ts now, B.ts expiresAt⟩]) ∨
      d'.sessions.Sublist d.sessions := by
  by_cases hw : w.touchesSessions = true
  · cases w with
    | createSession id userId expiresAt =>
      obtain ⟨-, -, -, rfl⟩ := createSession_eq_ok.mp hrun
      exact .inl ⟨id, userId, expiresAt, rfl, rfl⟩
    | deleteUser id =>
      obtain ⟨-, -, -, rfl⟩ := deleteUser_eq_ok.mp hrun
      exact .inr List.filter_sublist
    | convertToSso id =>
      obtain ⟨_, -, -, rfl⟩ := convertToSso_eq_ok.mp hrun
      exact .inr List.filter_sublist
    | deleteSession id =>
      cases hrun
      exact .inr List.filter_sublist
    | deleteSessionsForUser userId =>
      cases hrun
      exact .inr List.filter_sublist
    | _ => cases hw
  · rw [(frame hrun).sessions (Bool.eq_false_iff.mpr hw)]
    exact .inr (List.Sublist.refl _)

theorem Auth.Host.sessions_cases {H : Host} (c : AuthCall) (fault : Option Error) (s : Server) :
    (∃ id userId expiresAt, c = .write (.createSession id userId expiresAt) ∧
        (H.machine.answer c fault s).2.db.sessions =
          s.db.sessions ++ [⟨id, userId, H.backend.ts s.clock, H.backend.ts expiresAt⟩]) ∨
      (H.machine.answer c fault s).2.db.sessions.Sublist s.db.sessions := by
  cases fault with
  | some e => exact .inr (List.Sublist.refl _)
  | none =>
    rw [Machine.answer_none]
    cases c with
    | write w =>
      rcases Host.runWrite_state (H := H) w s with hs | ⟨r, d, hrun, hs⟩
      · rw [Host.machine_write, hs]
        exact .inr (List.Sublist.refl _)
      · rw [Host.machine_write, hs]
        rcases Write.sessions_cases hrun with ⟨id, userId, expiresAt, rfl, hd⟩ | hd
        · exact .inl ⟨id, userId, expiresAt, rfl, hd⟩
        · exact .inr hd
    | _ => exact .inr (List.Sublist.refl _)

/-- What a write does to the passkeys: it adds one, updates one, or some may be gone. -/
theorem Auth.Write.passkeys_cases {B : AccountBackend} {now : Timestamp} {d d' : Accounts} {w : Write}
    {r : w.Reply} (hrun : w.run B now d = .ok (r, d')) :
    (∃ new id, w = .createPasskey new ∧ d'.passkeys = d.passkeys ++ [new.row id (B.ts now)]) ∨
      (∃ id credential usedAt, w = .touchPasskey id credential usedAt ∧
        d' = d.touchPasskey B id credential usedAt) ∨
      d'.passkeys.Sublist d.passkeys := by
  by_cases hw : w.touchesPasskeys = true
  · cases w with
    | createPasskey new =>
      obtain ⟨-, -, -, rfl⟩ := createPasskey_eq_ok.mp hrun
      exact .inl ⟨new, d.nextId, rfl, rfl⟩
    | touchPasskey id credential usedAt =>
      cases hrun
      exact .inr (.inl ⟨id, credential, usedAt, rfl, rfl⟩)
    | deletePasskey userId id =>
      obtain ⟨-, rfl⟩ := deletePasskey_eq_ok.mp hrun
      exact .inr (.inr List.filter_sublist)
    | deleteUser id =>
      obtain ⟨-, -, -, rfl⟩ := deleteUser_eq_ok.mp hrun
      exact .inr (.inr List.filter_sublist)
    | convertToSso id =>
      obtain ⟨_, -, -, rfl⟩ := convertToSso_eq_ok.mp hrun
      exact .inr (.inr List.filter_sublist)
    | _ => cases hw
  · rw [(frame hrun).passkeys (Bool.eq_false_iff.mpr hw)]
    exact .inr (.inr (List.Sublist.refl _))

theorem Auth.Host.passkeys_cases {H : Host} (c : AuthCall) (fault : Option Error) (s : Server) :
    (∃ new id, fault = none ∧ c = .write (.createPasskey new) ∧
        (H.machine.answer c fault s).2.db.passkeys =
          s.db.passkeys ++ [new.row id (H.backend.ts s.clock)]) ∨
      (∃ id credential usedAt, fault = none ∧ c = .write (.touchPasskey id credential usedAt) ∧
        (H.machine.answer c fault s).2.db = s.db.touchPasskey H.backend id credential usedAt) ∨
      (H.machine.answer c fault s).2.db.passkeys.Sublist s.db.passkeys := by
  cases fault with
  | some e => exact .inr (.inr (List.Sublist.refl _))
  | none =>
    rw [Machine.answer_none]
    cases c with
    | write w =>
      rcases Host.runWrite_state (H := H) w s with hs | ⟨r, d, hrun, hs⟩
      · rw [Host.machine_write, hs]
        exact .inr (.inr (List.Sublist.refl _))
      · rw [Host.machine_write, hs]
        rcases Write.passkeys_cases hrun with ⟨new, id, rfl, hd⟩ | ⟨id, text, usedAt, rfl, rfl⟩ | hd
        · exact .inl ⟨new, id, rfl, rfl, hd⟩
        · exact .inr (.inl ⟨id, text, usedAt, rfl, rfl, rfl⟩)
        · exact .inr (.inr hd)
    | _ => exact .inr (.inr (List.Sublist.refl _))

end Soika
