import Soika.Api.Requests
import Soika.Library.Guarded

/-! # What a request has read of its caller's rights

The replies in the history of a request that show who its session stands for, and which project,
team or account that user may act on. Each call that writes needs such replies before it.
-/

namespace Soika.Site

open Interaction Auth

abbrev SiteHistory := List (Transition siteCalls Error Server)

abbrev Knowledge := (q : Query) → q.Reply → Prop

def Told (h : SiteHistory) : Knowledge := fun q r => Answered (S := siteCalls) h (.inl (.query q)) r

def Seen (h : SiteHistory) (q : SiteQuery) (r : q.Reply) : Prop :=
  Answered (S := siteCalls) h (.inr (.read q)) r

def Wrote (h : SiteHistory) (w : SiteWrite) (r : w.Reply) : Prop :=
  Answered (S := siteCalls) h (.inr (.write w)) r

section Evidence

variable (app : AppState) (presented : String → Prop)

/-- A session that is presented was found, and its account admitted as this user. -/
def Admitted (K : Knowledge) (user : UserRow) : Prop :=
  ∃ sessionId session stored, presented sessionId ∧ K (.findSession sessionId) (some session) ∧
    K (.findUserById session.userId) (some stored) ∧ admission app stored = .ok user

def Manages (K : Knowledge) : Prop :=
  ∃ user, Admitted app presented K user ∧ user.instanceRole.canManageInstance = true

def Owns (K : Knowledge) : Prop :=
  ∃ user, Admitted app presented K user ∧ user.instanceRole.isOwner = true

/-- The caller may administer the account: a manager, and an owner when the account is of one. -/
def MayAdminister (K : Knowledge) (id : Id) : Prop :=
  Manages app presented K ∧ (Owns app presented K ∨ ∃ target, K (.findUserById id) (some target) ∧
    (app.adminUsers.apply target).instanceRole.isOwner = false)

def TeamAdmin (K : Knowledge) (teamId : Id) : Prop :=
  Manages app presented K ∨
    ∃ user, Admitted app presented K user ∧ K (.memberRole teamId user.id) (some .admin)

variable (h : SiteHistory)

/-- The caller may view the team: as an admin, as a member, or from the list of their teams. -/
inductive Belongs (teamId : Id) : Prop where
  | admin (hadmin : TeamAdmin app presented (Told h) teamId)
  | member {user : UserRow} (huser : Admitted app presented (Told h) user)
      (hmember : Seen h (.isMember teamId user.id) true)
  | listed {user : UserRow} {rows : List TeamRow} {row : TeamRow}
      (huser : Admitted app presented (Told h) user) (hrows : Seen h (.teamsOfUser user.id) rows)
      (hrow : row ∈ rows) (hid : row.id = teamId)

/-- The caller has the role on the project, from its owning team or the instance. -/
def Holds (role : Role) (projectId : Id) : Prop :=
  Manages app presented (Told h) ∨ ∃ user row teamRole, Admitted app presented (Told h) user ∧
    Seen h (.projectById projectId) (some row) ∧
    Told h (.memberRole row.teamId user.id) (some teamRole) ∧ (role = .admin → teamRole = .admin)

def ReachesIssue (issueId : Id) : Prop :=
  ∃ shortId issue, Seen h (.issueByShortId shortId) (some issue) ∧ issue.id = issueId ∧
    Holds app presented h .member issue.projectId

def PermitsChange (K : Knowledge) : Auth.Write → Prop
  | .addMember teamId _ _ | .setMemberRole teamId _ _ | .removeMember teamId _ =>
    TeamAdmin app presented K teamId
  | .createInvite new => TeamAdmin app presented K new.teamId
  | .deleteInvite token =>
    ∃ invite, K (.findInvite token) (some invite) ∧ TeamAdmin app presented K invite.teamId
  | .deleteTeam _ _ => Manages app presented K
  | .updateUser id _ | .deleteUser id => MayAdminister app presented K id
  | .setInstanceRole id role =>
    MayAdminister app presented K id ∧ (role = .owner → Owns app presented K)
  | _ => False

def PermitsWrite : SiteWrite → Prop
  | .insertProject new _ => TeamAdmin app presented (Told h) new.teamId
  | .updateProject id u =>
    Holds app presented h .admin id ∧ (u.teamId ≠ none → Manages app presented (Told h))
  | .regenerateDsn id _ | .deleteProject id => Holds app presented h .admin id
  | .addFavorite userId projectId | .removeFavorite userId projectId =>
    (∃ user, Admitted app presented (Told h) user ∧ user.id = userId) ∧
      Holds app presented h .member projectId
  | .createTeam _ | .renameTeam _ _ => Manages app presented (Told h)
  | .setStatus issueId _ | .mute issueId _ _ | .overrideFingerprint issueId _
  | .lockAndMerge issueId _ | .renameLocked issueId _ => ReachesIssue app presented h issueId

def Permits : siteCalls.Cmd → Prop
  | .inl (.query _) => True
  | .inl (.write w) => PermitsChange app presented (Told h) w
  | .inl _ => False
  | .inr (.read _) => True
  | .inr (.write w) => PermitsWrite app presented h w

/-- Why a project may be shown: the caller's role on it, their list of projects, the view of a team
they belong to, or its creation. -/
inductive Shown (projectId : Id) : Prop where
  | role (hrole : Holds app presented h .member projectId)
  | listed {user : UserRow} {rows : List ProjectRow} {row : ProjectRow}
      (huser : Admitted app presented (Told h) user) (hrows : Seen h (.projectsOfUser user.id) rows)
      (hrow : row ∈ rows) (hid : row.id = projectId)
  | team {teamId : Id} {rows : List ProjectRow} {row : ProjectRow}
      (hteam : Belongs app presented h teamId) (hrows : Seen h (.projectsOfTeam teamId) rows)
      (hrow : row ∈ rows) (hid : row.id = projectId)
  | created {new : NewProject} {shortId : String} {row : ProjectRow}
      (hteam : TeamAdmin app presented (Told h) new.teamId)
      (hrow : Wrote h (.insertProject new shortId) row) (hid : row.id = projectId)

structure Warranted (r : Response) : Prop where
  projects : ∀ id ∈ r.projectIds, Shown app presented h id
  issues : ∀ i ∈ r.issuesShown, Holds app presented h .member i.projectId ∨
    ReachesIssue app presented h i.id
  events : ∀ e ∈ r.eventsShown, Holds app presented h .member e.projectId ∨
    ReachesIssue app presented h e.issueId
  teams : ∀ id ∈ r.teamIds, Belongs app presented h id
  users : ∀ u ∈ r.usersListed, Manages app presented (Told h)

def Warrants : Interaction.Outcome Error Response → Prop
  | .ok r => Warranted app presented h r
  | _ => True

end Evidence

section Mono

variable {app : AppState} {presented : String → Prop} {K K' : Knowledge}
  {h h' : SiteHistory} {id : Id}

theorem Told.mono (hsub : h ⊆ h') (q : Query) (r : q.Reply) (ha : Told h q r) : Told h' q r :=
  Answered.mono ha hsub

theorem Seen.mono (hsub : h ⊆ h') {q : SiteQuery} {r : q.Reply} (ha : Seen h q r) : Seen h' q r :=
  Answered.mono ha hsub

section

variable (hK : ∀ q r, K q r → K' q r)
include hK

theorem Admitted.mono {user : UserRow} (ha : Admitted app presented K user) :
    Admitted app presented K' user := by
  obtain ⟨sessionId, session, stored, hpresented, hsession, hstored, hadmitted⟩ := ha
  exact ⟨sessionId, session, stored, hpresented, hK _ _ hsession, hK _ _ hstored, hadmitted⟩

theorem Manages.mono (ha : Manages app presented K) : Manages app presented K' := by
  obtain ⟨user, huser, hrole⟩ := ha
  exact ⟨user, huser.mono hK, hrole⟩

theorem Owns.mono (ha : Owns app presented K) : Owns app presented K' := by
  obtain ⟨user, huser, hrole⟩ := ha
  exact ⟨user, huser.mono hK, hrole⟩

theorem TeamAdmin.mono (ha : TeamAdmin app presented K id) : TeamAdmin app presented K' id := by
  rcases ha with ha | ⟨user, huser, hrole⟩
  · exact .inl (ha.mono hK)
  · exact .inr ⟨user, huser.mono hK, hK _ _ hrole⟩

theorem MayAdminister.mono (ha : MayAdminister app presented K id) :
    MayAdminister app presented K' id := by
  obtain ⟨hmanages, howns | ⟨target, htarget, hrole⟩⟩ := ha
  · exact ⟨hmanages.mono hK, .inl (howns.mono hK)⟩
  · exact ⟨hmanages.mono hK, .inr ⟨target, hK _ _ htarget, hrole⟩⟩

theorem PermitsChange.mono {w : Auth.Write} (ha : PermitsChange app presented K w) :
    PermitsChange app presented K' w := by
  cases w with
  | addMember | setMemberRole | removeMember | createInvite => exact TeamAdmin.mono hK ha
  | deleteInvite token =>
    obtain ⟨invite, hinvite, hteam⟩ := ha
    exact ⟨invite, hK _ _ hinvite, hteam.mono hK⟩
  | deleteTeam => exact Manages.mono hK ha
  | updateUser | deleteUser => exact MayAdminister.mono hK ha
  | setInstanceRole id role => exact ⟨ha.1.mono hK, fun hrole => (ha.2 hrole).mono hK⟩
  | _ => exact ha.elim

end

section

variable (hsub : h ⊆ h')
include hsub

theorem Holds.mono {role : Role} (ha : Holds app presented h role id) :
    Holds app presented h' role id := by
  rcases ha with ha | ⟨user, row, teamRole, huser, hrow, hteam, hrole⟩
  · exact .inl (ha.mono (Told.mono hsub))
  · exact .inr ⟨user, row, teamRole, huser.mono (Told.mono hsub), hrow.mono hsub,
      Told.mono hsub _ _ hteam, hrole⟩

theorem Belongs.mono (ha : Belongs app presented h id) : Belongs app presented h' id := by
  cases ha with
  | admin hadmin => exact .admin (hadmin.mono (Told.mono hsub))
  | member huser hmember => exact .member (huser.mono (Told.mono hsub)) (hmember.mono hsub)
  | listed huser hrows hrow hid =>
    exact .listed (huser.mono (Told.mono hsub)) (hrows.mono hsub) hrow hid

theorem ReachesIssue.mono (ha : ReachesIssue app presented h id) :
    ReachesIssue app presented h' id := by
  obtain ⟨shortId, issue, hissue, hid, hholds⟩ := ha
  exact ⟨shortId, issue, hissue.mono hsub, hid, hholds.mono hsub⟩

end

theorem Holds.member {role : Role} (ha : Holds app presented h role id) :
    Holds app presented h .member id := by
  rcases ha with ha | ⟨user, row, teamRole, huser, hrow, hteam, -⟩
  · exact .inl ha
  · exact .inr ⟨user, row, teamRole, huser, hrow, hteam, nofun⟩

end Mono

end Soika.Site
