import Soika.Library.Table
import Soika.Domain.Notifications
import Soika.Domain.User

/-! # Teams, projects and users in the database

The tables that declarative management reads and writes, with the statements on them and
the constraints of the schema. What is stored about one team, or one project, is a view
of the tables under its name.
-/

namespace Soika

open Table

structure TeamRow where
  id : Id
  name : String
  createdAt : Timestamp
  updatedAt : Timestamp
  orphanedAt : Option Timestamp
  deriving DecidableEq

def TeamRow.unorphan (t : TeamRow) : TeamRow := { t with orphanedAt := none }

/-- A row of `team_member_grants`. -/
structure MemberGrantRow where
  teamId : Id
  email : String
  role : TeamRole
  deriving DecidableEq

/-- A row of `team_group_grants`. -/
structure GroupGrantRow where
  teamId : Id
  groupPath : String
  role : TeamRole
  deriving DecidableEq

/-- A row of `team_members`. -/
structure TeamMember where
  teamId : Id
  userId : Id
  role : TeamRole
  createdAt : Timestamp
  deriving DecidableEq

def TeamMember.key (m : TeamMember) : Id × Id := (m.teamId, m.userId)

def TeamMember.withRole (role : TeamRole) (m : TeamMember) : TeamMember := { m with role }

theorem TeamMember.withRole_key (role : TeamRole) (m : TeamMember) : (m.withRole role).key = m.key :=
  rfl

inductive TeamOwned where
  | invite (i : Invite)
  | defaultTeam (teamId : Id)
  deriving DecidableEq

def TeamOwned.teamId : TeamOwned → Id
  | invite i => i.teamId
  | defaultTeam teamId => teamId

inductive ProjectOwned where
  | favorite (userId projectId : Id)
  | tagMuteRule (id projectId : Id)
  deriving DecidableEq

def ProjectOwned.projectId : ProjectOwned → Id
  | favorite _ projectId => projectId
  | tagMuteRule _ projectId => projectId

/-- A row of `user_sso_groups`. -/
structure UserSsoGroup where
  userId : Id
  groupPath : String
  seenAt : Timestamp
  deriving DecidableEq

structure TeamTables where
  teams : List TeamRow
  memberGrants : List MemberGrantRow
  groupGrants : List GroupGrantRow
  teamMembers : List TeamMember
  invites : List Invite
  defaultTeams : List Id

structure ProjectTables where
  projects : List ProjectRow
  issues : List Issue
  events : List Event
  projectOwned : List ProjectOwned

structure UserTables where
  users : List UserRow
  userSsoGroups : List UserSsoGroup

structure Directory extends TeamTables, ProjectTables, UserTables where
  notificationSettings : NotificationConfig
  /-- The next `Id::new_v4`. -/
  nextId : Id

theorem forall_mem_snoc {α : Type} {p : α → Prop} {xs : List α} {a : α} (h : ∀ x ∈ xs, p x)
    (ha : p a) : ∀ x ∈ xs ++ [a], p x :=
  List.forall_mem_append.mpr ⟨h, by simpa using ha⟩

structure TeamView where
  row : TeamRow
  emails : List (String × TeamRole)
  groups : List (String × TeamRole)
  members : Id → Option TeamMember
  owned : List TeamOwned

namespace TeamTables

variable (T : TeamTables)

def teamNamed (name : String) : Option TeamRow := lookup TeamRow.name name T.teams

def emailsOf (id : Id) : List (String × TeamRole) :=
  (select MemberGrantRow.teamId id T.memberGrants).map fun g => (g.email, g.role)

def groupsOf (id : Id) : List (String × TeamRole) :=
  (select GroupGrantRow.teamId id T.groupGrants).map fun g => (g.groupPath, g.role)

def memberOf (id userId : Id) : Option TeamMember :=
  lookup TeamMember.key (id, userId) T.teamMembers

def teamOwned : List TeamOwned := T.invites.map .invite ++ T.defaultTeams.map .defaultTeam

def ownedOf (id : Id) : List TeamOwned := select TeamOwned.teamId id T.teamOwned

def viewOf (row : TeamRow) : TeamView where
  row := row
  emails := T.emailsOf row.id
  groups := T.groupsOf row.id
  members := T.memberOf row.id
  owned := T.ownedOf row.id

def view (name : String) : Option TeamView := (T.teamNamed name).map T.viewOf

/-- `UPDATE teams ... WHERE id = ?` -/
def modifyTeam (id : Id) (f : TeamRow → TeamRow) : TeamTables :=
  { T with teams := modify TeamRow.id id f T.teams }

/-- `UPDATE teams SET orphaned_at = NULL WHERE orphaned_at IS NOT NULL` -/
def unorphanTeams : TeamTables :=
  { T with teams := T.teams.map TeamRow.unorphan }

/-- `INSERT INTO teams` -/
def addTeam (row : TeamRow) : TeamTables := { T with teams := T.teams ++ [row] }

/-- `DELETE FROM team_member_grants WHERE team_id = ?` -/
def clearMemberGrants (id : Id) : TeamTables :=
  { T with memberGrants := remove MemberGrantRow.teamId id T.memberGrants }

/-- `DELETE FROM team_group_grants WHERE team_id = ?` -/
def clearGroupGrants (id : Id) : TeamTables :=
  { T with groupGrants := remove GroupGrantRow.teamId id T.groupGrants }

def addMemberGrant (g : MemberGrantRow) : TeamTables :=
  { T with memberGrants := T.memberGrants ++ [g] }

def addGroupGrant (g : GroupGrantRow) : TeamTables :=
  { T with groupGrants := T.groupGrants ++ [g] }

/-- `INSERT INTO team_members ... ON CONFLICT(team_id, user_id) DO UPDATE SET role = excluded.role`,
or `DELETE FROM team_members` when there is no role. -/
def setMember (id userId : Id) (role : Option TeamRole) (now : Timestamp) : TeamTables :=
  { T with teamMembers :=
      match role with
      | none => remove TeamMember.key (id, userId) T.teamMembers
      | some role =>
        match T.memberOf id userId with
        | some _ => modify TeamMember.key (id, userId) (TeamMember.withRole role) T.teamMembers
        | none => T.teamMembers ++ [⟨id, userId, role, now⟩] }

/-- `DELETE FROM teams WHERE id = ?`, which cascades. -/
def removeTeam (id : Id) : TeamTables where
  teams := remove TeamRow.id id T.teams
  memberGrants := remove MemberGrantRow.teamId id T.memberGrants
  groupGrants := remove GroupGrantRow.teamId id T.groupGrants
  teamMembers := remove TeamMember.teamId id T.teamMembers
  invites := remove Invite.teamId id T.invites
  defaultTeams := T.defaultTeams.filter (· ≠ id)

def HasTeam (id : Id) : Prop := ∃ t ∈ T.teams, t.id = id

/-- What the schema guarantees of these tables. -/
structure Consistent : Prop where
  teamIds : UniqueOn TeamRow.id T.teams
  teamNames : UniqueOn TeamRow.name T.teams
  memberKeys : UniqueOn TeamMember.key T.teamMembers
  grantTeam : ∀ g ∈ T.memberGrants, T.HasTeam g.teamId
  groupTeam : ∀ g ∈ T.groupGrants, T.HasTeam g.teamId
  memberTeam : ∀ m ∈ T.teamMembers, T.HasTeam m.teamId
  ownedTeam : ∀ o ∈ T.teamOwned, T.HasTeam o.teamId

variable {T}

theorem teamNamed_mem {name : String} {row : TeamRow} (h : T.teamNamed name = some row) :
    row ∈ T.teams ∧ row.name = name :=
  lookup_eq_some_mem h

theorem removeTeam_teamOwned (id : Id) :
    (T.removeTeam id).teamOwned = remove TeamOwned.teamId id T.teamOwned := by
  simp only [removeTeam, teamOwned, remove, List.filter_append, List.filter_map]
  rfl

theorem HasTeam.of_named {name : String} {row : TeamRow} (h : T.teamNamed name = some row) :
    T.HasTeam row.id :=
  ⟨row, (teamNamed_mem h).1, rfl⟩

namespace Consistent

theorem teamNamed_of_mem (h : T.Consistent) {row : TeamRow} (hrow : row ∈ T.teams) :
    T.teamNamed row.name = some row :=
  h.teamNames.lookup_of_mem hrow

theorem id_ne (h : T.Consistent) {m n : String} {a b : TeamRow} (ha : T.teamNamed m = some a)
    (hb : T.teamNamed n = some b) (hmn : m ≠ n) : a.id ≠ b.id := by
  intro hid
  obtain ⟨hat, ham⟩ := teamNamed_mem ha
  obtain ⟨hbt, hbn⟩ := teamNamed_mem hb
  have hab : a = b := h.teamIds.eq_of_key hat hbt hid
  exact hmn (by rw [← ham, ← hbn, hab])

theorem of_teams {T' : TeamTables} (h : T.Consistent) (hids : UniqueOn TeamRow.id T'.teams)
    (hnames : UniqueOn TeamRow.name T'.teams) (hteams : ∀ id, T.HasTeam id → T'.HasTeam id)
    (hgrants : T'.memberGrants = T.memberGrants) (hgroups : T'.groupGrants = T.groupGrants)
    (hmembers : T'.teamMembers = T.teamMembers) (howned : T'.teamOwned = T.teamOwned) :
    T'.Consistent where
  teamIds := hids
  teamNames := hnames
  memberKeys := hmembers ▸ h.memberKeys
  grantTeam g hg := hteams _ (h.grantTeam g (hgrants ▸ hg))
  groupTeam g hg := hteams _ (h.groupTeam g (hgroups ▸ hg))
  memberTeam m hm := hteams _ (h.memberTeam m (hmembers ▸ hm))
  ownedTeam o ho := hteams _ (h.ownedTeam o (howned ▸ ho))

end Consistent

theorem hasTeam_map {f : TeamRow → TeamRow} (hf : ∀ t, (f t).id = t.id) {rows : List TeamRow}
    {id : Id} (h : ∃ t ∈ rows, t.id = id) : ∃ t ∈ rows.map f, t.id = id := by
  obtain ⟨t, ht, rfl⟩ := h
  exact ⟨f t, List.mem_map_of_mem ht, hf t⟩

theorem Consistent.modifyTeam (h : T.Consistent) {id : Id} {f : TeamRow → TeamRow}
    (hid : ∀ t, (f t).id = t.id) (hname : ∀ t, (f t).name = t.name) :
    (T.modifyTeam id f).Consistent :=
  h.of_teams (h.teamIds.modify hid) (h.teamNames.modify hname)
    (fun _ ht => hasTeam_map (fun t => by split <;> simp [hid]) ht) rfl rfl rfl rfl

theorem Consistent.unorphanTeams (h : T.Consistent) : T.unorphanTeams.Consistent :=
  h.of_teams (h.teamIds.map (f := TeamRow.unorphan) fun _ => rfl)
    (h.teamNames.map (f := TeamRow.unorphan) fun _ => rfl)
    (fun _ ht => hasTeam_map (f := TeamRow.unorphan) (fun _ => rfl) ht) rfl rfl rfl rfl

theorem Consistent.addTeam (h : T.Consistent) {row : TeamRow} (hid : ∀ t ∈ T.teams, t.id ≠ row.id)
    (hname : T.teamNamed row.name = none) : (T.addTeam row).Consistent :=
  h.of_teams (h.teamIds.append_single hid) (h.teamNames.append_single (lookup_eq_none.mp hname))
    (fun _ ⟨t, ht, heq⟩ => ⟨t, List.mem_append_left _ ht, heq⟩) rfl rfl rfl rfl

theorem Consistent.clearMemberGrants (h : T.Consistent) (id : Id) :
    (T.clearMemberGrants id).Consistent :=
  { h with grantTeam := fun g hg => h.grantTeam g (mem_remove.mp hg).1 }

theorem Consistent.clearGroupGrants (h : T.Consistent) (id : Id) :
    (T.clearGroupGrants id).Consistent :=
  { h with groupTeam := fun g hg => h.groupTeam g (mem_remove.mp hg).1 }

theorem Consistent.addMemberGrant (h : T.Consistent) {g : MemberGrantRow} (hg : T.HasTeam g.teamId) :
    (T.addMemberGrant g).Consistent where
  __ := h
  grantTeam := forall_mem_snoc h.grantTeam hg

theorem Consistent.addGroupGrant (h : T.Consistent) {g : GroupGrantRow} (hg : T.HasTeam g.teamId) :
    (T.addGroupGrant g).Consistent where
  __ := h
  groupTeam := forall_mem_snoc h.groupTeam hg

theorem memberOf_eq_none {id userId : Id} (h : T.memberOf id userId = none) :
    ∀ m ∈ T.teamMembers, m.key ≠ (id, userId) :=
  lookup_eq_none.mp h

theorem Consistent.setMember (h : T.Consistent) {id : Id} (hid : T.HasTeam id) (userId : Id)
    (role : Option TeamRole) (now : Timestamp) : (T.setMember id userId role now).Consistent := by
  cases role with
  | none =>
    exact { h with
      memberKeys := h.memberKeys.remove
      memberTeam := fun m hm => h.memberTeam m (mem_remove.mp hm).1 }
  | some role =>
    cases hm : T.memberOf id userId with
    | none =>
      simp only [TeamTables.setMember, hm]
      exact { h with
        memberKeys := h.memberKeys.append_single (memberOf_eq_none hm)
        memberTeam := forall_mem_snoc h.memberTeam hid }
    | some m =>
      simp only [TeamTables.setMember, hm]
      refine { h with
        memberKeys := h.memberKeys.modify (TeamMember.withRole_key role)
        memberTeam := ?_ }
      intro m' hm'
      obtain ⟨m, hmem, rfl⟩ := mem_modify.mp hm'
      have := h.memberTeam m hmem
      split <;> exact this

theorem Consistent.removeTeam (h : T.Consistent) (id : Id) : (T.removeTeam id).Consistent := by
  have hkeep : ∀ i, i ≠ id → T.HasTeam i → (T.removeTeam id).HasTeam i :=
    fun i hi ⟨t, ht, heq⟩ => ⟨t, mem_remove.mpr ⟨ht, heq ▸ hi⟩, heq⟩
  exact {
    teamIds := h.teamIds.remove
    teamNames := h.teamNames.remove
    memberKeys := h.memberKeys.remove
    grantTeam := fun g hg => by
      obtain ⟨hg, hne⟩ := mem_remove.mp hg
      exact hkeep _ hne (h.grantTeam g hg)
    groupTeam := fun g hg => by
      obtain ⟨hg, hne⟩ := mem_remove.mp hg
      exact hkeep _ hne (h.groupTeam g hg)
    memberTeam := fun m hm => by
      obtain ⟨hm, hne⟩ := mem_remove.mp hm
      exact hkeep _ hne (h.memberTeam m hm)
    ownedTeam := fun o ho => by
      obtain ⟨ho, hne⟩ := mem_remove.mp (removeTeam_teamOwned id ▸ ho)
      exact hkeep _ hne (h.ownedTeam o ho) }

end TeamTables

def ProjectRow.projectId (p : ProjectRow) : Id := p.id

def ProjectRow.unorphan (p : ProjectRow) : ProjectRow := { p with orphanedAt := none }

structure ProjectView where
  row : ProjectRow
  issues : List Issue
  owned : List ProjectOwned

namespace ProjectTables

variable (T : ProjectTables)

def projectSlugged (slug : String) : Option ProjectRow := lookup ProjectRow.slug slug T.projects

def viewOf (row : ProjectRow) : ProjectView where
  row := row
  issues := select Issue.projectId row.id T.issues
  owned := select ProjectOwned.projectId row.id T.projectOwned

def view (slug : String) : Option ProjectView := (T.projectSlugged slug).map T.viewOf

/-- `UPDATE projects ... WHERE id = ?` -/
def modifyProject (id : Id) (f : ProjectRow → ProjectRow) : ProjectTables :=
  { T with projects := modify ProjectRow.projectId id f T.projects }

/-- `UPDATE projects SET orphaned_at = NULL WHERE orphaned_at IS NOT NULL` -/
def unorphanProjects : ProjectTables := { T with projects := T.projects.map ProjectRow.unorphan }

/-- `INSERT INTO projects` -/
def addProject (row : ProjectRow) : ProjectTables := { T with projects := T.projects ++ [row] }

/-- `DELETE FROM events WHERE id IN (...)` -/
def deleteEvents (ids : List Id) : ProjectTables :=
  { T with events := T.events.filter fun e => e.id ∉ ids }

def EventOf (id : Id) (e : Event) : Prop :=
  e.projectId = id ∨ ∃ i ∈ T.issues, i.projectId = id ∧ i.id = e.issueId

instance (id : Id) (e : Event) : Decidable (T.EventOf id e) :=
  inferInstanceAs (Decidable (_ ∨ _))

/-- `DELETE FROM projects WHERE id = ?`, which cascades, to the events of its issues also. -/
def removeProject (id : Id) : ProjectTables where
  projects := remove ProjectRow.projectId id T.projects
  issues := remove Issue.projectId id T.issues
  events := T.events.filter fun e => ¬ T.EventOf id e
  projectOwned := remove ProjectOwned.projectId id T.projectOwned

def HasProject (id : Id) : Prop := ∃ p ∈ T.projects, p.id = id

/-- What the schema guarantees of these tables. -/
structure Consistent : Prop where
  projectIds : UniqueOn ProjectRow.projectId T.projects
  slugs : UniqueOn ProjectRow.slug T.projects
  eventIds : UniqueOn Event.id T.events
  issueProject : ∀ i ∈ T.issues, T.HasProject i.projectId
  eventProject : ∀ e ∈ T.events, T.HasProject e.projectId
  eventIssue : ∀ e ∈ T.events, ∃ i ∈ T.issues, i.id = e.issueId
  ownedProject : ∀ o ∈ T.projectOwned, T.HasProject o.projectId

variable {T}

theorem projectSlugged_mem {slug : String} {row : ProjectRow} (h : T.projectSlugged slug = some row) :
    row ∈ T.projects ∧ row.slug = slug :=
  lookup_eq_some_mem h

namespace Consistent

theorem projectSlugged_of_mem (h : T.Consistent) {row : ProjectRow} (hrow : row ∈ T.projects) :
    T.projectSlugged row.slug = some row :=
  h.slugs.lookup_of_mem hrow

theorem id_ne (h : T.Consistent) {m n : String} {a b : ProjectRow} (ha : T.projectSlugged m = some a)
    (hb : T.projectSlugged n = some b) (hmn : m ≠ n) : a.id ≠ b.id := by
  intro hid
  obtain ⟨hap, ham⟩ := projectSlugged_mem ha
  obtain ⟨hbp, hbn⟩ := projectSlugged_mem hb
  have hab : a = b := h.projectIds.eq_of_key hap hbp hid
  exact hmn (by rw [← ham, ← hbn, hab])

theorem of_projects {rows : List ProjectRow} (h : T.Consistent)
    (hids : UniqueOn ProjectRow.projectId rows) (hslugs : UniqueOn ProjectRow.slug rows)
    (hprojects : ∀ id, T.HasProject id → ∃ p ∈ rows, p.id = id) :
    ({ T with projects := rows } : ProjectTables).Consistent where
  projectIds := hids
  slugs := hslugs
  eventIds := h.eventIds
  issueProject i hi := hprojects _ (h.issueProject i hi)
  eventProject e he := hprojects _ (h.eventProject e he)
  eventIssue := h.eventIssue
  ownedProject o ho := hprojects _ (h.ownedProject o ho)

end Consistent

theorem hasProject_map {f : ProjectRow → ProjectRow} (hf : ∀ p, (f p).id = p.id)
    {rows : List ProjectRow} {id : Id} (h : ∃ p ∈ rows, p.id = id) : ∃ p ∈ rows.map f, p.id = id := by
  obtain ⟨p, hp, rfl⟩ := h
  exact ⟨f p, List.mem_map_of_mem hp, hf p⟩

theorem Consistent.modifyProject (h : T.Consistent) {id : Id} {f : ProjectRow → ProjectRow}
    (hid : ∀ p, (f p).id = p.id) (hslug : ∀ p, (f p).slug = p.slug) :
    (T.modifyProject id f).Consistent :=
  h.of_projects (h.projectIds.modify hid) (h.slugs.modify hslug)
    fun _ hp => hasProject_map (fun p => by split <;> simp [hid]) hp

theorem Consistent.unorphanProjects (h : T.Consistent) : T.unorphanProjects.Consistent :=
  h.of_projects (h.projectIds.map (f := ProjectRow.unorphan) fun _ => rfl)
    (h.slugs.map (f := ProjectRow.unorphan) fun _ => rfl)
    fun _ hp => hasProject_map (f := ProjectRow.unorphan) (fun _ => rfl) hp

theorem Consistent.addProject (h : T.Consistent) {row : ProjectRow}
    (hid : ∀ p ∈ T.projects, p.id ≠ row.id) (hslug : T.projectSlugged row.slug = none) :
    (T.addProject row).Consistent :=
  h.of_projects (h.projectIds.append_single hid) (h.slugs.append_single (lookup_eq_none.mp hslug))
    fun _ ⟨p, hp, heq⟩ => ⟨p, List.mem_append_left _ hp, heq⟩

theorem Consistent.deleteEvents (h : T.Consistent) (ids : List Id) :
    (T.deleteEvents ids).Consistent :=
  { h with
    eventIds := h.eventIds.filter _
    eventProject := fun e he => h.eventProject e (List.mem_of_mem_filter he)
    eventIssue := fun e he => h.eventIssue e (List.mem_of_mem_filter he) }

theorem Consistent.removeProject (h : T.Consistent) (id : Id) : (T.removeProject id).Consistent := by
  have hkeep : ∀ i, i ≠ id → T.HasProject i → (T.removeProject id).HasProject i :=
    fun i hi ⟨p, hp, heq⟩ => ⟨p, mem_remove.mpr ⟨hp, fun hid => hi (heq ▸ hid)⟩, heq⟩
  have hevent : ∀ e ∈ (T.removeProject id).events, e ∈ T.events ∧ ¬ T.EventOf id e :=
    fun e he => by simpa using List.mem_filter.mp he
  exact {
    projectIds := h.projectIds.remove
    slugs := h.slugs.remove
    eventIds := h.eventIds.filter _
    issueProject := fun i hi => by
      obtain ⟨hi, hne⟩ := mem_remove.mp hi
      exact hkeep _ hne (h.issueProject i hi)
    eventProject := fun e he => by
      obtain ⟨he, hne⟩ := hevent e he
      exact hkeep _ (fun hid => hne (.inl hid)) (h.eventProject e he)
    eventIssue := fun e he => by
      obtain ⟨he, hne⟩ := hevent e he
      obtain ⟨i, hi, hie⟩ := h.eventIssue e he
      exact ⟨i, mem_remove.mpr ⟨hi, fun hid => hne (.inr ⟨i, hi, hid, hie⟩)⟩, hie⟩
    ownedProject := fun o ho => by
      obtain ⟨ho, hne⟩ := mem_remove.mp ho
      exact hkeep _ hne (h.ownedProject o ho) }

end ProjectTables

/-- The groups that were recorded for a user. -/
def UserTables.groupsOfUser (U : UserTables) (userId : Id) : List String :=
  (select UserSsoGroup.userId userId U.userSsoGroups).map UserSsoGroup.groupPath

def UserTables.userById (U : UserTables) (id : Id) : Option UserRow := lookup UserRow.id id U.users

namespace Directory

variable (d : Directory)

/-- What the schema guarantees of the directory; ids are drawn once. -/
structure Consistent : Prop where
  teams : d.toTeamTables.Consistent
  projects : d.toProjectTables.Consistent
  projectTeam : ∀ p ∈ d.projects, d.HasTeam p.teamId
  userIds : UniqueOn UserRow.id d.users
  teamFresh : ∀ t ∈ d.teams, t.id < d.nextId
  projectFresh : ∀ p ∈ d.projects, p.id < d.nextId
  userFresh : ∀ u ∈ d.users, u.id < d.nextId

/-- `SELECT p.slug, t.name FROM projects p JOIN teams t ON t.id = p.team_id` -/
def projectTeams : List (String × String) :=
  d.projects.flatMap fun p => (d.teams.filter fun t => t.id = p.teamId).map fun t => (p.slug, t.name)

end Directory

end Soika
