import Soika.Adapters.SiteSpec

/-! # The part of a team in the database

What is stored about one team, and which writes spare it: those that only reach other teams, other
projects and other issues.
-/

namespace Soika

open Table

def TeamTables.only (T : TeamTables) (id : Id) : TeamTables where
  teams := select TeamRow.id id T.teams
  memberGrants := select MemberGrantRow.teamId id T.memberGrants
  groupGrants := select GroupGrantRow.teamId id T.groupGrants
  teamMembers := select TeamMember.teamId id T.teamMembers
  invites := select Invite.teamId id T.invites
  defaultTeams := T.defaultTeams.filter (· = id)

/-- What the admins of a team decide: its row, its grants, members and invites, and its projects. -/
structure Charter where
  tables : TeamTables
  projects : List ProjectRow

def Charter.projectIds (c : Charter) : List Id := c.projects.map ProjectRow.projectId

/-- What its members work on: the issues of these projects with their events, and what else goes
with the projects. -/
structure Contents where
  issues : List Issue
  events : List Event
  owned : List ProjectOwned

def Contents.issueIds (k : Contents) : List Id := k.issues.map Issue.id

def ProjectTables.within (T : ProjectTables) (projectIds : List Id) : Contents :=
  let issues := T.issues.filter fun i => i.projectId ∈ projectIds
  { issues
    events := T.events.filter fun e => e.projectId ∈ projectIds ∧ e.issueId ∈ issues.map Issue.id
    owned := T.projectOwned.filter fun o => o.projectId ∈ projectIds }

namespace Accounts

def charter (d : Accounts) (teamId : Id) : Charter :=
  ⟨d.toTeamTables.only teamId, select ProjectRow.teamId teamId d.projects⟩

def contents (d : Accounts) (teamId : Id) : Contents :=
  d.toProjectTables.within (d.charter teamId).projectIds

theorem mem_charter_projectIds {d : Accounts} {teamId id : Id} :
    id ∈ (d.charter teamId).projectIds ↔ ∃ p ∈ d.projects, p.teamId = teamId ∧ p.id = id := by
  simp only [Charter.projectIds, charter, List.mem_map, mem_select, and_assoc]
  exact Iff.rfl

end Accounts

/-- What the schema and the drawing of ids guarantee. -/
structure Keyed (d : Accounts) : Prop where
  projectIds : UniqueOn ProjectRow.projectId d.projects
  projectFresh : ∀ p ∈ d.projects, p.id < d.nextId
  issueIds : UniqueOn Issue.id d.issues
  tokens : UniqueOn Invite.token d.invites

variable {d d' : Accounts} {teamId id : Id} {ids : List Id}

theorem Keyed.not_mem_projectIds (hd : Keyed d) {p : ProjectRow} (hp : p ∈ d.projects)
    (hteam : p.teamId ≠ teamId) : p.id ∉ (d.charter teamId).projectIds := by
  intro hmem
  obtain ⟨q, hq, hqteam, hid⟩ := Accounts.mem_charter_projectIds.mp hmem
  obtain rfl := hd.projectIds.eq_of_key hq hp hid
  exact hteam hqteam

theorem Keyed.nextId_not_mem (hd : Keyed d) : d.nextId ∉ (d.charter teamId).projectIds := by
  intro hmem
  obtain ⟨p, hp, -, hid⟩ := Accounts.mem_charter_projectIds.mp hmem
  exact (hd.projectFresh p hp).ne hid

namespace ProjectTables

variable {T T' : ProjectTables}

theorem mem_within_issueIds :
    id ∈ (T.within ids).issueIds ↔ ∃ i ∈ T.issues, i.projectId ∈ ids ∧ i.id = id := by
  simp only [Contents.issueIds, within, List.mem_map, List.mem_filter, decide_eq_true_eq, and_assoc]

theorem issueId_mem_iff (hT : UniqueOn Issue.id T.issues) {i : Issue} (hi : i ∈ T.issues) :
    i.id ∈ (T.within ids).issueIds ↔ i.projectId ∈ ids := by
  rw [mem_within_issueIds]
  constructor
  · rintro ⟨j, hj, hproject, hid⟩
    obtain rfl := hT.eq_of_key hj hi hid
    exact hproject
  · exact fun hproject => ⟨i, hi, hproject, rfl⟩

theorem within_congr
    (hissues : (T'.issues.filter fun i => i.projectId ∈ ids) =
      T.issues.filter fun i => i.projectId ∈ ids)
    (hevents : (T'.events.filter fun e => e.projectId ∈ ids ∧ e.issueId ∈ (T.within ids).issueIds) =
      T.events.filter fun e => e.projectId ∈ ids ∧ e.issueId ∈ (T.within ids).issueIds)
    (howned : (T'.projectOwned.filter fun o => o.projectId ∈ ids) =
      T.projectOwned.filter fun o => o.projectId ∈ ids) : T'.within ids = T.within ids := by
  unfold within
  dsimp only
  rw [hissues, howned]
  congr 1

theorem within_removeProject (hT : UniqueOn Issue.id T.issues) (hid : id ∉ ids) :
    (T.removeProject id).within ids = T.within ids := by
  apply within_congr
  · apply filter_remove
    rintro i - rfl
    exact decide_eq_false hid
  · apply (List.filter_filter ..).trans
    apply List.filter_congr
    intro e he
    by_cases hwithin : e.projectId ∈ ids ∧ e.issueId ∈ (T.within ids).issueIds
    · have hspared : ¬ T.EventOf id e := by
        rintro (heq | ⟨i, hi, hproject, heq⟩)
        · exact hid (heq ▸ hwithin.1)
        · rw [← heq, issueId_mem_iff hT hi, hproject] at hwithin
          exact hid hwithin.2
      simp [hwithin, hspared]
    · simp [hwithin]
  · apply filter_remove
    rintro o - rfl
    exact decide_eq_false hid

end ProjectTables

section Issues

variable {B : Backend} {issueId : Id} {s' : Store} {target : Issue}

theorem within_modifyIssue {f : Issue → Issue} (hf : Issue.Keeps f) (hd : UniqueOn Issue.id d.issues)
    (hid : id ∉ (d.toProjectTables.within ids).issueIds) :
    (d.withStore (d.store.modifyIssue id f)).toProjectTables.within ids =
      d.toProjectTables.within ids := by
  apply ProjectTables.within_congr
  · apply filter_modify
    rintro i hi rfl
    have hproject : i.projectId ∉ ids := fun hmem =>
      hid ((ProjectTables.issueId_mem_iff hd hi).mpr hmem)
    exact ⟨decide_eq_false hproject, decide_eq_false (by rwa [hf.projectId])⟩
  · rfl
  · rfl

/-- An override of the fingerprint of an issue outside: a merge stays in the project. -/
theorem OverrideStep.spares (h : OverrideStep B issueId d.store s') (hd : UniqueOn Issue.id d.issues)
    (hid : issueId ∉ (d.toProjectTables.within ids).issueIds) :
    (d.withStore s').toProjectTables.within ids = d.toProjectTables.within ids := by
  cases h with
  | same => rfl
  | rename htarget =>
    obtain ⟨-, rfl⟩ := Store.issueById_mem htarget
    exact within_modifyIssue (Issue.keeps_withFingerprint _ _) hd hid
  | @merge target source fingerprint now htarget hsource =>
    obtain ⟨hrow, rfl⟩ := Store.issueById_mem htarget
    obtain ⟨hmem, hsame, -, hne⟩ := Store.collision_eq_some hsource
    have hsourceId : source.id ∉ (d.toProjectTables.within ids).issueIds := by
      rw [ProjectTables.issueId_mem_iff hd hmem, hsame,
        ← ProjectTables.issueId_mem_iff hd hrow]
      exact hid
    have houtside : ∀ i ∈ d.issues, i.id ∉ (d.toProjectTables.within ids).issueIds →
        decide (i.projectId ∈ ids) = false := fun i hi hnot =>
      decide_eq_false fun hproject => hnot ((ProjectTables.issueId_mem_iff hd hi).mpr hproject)
    apply ProjectTables.within_congr
    · refine (filter_modify ?_).trans (filter_remove ?_)
      · rintro i hi hiid
        have hout := houtside i (mem_remove.mp hi).1 (hiid ▸ hid)
        exact ⟨hout, hout⟩
      · rintro i hi hiid
        exact houtside i hi (hiid ▸ hsourceId)
    · refine (filter_remove ?_).trans (filter_modify ?_)
      · rintro e - heid
        simp [heid, hsourceId]
      · rintro e - heid
        simp [heid, hsourceId, hid]
    · rfl

theorem OverrideStep.keys (h : OverrideStep B issueId d.store s') (hd : UniqueOn Issue.id d.issues) :
    UniqueOn Issue.id s'.issues ∧ s'.nextId = d.nextId := by
  cases h with
  | same => exact ⟨hd, rfl⟩
  | rename htarget => exact ⟨hd.modify (Issue.keeps_withFingerprint _ _).id, rfl⟩
  | merge htarget hsource =>
    exact ⟨(hd.remove (k := _)).modify (Issue.keeps_absorb _ _ _).id, rfl⟩

theorem within_updateReturning {f : Issue → Issue} (hf : Issue.Keeps f)
    (hd : UniqueOn Issue.id d.issues) (hid : id ∉ (d.toProjectTables.within ids).issueIds) :
    (d.withStore (updateReturning B id f d.store).2).toProjectTables.within ids =
      d.toProjectTables.within ids := by
  rcases updateReturning_state f d.store with hstate | hstate
  · rw [hstate]
    rfl
  · rw [hstate]
    exact within_modifyIssue hf hd hid

theorem within_commit {α : Type} {r : Except Error (α × Store)}
    (hr : ∀ a s', r = .ok (a, s') → OverrideStep B issueId d.store s')
    (hd : UniqueOn Issue.id d.issues) (hid : issueId ∉ (d.toProjectTables.within ids).issueIds) :
    (d.withStore (commit r d.store).2).toProjectTables.within ids =
      d.toProjectTables.within ids := by
  rcases commit_state (r := r) (s := d.store) with hstate | ⟨a, hok⟩
  · rw [hstate]
    rfl
  · exact (hr a _ hok).spares hd hid

end Issues

theorem within_settle {α : Type} {x : Except Error (α × Accounts)}
    (hx : ∀ a d', x = .ok (a, d') →
      d'.toProjectTables.within ids = d.toProjectTables.within ids) :
    (d.settle x).2.toProjectTables.within ids = d.toProjectTables.within ids := by
  rcases Accounts.settle_state (d := d) x with hstate | ⟨a, hok⟩
  · rw [hstate]
  · exact hx a _ hok

end Soika
