import Soika.ConfigSync.Applied

/-! # Applying a file again

After an apply the database is what the file describes, and a second apply changes nothing.
-/

namespace Soika

open Table

namespace ConfigSync

variable {P : Platform} {write : WritePolicy} {file : ConfigFile} {settings : ManagementSettings}
  {retention : ℤ} {now now' : Timestamp} {d d₁ d₂ : Directory} {report report₁ report₂ : SyncReport}

theorem refreshedRow_orphanedAt (row : TeamRow) (changed : Bool) (now : Timestamp) :
    (refreshedRow row changed now).orphanedAt = none := by
  unfold refreshedRow
  split
  · rfl
  · rename_i h
    have hnone : row.orphanedAt = none := by simpa using h
    split
    · exact hnone
    · exact hnone

theorem upsertedRow_orphanedAt (t : TeamConfig) (now : Timestamp) (id : Id) (old : Option TeamView) :
    (upsertedRow P t now id old).orphanedAt = none := by
  cases old with
  | none => rfl
  | some v => exact refreshedRow_orphanedAt ..

theorem teamChanged_synced (U : UserTables) (t : TeamConfig) (now : Timestamp) (id : Id)
    (old : Option TeamView) : teamChanged P t (syncedView P U t now id old) = false := by
  simp [teamChanged, grantsChanged, syncedView]

theorem memberAfter_memberAfter (id u : Id) (role : Option TeamRole) (now now' : Timestamp)
    (old : Option TeamMember) :
    TeamTables.memberAfter id u role now' (TeamTables.memberAfter id u role now old) =
      TeamTables.memberAfter id u role now old := by
  cases role with
  | none => rfl
  | some role => cases old <;> rfl

theorem reconciledMember_reconciledMember (U : UserTables) (emails groups : List (String × TeamRole))
    (now now' : Timestamp) (id : Id) (old : Id → Option TeamMember) :
    reconciledMember P U emails groups now' id (reconciledMember P U emails groups now id old) =
      reconciledMember P U emails groups now id old := by
  funext u
  unfold reconciledMember
  cases U.userById u with
  | none => rfl
  | some user => exact memberAfter_memberAfter ..

theorem TeamSynced.again {U : UserTables} {t : TeamConfig} {old new new' : Option TeamView}
    (h : TeamSynced P U t now old new) (h' : TeamSynced P U t now' new new') : new' = new := by
  obtain ⟨id, rfl⟩ := h
  obtain ⟨id', rfl⟩ := h'
  have hrow : upsertedRow P t now' id' (some (syncedView P U t now id old)) =
      upsertedRow P t now id old := by
    change refreshedRow (upsertedRow P t now id old) (teamChanged P t _) now' = _
    rw [teamChanged_synced, refreshedRow, upsertedRow_orphanedAt]
    rfl
  refine congrArg some ?_
  unfold syncedView at hrow ⊢
  rw [hrow]
  congr 1
  exact reconciledMember_reconciledMember ..

theorem TeamSynced.entries {U : UserTables} {t : TeamConfig} {old new : Option TeamView}
    (h : TeamSynced P U t now old new) : teamEntries P t new = [⟨"team", t.name, .unchanged⟩] := by
  obtain ⟨id, rfl⟩ := h
  have horphaned : (syncedView P U t now id old).row.orphanedAt = none := upsertedRow_orphanedAt ..
  simp [teamEntries, teamChanged_synced, horphaned, planPresent]

theorem prunedTeam_prunedTeam (policy : OrphanPolicy) (now now' : Timestamp)
    (old : Option TeamView) :
    prunedTeam policy now' (prunedTeam policy now old) = prunedTeam policy now old := by
  cases policy with
  | delete => rfl
  | readonly =>
    cases old with
    | none => rfl
    | some v =>
      simp only [prunedTeam, Option.map_some, orphanedTeam]
      split <;> rfl

theorem unorphan_unorphan (old : Option TeamView) :
    (old.map TeamView.unorphan).map TeamView.unorphan = old.map TeamView.unorphan := by
  cases old <;> rfl

theorem declaredRow_settled (c : ProjectFields) (now : Timestamp) (row : ProjectRow) :
    projectAction c (declaredRow c now row) = .unchanged := by
  unfold declaredRow
  by_cases haction : projectAction c row ≠ .unchanged
  · rw [if_pos haction]
    simp [projectAction, planPresent, ProjectFields.refresh, ProjectFields.set, ProjectFields.of]
  · rw [if_neg haction]
    exact not_not.mp haction

theorem newRow_settled (c : ProjectFields) (slug : String) (now : Timestamp) (id : Id)
    (shortId dsn : String) : projectAction c (c.row slug now id shortId dsn) = .unchanged := by
  simp [projectAction, planPresent, ProjectFields.row, ProjectFields.of]

theorem ProjectSynced.settled {c : ProjectFields} {slug : String} {old new : Option ProjectView}
    (h : ProjectSynced c slug now old new) :
    ∃ v, new = some v ∧ projectAction c v.row = .unchanged := by
  cases old with
  | some v => exact ⟨_, h, declaredRow_settled ..⟩
  | none =>
    obtain ⟨id, shortId, dsn, hnew⟩ := h
    exact ⟨_, hnew, newRow_settled ..⟩

theorem ProjectSynced.again {c : ProjectFields} {slug : String} {old new new' : Option ProjectView}
    (h : ProjectSynced c slug now old new) (h' : ProjectSynced c slug now' new new') :
    new' = new := by
  obtain ⟨v, rfl, hsettled⟩ := h.settled
  have hrow : declaredRow c now' v.row = v.row := if_neg (not_not.mpr hsettled)
  refine Eq.trans h' ?_
  rw [hrow]

theorem ProjectSynced.entries {c : ProjectFields} {slug : String} {old new : Option ProjectView}
    (h : ProjectSynced c slug now old new) :
    projectEntries c slug new = [⟨"project", slug, .unchanged⟩] := by
  obtain ⟨v, rfl, hsettled⟩ := h.settled
  rw [projectEntries, Option.elim_some, hsettled]

theorem prunedProject_prunedProject (policy : OrphanPolicy) (now now' : Timestamp)
    (old : Option ProjectView) :
    prunedProject policy now' (prunedProject policy now old) = prunedProject policy now old := by
  cases policy with
  | delete => rfl
  | readonly =>
    cases old with
    | none => rfl
    | some v =>
      simp only [prunedProject, Option.map_some, orphanedProject]
      split <;> rfl

theorem orphanedTeam_isSome (now : Timestamp) (row : TeamRow) :
    (orphanedTeam now row).orphanedAt.isSome = true := by
  unfold orphanedTeam
  split
  · assumption
  · rfl

theorem orphanedProject_isSome (now : Timestamp) (row : ProjectRow) :
    (orphanedProject now row).orphanedAt.isSome = true := by
  unfold orphanedProject
  split
  · assumption
  · rfl

/-- The same teams, projects, grants, memberships and events. -/
structure SameContents (d d' : Directory) : Prop where
  teams : ∀ name, d'.toTeamTables.view name = d.toTeamTables.view name
  projects : ∀ slug, d'.toProjectTables.view slug = d.toProjectTables.view slug
  users : d'.toUserTables = d.toUserTables
  events : ∀ e, e ∈ d'.events ↔ e ∈ d.events

theorem Applied.team_orphaned (h₁ : Applied P file settings retention now d d₁ report₁)
    {ts : List TeamConfig} (hts : file.teams = some ts) {row : TeamRow}
    (hrow : row ∈ undeclaredTeams ts d₁) :
    settings.teamOrphanPolicy = .readonly ∧ row.orphanedAt.isSome = true := by
  obtain ⟨hmem, hundeclared⟩ := List.mem_filter.mp hrow
  have hview := h₁.otherTeams ts hts row.name (of_decide_eq_true hundeclared)
  rw [view_of_named (h₁.consistent.teams.teamNamed_of_mem hmem)] at hview
  cases hpolicy : settings.teamOrphanPolicy with
  | delete =>
    rw [hpolicy] at hview
    cases hview
  | readonly =>
    rw [hpolicy] at hview
    obtain ⟨v, -, heq⟩ := Option.map_eq_some_iff.mp hview.symm
    have hsame : orphanedTeam now v.row = row := congrArg TeamView.row heq
    exact ⟨rfl, hsame ▸ orphanedTeam_isSome ..⟩

theorem Applied.project_orphaned (h₁ : Applied P file settings retention now d d₁ report₁)
    {ps : List ProjectConfig} (hps : file.projects = some ps)
    {row : ProjectRow} (hmem : row ∈ d₁.projects) (hundeclared : Undeclared ps row.slug) :
    settings.projectOrphanPolicy = .readonly ∧ row.orphanedAt.isSome = true := by
  have hview := h₁.otherProjects ps hps row.slug hundeclared
  rw [view_of_slugged (h₁.consistent.projects.projectSlugged_of_mem hmem)] at hview
  cases hpolicy : settings.projectOrphanPolicy with
  | delete =>
    rw [hpolicy] at hview
    cases hview
  | readonly =>
    rw [hpolicy] at hview
    obtain ⟨v, -, heq⟩ := Option.map_eq_some_iff.mp hview.symm
    have hsame : orphanedProject now v.row = row := congrArg ProjectView.row heq
    exact ⟨rfl, hsame ▸ orphanedProject_isSome ..⟩

theorem Applied.same_teams (h₁ : Applied P file settings retention now d d₁ report₁)
    (h₂ : Applied P file settings retention now' d₁ d₂ report₂)
    (name : String) : d₂.toTeamTables.view name = d₁.toTeamTables.view name := by
  cases hteams : file.teams with
  | none => rw [h₂.uiTeams hteams, h₁.uiTeams hteams, unorphan_unorphan]
  | some ts =>
    by_cases hundeclared : UndeclaredTeam ts name
    · rw [h₂.otherTeams ts hteams name hundeclared, h₁.otherTeams ts hteams name hundeclared,
        prunedTeam_prunedTeam]
    · simp only [UndeclaredTeam, not_forall, not_not] at hundeclared
      obtain ⟨t, ht, rfl⟩ := hundeclared
      have hmem : t ∈ file.teamList := by rwa [ConfigFile.teamList, hteams, Option.getD_some]
      have hsynced := h₂.declaredTeams t hmem
      rw [h₁.users] at hsynced
      exact (h₁.declaredTeams t hmem).again hsynced

theorem Applied.same_fields (h₁ : Applied P file settings retention now d d₁ report₁)
    (h₂ : Applied P file settings retention now' d₁ d₂ report₂)
    (p : ProjectConfig) :
    fieldsIn d₂.toTeamTables p retention = fieldsIn d₁.toTeamTables p retention :=
  fieldsIn_congr (named_congr (h₁.same_teams h₂ p.team))

theorem Applied.same_projects (h₁ : Applied P file settings retention now d d₁ report₁)
    (h₂ : Applied P file settings retention now' d₁ d₂ report₂)
    (slug : String) : d₂.toProjectTables.view slug = d₁.toProjectTables.view slug := by
  cases hprojects : file.projects with
  | none =>
    rw [h₂.uiProjects hprojects, h₁.uiProjects hprojects]
    cases d.toProjectTables.view slug <;> rfl
  | some ps =>
    by_cases hundeclared : Undeclared ps slug
    · rw [h₂.otherProjects ps hprojects slug hundeclared,
        h₁.otherProjects ps hprojects slug hundeclared, prunedProject_prunedProject]
    · simp only [Undeclared, not_forall, not_not] at hundeclared
      obtain ⟨p, hp, rfl⟩ := hundeclared
      have hmem : p ∈ file.projectList := by
        rwa [ConfigFile.projectList, hprojects, Option.getD_some]
      have hsynced := h₂.declaredProjects p hmem
      rw [h₁.same_fields h₂] at hsynced
      exact (h₁.declaredProjects p hmem).again hsynced

theorem Applied.only_unchanged (h₁ : Applied P file settings retention now d d₁ report₁)
    (h₂ : Applied P file settings retention now' d₁ d₂ report₂) :
    ∀ a ∈ report₂.actions, a.action = .unchanged := by
  obtain ⟨projects, teams, hprojectRows, hteamRows, hactions⟩ := h₂.actions
  have hteam : ∀ t ∈ file.teamList, teamEntries P t (d₁.toTeamTables.view t.name) =
      [⟨"team", t.name, .unchanged⟩] := fun t ht => (h₁.declaredTeams t ht).entries
  have hproject : ∀ p ∈ file.projectList, projectEntries (fieldsIn d₂.toTeamTables p retention)
      p.slug (d₁.toProjectTables.view p.slug) = [⟨"project", p.slug, .unchanged⟩] := by
    intro p hp
    rw [h₁.same_fields h₂]
    exact (h₁.declaredProjects p hp).entries
  have hpruned : ∀ row ∈ projects, prunedEntries "project" row.slug settings.projectOrphanPolicy
      row.orphanedAt.isSome = [] := by
    intro row hrow
    have hmem := hprojectRows.mem_iff.mp hrow
    cases hps : file.projects with
    | none =>
      rw [hps] at hmem
      cases hmem
    | some ps =>
      rw [hps] at hmem
      obtain ⟨hmem, hundeclared⟩ := List.mem_filter.mp hmem
      rw [Bool.not_eq_true', any_slug_eq_false] at hundeclared
      obtain ⟨hpolicy, horphaned⟩ := h₁.project_orphaned hps hmem hundeclared
      rw [hpolicy, horphaned]
      rfl
  have hprunedTeam : ∀ row ∈ teams, prunedEntries "team" row.name settings.teamOrphanPolicy
      row.orphanedAt.isSome = [] := by
    intro row hrow
    have hmem := hteamRows.mem_iff.mp hrow
    cases hts : file.teams with
    | none =>
      rw [hts] at hmem
      cases hmem
    | some ts =>
      rw [hts] at hmem
      obtain ⟨hpolicy, horphaned⟩ := h₁.team_orphaned hts hmem
      rw [hpolicy, horphaned]
      rfl
  intro a ha
  rw [hactions, List.flatMap_eq_nil_iff.mpr hprunedTeam, List.flatMap_eq_nil_iff.mpr hpruned,
    List.append_nil, List.append_nil, List.mem_append, List.mem_flatMap, List.mem_flatMap] at ha
  rcases ha with ⟨t, ht, ha⟩ | ⟨p, hp, ha⟩
  · rw [hteam t ht, List.mem_singleton] at ha
    rw [ha]
  · rw [hproject p hp, List.mem_singleton] at ha
    rw [ha]

theorem Applied.same_contents (h₁ : Applied P file settings retention now d d₁ report₁)
    (h₂ : Applied P file settings retention now' d₁ d₂ report₂) :
    SameContents d₁ d₂ where
  teams := h₁.same_teams h₂
  projects := h₁.same_projects h₂
  users := h₂.users
  events := by
    intro e
    constructor
    · exact h₂.events.events e
    · intro he
      by_contra hgone
      obtain ⟨id, ⟨ps, hps, hpolicy, row, hrow, hundeclared, -⟩, -⟩ := h₂.events.kept e he hgone
      obtain ⟨hreadonly, -⟩ := h₁.project_orphaned hps hrow hundeclared
      rw [hpolicy] at hreadonly
      cases hreadonly

theorem apply_idempotent {attempts₁ attempts₂ : ℕ → Attempt} (hd : d.Consistent)
    (parsed : ParsedFile P settings)
    (h₁ : apply P write parsed.file settings retention attempts₁ d = (.ok report₁, d₁))
    (h₂ : apply P write parsed.file settings retention attempts₂ d₁ = (.ok report₂, d₂)) :
    (∀ a ∈ report₂.actions, a.action = .unchanged) ∧ SameContents d₁ d₂ := by
  obtain ⟨-, n₁, happlied₁⟩ := applied_of_ok hd parsed.accepted h₁
  obtain ⟨-, n₂, happlied₂⟩ := applied_of_ok happlied₁.consistent parsed.accepted h₂
  exact ⟨happlied₁.only_unchanged happlied₂, happlied₁.same_contents happlied₂⟩

theorem apply_idempotent_core : ∃ report₁ d₁ report₂ d₂,
    applyCore formerDirectory = (.ok report₁, d₁) ∧ applyCore d₁ = (.ok report₂, d₂) ∧
      (∀ a ∈ report₂.actions, a.action = .unchanged) ∧ SameContents d₁ d₂ := by
  obtain ⟨report₁, h₁⟩ := exists_ok (x := applyCore formerDirectory) (by decide +kernel)
  obtain ⟨report₂, h₂⟩ := exists_ok (x := applyCore (applyCore formerDirectory).2) (by decide +kernel)
  exact ⟨report₁, _, report₂, _, h₁, h₂, apply_idempotent formerDirectory_consistent parsedCore h₁ h₂⟩

end ConfigSync

end Soika
